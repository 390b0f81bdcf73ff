import Mathlib
import ByteAtlas.Proofs.Additions.Steps
import ByteAtlas.Proofs.Elements.History

/-!
# Sizes follow the arguments

What is told of an instance whose size is an argument or a parameter added to what its definition
says. A size is kept under the version of the instance, and every edit of an argument gives a new
version, but binding the arguments of a new child does not. So a child that has been measured while
its arguments were computed keeps the size without them until it is edited
(`Workspace.Recorded.size_with`). Within a request nothing but the moves is looked at
(`Workspace.Measured.move`).
-/

namespace ByteAtlas

/-- **Whether a size is the one that the arguments of an instance make up**, or else the one without
arguments, of an instance of one of the structs `late` that has never been edited. -/
def Instance.SizedWith (late : String → Prop) (d : StructDef) (source : String) (i : Instance)
    (size : Int64) : Prop :=
  size = d.sizeWith source (i.arg? source) ∨
    (late i.struct ∧ i.version = initialVersion ∧ size = d.sizeWith source none)

namespace Workspace

/-! ## 1. What is kept of sizes -/

/-- **What is true of a workspace after every move**: its directory is well formed, and nothing is
known about a number that no instance has. -/
structure Tidy (ws : Workspace) : Prop where
  directory : ws.directory.WellFormed
  known : ∀ id, ws.find? id = none → ws.layouts[id]? = none

/-- **What holds of the sizes that are known**, where so many edits have been made and children of
the structs `late` get arguments that are taken from fields. -/
structure Measured (late : String → Prop) (ws : Workspace) (n : Nat) : Prop where
  tidy : ws.Tidy
  made : ∃ m, m ≤ n ∧ ws.schema.Made m
  binds : ∀ struct, ws.schema.BindsFields struct → late struct
  dates : ∀ i st size, ws.find? i.id = some i → (ws.layoutOf i.ref).size = some (st, size) →
    ws.Dates n i st
  sizes : ∀ i d source size, ws.find? i.id = some i → ws.structOf? i.ref = some d →
    d.SizedBy source → (ws.layoutOf i.ref).size = some (⟨i.version, d.version⟩, size) →
    i.SizedWith late d source size

section

variable {late : String → Prop} {ws ws' : Workspace} {n : Nat}

theorem Sound.tidy {once : Prop} (h : ws.Sound once) : ws.Tidy := by
  refine ⟨h.directory, fun id hnone => ?_⟩
  cases hl : ws.layouts[id]? with
  | none => rfl
  | some l => exact absurd hnone (h.known id l hl)

theorem Tidy.modifyLayout (h : ws.Tidy) {r : InstanceRef} (hr : ws.IsLive r)
    (g : Layout → Layout) : (ws.modifyLayout r g).Tidy := by
  refine ⟨h.directory, fun id hnone => ?_⟩
  have hnone : ws.find? id = none := hnone
  have hne : r.id ≠ id := by
    obtain ⟨i, hi, _⟩ := hr
    rintro rfl
    rw [hi] at hnone
    cases hnone
  rw [(sets_modifyLayout ws r g).others id hne]
  exact h.known id hnone

theorem Tidy.place (h : ws.Tidy) (p : Placement) : (ws.place p).2.Tidy := by
  have hadds : ws.Adds p.reason (fun _ => True) (ws.place p).2 := .place h.directory p trivial
  refine ⟨hadds.wellFormed, fun id hnone => h.known id ?_⟩
  cases hi : ws.find? id with
  | none => rfl
  | some i =>
    obtain ⟨i', hi', _⟩ := hadds.kept id i hi
    rw [hnone] at hi'
    cases hi'

theorem Tidy.modify (h : ws.Tidy) {f : Instance → Instance} (hf : KeepsPlace f)
    (id : InstanceId) : (ws.modify id f).Tidy := by
  refine ⟨h.directory.modify id hf.id hf.location, fun other hnone => h.known other ?_⟩
  rw [find?_modify] at hnone
  split at hnone
  · rename_i he
    exact he ▸ Option.map_eq_none_iff.mp hnone
  · exact hnone

/-- An instance by its reference. -/
theorem Tidy.find?_of_isLive (h : ws.Tidy) {r : InstanceRef} {i : Instance}
    (hi : ws.find? r.id = some i) : ws.find? i.id = some i := by
  rw [h.directory.id_eq r.id i hi]
  exact hi

/-- A stamp is of now or before as long as no version is another one. -/
theorem Dates.of_versions {i i' : Instance} {st : Stamp} (h : ws.Dates n i st)
    (hschema : ws'.schema = ws.schema) (hversion : i'.version = i.version) : ws'.Dates n i' st := by
  obtain ⟨hstruct, k, hk, hsum⟩ := h
  exact ⟨hschema ▸ hstruct, k, hk, hsum.trans hversion.symm⟩

namespace Measured

/-- **What does not concern sizes**: of each instance nothing is known, or it has the arguments and
the version that it had, and the size is as it was. -/
theorem of_same (h : ws.Measured late n) (htidy : ws'.Tidy) (hschema : ws'.schema = ws.schema)
    (hsame : ∀ i', ws'.find? i'.id = some i' → (ws'.layoutOf i'.ref).size = none ∨
      ∃ i, ws.find? i.id = some i ∧ i'.ref = i.ref ∧ i'.version = i.version ∧ i'.args = i.args ∧
        (ws'.layoutOf i'.ref).size = (ws.layoutOf i.ref).size) : ws'.Measured late n := by
  refine ⟨htidy, ?_, ?_, fun i' st size hi' hsize => ?_,
    fun i' d source size hi' hd hby hsize => ?_⟩
  · rw [hschema]
    exact h.made
  · rw [hschema]
    exact h.binds
  · rcases hsame i' hi' with hnone | ⟨i, hi, _, hversion, _, heq⟩
    · rw [hnone] at hsize
      cases hsize
    · exact (h.dates i st size hi (heq ▸ hsize)).of_versions hschema hversion
  · rcases hsame i' hi' with hnone | ⟨i, hi, href, hversion, hargs, heq⟩
    · rw [hnone] at hsize
      cases hsize
    · have hd : ws.structOf? i.ref = some d := by
        rw [← hd, ← href, structOf?, structOf?, hschema]
      have hsized := h.sizes i d source size hi hd hby (by rw [← heq, hsize, hversion])
      unfold Instance.SizedWith Instance.arg? at hsized ⊢
      rw [hargs, hversion, show i'.struct = i.struct from congrArg InstanceRef.struct href]
      exact hsized

/-- Of the instances only reasons and budgets are others. -/
theorem of_find? (h : ws.Measured late n) (htidy : ws'.Tidy) (hschema : ws'.schema = ws.schema)
    (hlayouts : ∀ r : InstanceRef, ws'.IsLive r → ws'.layoutOf r = ws.layoutOf r)
    (hfind : ∀ i', ws'.find? i'.id = some i' → ws.layouts[i'.id]? = none ∨
      ∃ i, ws.find? i.id = some i ∧ SameInstance i i') : ws'.Measured late n := by
  refine h.of_same htidy hschema fun i' hi' => ?_
  rw [hlayouts i'.ref ⟨i', hi', rfl⟩]
  rcases hfind i' hi' with hnone | ⟨i, hi, hsame⟩
  · refine .inl ?_
    rw [layoutOf_eq_unknown hnone]
    rfl
  · exact .inr ⟨i, hi, hsame.ref, hsame.version, hsame.args, by rw [hsame.ref]⟩

/-- Files, limits and counters do not concern sizes. -/
theorem of_parts (h : ws.Measured late n) (hschema : ws'.schema = ws.schema)
    (hdirectory : ws'.directory = ws.directory) (hlayouts : ws'.layouts = ws.layouts) :
    ws'.Measured late n := by
  have hfind (id : InstanceId) : ws'.find? id = ws.find? id := by
    rw [Workspace.find?, hdirectory, Workspace.find?]
  refine h.of_find? ⟨hdirectory ▸ h.tidy.directory, fun id hnone => ?_⟩ hschema (fun r _ => ?_)
    fun i hi => .inr ⟨i, hfind i.id ▸ hi, .refl i⟩
  · rw [hlayouts]
    exact h.tidy.known id (hfind id ▸ hnone)
  · rw [layoutOf, hlayouts, layoutOf]

/-- Placing an instance. -/
theorem place (h : ws.Measured late n) (p : Placement) : (ws.place p).2.Measured late n := by
  have hadds : ws.Adds p.reason (fun _ => True) (ws.place p).2 :=
    .place h.tidy.directory p trivial
  refine h.of_find? (h.tidy.place p) rfl (fun _ _ => rfl) fun i' hi' => ?_
  cases hi : ws.find? i'.id with
  | none => exact .inl (h.tidy.known _ hi)
  | some i =>
    obtain ⟨i'', hi'', hsame, _⟩ := hadds.kept _ i hi
    rw [hi'] at hi''
    cases hi''
    exact .inr ⟨i, h.tidy.find?_of_isLive (r := i'.ref) hi, hsame.same⟩

/-- **What is found out about an instance.** Its size stays as it is, or it becomes known. -/
theorem rewrite (h : ws.Measured late n) (hn : n < Schema.versionLimit) {r : InstanceRef}
    (hr : ws.IsLive r) {d : StructDef} (hd : ws.structOf? r = some d) {g : Layout → Layout}
    (hrewrites : ws.Rewrites r d (ws.layoutOf r) (g (ws.layoutOf r))) :
    (ws.modifyLayout r g).Measured late n := by
  have hset := sets_modifyLayout ws r g
  have htidy := h.tidy.modifyLayout hr g
  rcases hrewrites.size_cases with hsame | ⟨size, hknown, hsize⟩
  · refine h.of_same htidy rfl fun i hi => .inr ⟨i, hi, rfl, rfl, rfl, ?_⟩
    have hi : ws.find? i.id = some i := hi
    rcases hset.layoutOf_cases hr ⟨i, hi, rfl⟩ with ⟨rfl, he⟩ | ⟨_, he⟩ <;> rw [he]
    exact hsame
  · refine ⟨htidy, h.made, h.binds, fun i st size' hi hsize' => ?_,
      fun i d' source size' hi hd' hby hsize' => ?_⟩
    · have hi : ws.find? i.id = some i := hi
      rcases hset.layoutOf_cases hr ⟨i, hi, rfl⟩ with ⟨rfl, he⟩ | ⟨_, he⟩ <;> rw [he] at hsize'
      · rw [hknown] at hsize'
        cases hsize'
        refine (Dates.now h.made hn hi ?_).of_versions rfl rfl
        rw [stampNow?, hd]
        rfl
      · exact (h.dates i st size' hi hsize').of_versions rfl rfl
    · have hi : ws.find? i.id = some i := hi
      rcases hset.layoutOf_cases hr ⟨i, hi, rfl⟩ with ⟨rfl, he⟩ | ⟨_, he⟩ <;> rw [he] at hsize'
      · rw [hknown] at hsize'
        obtain rfl : size = size' := congrArg Prod.snd (Option.some.inj hsize')
        obtain rfl : d = d' := Option.some.inj (hd.symm.trans hd')
        refine .inl ((hsize source hby).trans ?_)
        rw [argOf?, show ws.find? i.ref.id = some i from hi]
      · exact h.sizes i d' source size' hi hd' hby hsize'

/-- **A new child gets its arguments.** If its size is known, it is the one without them. -/
theorem bindArgs (h : ws.Measured late n) {id : InstanceId} {i : Instance} (args : List Arg)
    (hi : ws.find? id = some i) (hargs : i.args = []) (hversion : i.version = initialVersion)
    (hbound : ws.schema.BindsFields i.struct ∨ ws.layouts[id]? = none) :
    (ws.modify id (Instance.bindArgs args)).Measured late n := by
  have hkeeps := keepsVersion_bindArgs args
  have hid := h.tidy.directory.id_eq id i hi
  have hfind {j : Instance} (hj : (ws.modify id (Instance.bindArgs args)).find? j.id = some j) :
      (ws.find? j.id = some j) ∨ j = i.bindArgs args := by
    rw [find?_modify] at hj
    split at hj
    · rw [hi] at hj
      exact .inr (Option.some.inj hj).symm
    · exact .inl hj
  refine ⟨h.tidy.modify hkeeps.toKeepsPlace id, h.made, h.binds, fun j st size hj hsize => ?_,
    fun j d source size hj hd hby hsize => ?_⟩
  · rcases hfind hj with hj | rfl
    · exact (h.dates j st size hj hsize).of_versions rfl rfl
    · exact (h.dates i st size (hid ▸ hi) hsize).of_versions rfl rfl
  · rcases hfind hj with hj | rfl
    · exact h.sizes j d source size hj hd hby hsize
    · rcases hbound with hbinds | hunknown
      · have hnone : i.arg? source = none := by
          rw [Instance.arg?, hargs]
          rfl
        refine .inr ⟨h.binds _ hbinds, hversion, ?_⟩
        rcases h.sizes i d source size (hid ▸ hi) hd hby hsize with hsized | ⟨_, _, hsized⟩
        · rwa [hnone] at hsized
        · exact hsized
      · have hlayout : ws.layoutOf i.ref = .unknown i.offset := by
          refine layoutOf_eq_unknown ?_
          show ws.layouts[i.id]? = none
          rwa [hid]
        have hsize : (ws.layoutOf i.ref).size = some (⟨i.version, d.version⟩, size) := hsize
        rw [hlayout] at hsize
        cases hsize

/-- **What one move keeps.** -/
theorem move (h : ws.Measured late n) (hn : n < Schema.versionLimit) (hmove : ws.Move ws') :
    ws'.Measured late n := by
  cases hmove with
  | layout hr hd hrewrites => exact h.rewrite hn hr hd hrewrites
  | @undefined r g hr _ hsize =>
    refine h.of_same (h.tidy.modifyLayout hr g) rfl fun i hi => .inr ⟨i, hi, rfl, rfl, rfl, ?_⟩
    have hi : ws.find? i.id = some i := hi
    rcases (sets_modifyLayout ws r g).layoutOf_cases hr ⟨i, hi, rfl⟩ with ⟨rfl, he⟩ | ⟨_, he⟩ <;>
      rw [he]
    exact hsize _
  | place p _ => exact h.place p
  | bind args hi hargs hversion hbound => exact h.bindArgs args hi hargs hversion hbound
  | count depth refusals limitHits => exact h.of_parts rfl rfl rfl

/-- **What all moves keep.** -/
theorem moved (h : ws.Measured late n) (hn : n < Schema.versionLimit) (hmoved : ws.Moved ws') :
    ws'.Measured late n := by
  induction hmoved with
  | refl => exact h
  | tail _ hmove _ ih => exact ih.move hn hmove

/-! ## 2. Edits -/

/-- Some instances are gone. -/
theorem shrinks {once : Prop} (h : ws.Measured late n) (hs : ws.Sound once) (hg : ws.Shrinks ws') :
    ws'.Measured late n :=
  h.of_find? (hg.sound hs).tidy hg.schema (fun _ hr => hg.layoutOf hr)
    fun i hi => .inr ⟨i, hg.instances _ i hi, .refl i⟩

/-- An instance is there for another reason. -/
theorem setReason (h : ws.Measured late n) (id : InstanceId) (reason : Reason) :
    (ws.modify id (.setReason reason)).Measured late n := by
  have hf := keepsVersion_setReason reason
  refine h.of_find? (h.tidy.modify hf.toKeepsPlace id) rfl (fun _ _ => rfl) fun j hj => ?_
  obtain ⟨i, hi, _, rfl | rfl⟩ := exists_of_find?_modify hf.toKeepsPlace hj
  · exact .inr ⟨j, hi, .refl j⟩
  · exact .inr ⟨i, hi, rfl⟩

/-- **An edit of an instance.** What was kept of its size is not up to date any more. -/
theorem edit (h : ws.Measured late n) (hn : n + 1 < Schema.versionLimit) {f : Instance → Instance}
    (hf : Instance.Edit f) (id : InstanceId) : (ws.modify id f).Measured late (n + 1) := by
  have hversion (i : Instance) : (f i).version = i.version + 1 := by
    cases hf <;> rfl
  have hfind {j : Instance} (hj : (ws.modify id f).find? j.id = some j) :=
    exists_of_find?_modify hf.keepsPlace hj
  have hlayout {j i : Instance} (href : j.ref = i.ref) :
      (ws.modify id f).layoutOf j.ref = ws.layoutOf i.ref :=
    congrArg ws.layoutOf href
  obtain ⟨m, hm, hmade⟩ := h.made
  refine ⟨h.tidy.modify hf.keepsPlace id, ⟨m, Nat.le_succ_of_le hm, hmade⟩, h.binds,
    fun j st size hj hsize => ?_, fun j d source size hj hd hby hsize => ?_⟩
  · obtain ⟨i, hi, href, hji⟩ := hfind hj
    rw [hlayout href] at hsize
    obtain ⟨hstruct, k, hk, hsum⟩ := h.dates i st size hi hsize
    rcases hji with rfl | rfl
    · exact ⟨hstruct, k, Nat.le_succ_of_le hk, hsum⟩
    · refine ⟨hstruct, k + 1, ?_, ?_⟩
      · have hone : (1 : UInt32).toNat = 1 := rfl
        rw [UInt32.toNat_add]
        omega
      · rw [hversion, ← hsum, UInt32.add_assoc]
  · obtain ⟨i, hi, href, hji⟩ := hfind hj
    rw [hlayout href] at hsize
    rcases hji with rfl | rfl
    · exact h.sizes j d source size hi hd hby hsize
    · exact absurd (hversion i) ((h.dates i _ size hi hsize).ne_of_edited hn)

/-- **An edit of the schema.** -/
theorem setSchema (h : ws.Measured late n) {k : Nat} (hn : n + k < Schema.versionLimit) {s : Schema}
    (hchange : ws.schema.Change k s) (hbinds : ∀ struct, s.BindsFields struct → late struct) :
    Measured late { ws with schema := s } (n + k) := by
  obtain ⟨m, hm, hmade⟩ := h.made
  have hlt : n + k < 2 ^ 32 - 1 := hn
  obtain ⟨hnewest, _⟩ := hmade.versions (by omega)
  obtain ⟨hnewest', hcases⟩ := hchange.versions (by omega)
  refine ⟨⟨h.tidy.directory, h.tidy.known⟩, ⟨m + k, by omega, hmade.change hchange⟩, hbinds,
    fun i st size hi hsize => ?_, fun i d source size hi hd hby hsize => ?_⟩
  · obtain ⟨hstruct, j, hj, hsum⟩ := h.dates i st size hi hsize
    refine ⟨UInt32.le_trans hstruct ?_, j, Nat.le_trans hj (Nat.le_add_right n k), hsum⟩
    rw [UInt32.le_iff_toNat_le, hnewest']
    exact Nat.le_add_right _ _
  · rcases hcases i.ref.struct d hd with hold | ⟨hnew, _⟩
    · exact h.sizes i d source size hi hold hby hsize
    · exact absurd hnew (UInt32.not_lt.mpr (h.dates i _ size hi hsize).struct)

end Measured

end

/-! ## 3. Histories -/

/-- Files are added. Only children of the structs `late` get arguments that are taken from fields,
whatever definitions there have been, and the versions of instances are counted too. -/
def Rules.binding (late : String → Prop) : Rules where
  schemas schema := ∀ struct, schema.BindsFields struct → late struct
  files ws files := ws.files.toList <+: files.toList
  edits := true
  perEdit := 1

/-- **The workspaces that a history leads to**, with how many versions have been given out, to
definitions and to instances. Only children of the structs `late` get arguments that are taken from
fields, whatever definitions there have been. -/
abbrev Recorded (late : String → Prop) (ws : Workspace) (versions : Nat) : Prop :=
  ws.History (.binding late) versions

section

variable {late : String → Prop} {ws : Workspace} {n : Nat}

/-- It is a history like any other, in which fewer versions are counted. -/
theorem Recorded.reached (h : ws.Recorded late n) : ∃ m, m ≤ n ∧ ws.Reached m true := by
  obtain ⟨m, hreached, hm, _⟩ := h.within (.adding true)
    ⟨fun _ _ => trivial, fun _ _ hfiles => hfiles, fun _ => rfl⟩
  exact ⟨m, hm (Nat.zero_le 1), hreached⟩

/-- **Every history is one of them**, if nothing is said about the structs. -/
theorem Reached.recorded {m : Nat} {edited : Bool} (h : ws.Reached m edited) :
    ∃ n, ws.Recorded (fun _ => True) n := by
  obtain ⟨n, hrecorded, _⟩ := h.within (.binding fun _ => True)
    ⟨fun _ _ _ _ => trivial, fun _ _ hfiles => hfiles, fun _ => rfl⟩
  exact ⟨n, hrecorded⟩

/-- **What holds of sizes after every history.** -/
theorem Recorded.measured (h : ws.Recorded late n) (hn : n < Schema.versionLimit) :
    ws.Measured late n := by
  have hordered {ws : Workspace} {n : Nat} (h : ws.Recorded late n)
      (hn : n < Schema.versionLimit) : ws.Ordered := by
    obtain ⟨m, hm, hreached⟩ := Recorded.reached h
    exact hreached.led.ordered (Nat.lt_of_le_of_lt hm hn)
  induction h with
  | @start n schema limits hmade hbinds hlimit =>
    have hnone (i : Instance) : (ofSchema schema limits).find? i.id ≠ some i :=
      fun hi => by cases hi
    exact ⟨⟨Directory.wellFormed_empty, fun _ _ => rfl⟩, ⟨n, Nat.le_refl n, hmade⟩, hbinds,
      fun i _ _ hi => absurd hi (hnone i), fun i _ _ _ hi => absurd hi (hnone i)⟩
  | request h hrequest ih => exact (ih hn).moved hn (hrequest.proceeds (hordered h hn)).moves.1
  | files _ _ ih => exact (ih hn).of_parts rfl rfl rfl
  | setLimits _ _ ih => exact (ih hn).of_parts rfl rfl rfl
  | delete id h ih => exact (ih hn).shrinks (hordered h hn).sound ((hordered h hn).sound.delete id)
  | deleteAuto h ih => exact (ih hn).shrinks (hordered h hn).sound (hordered h hn).sound.deleteAuto
  | setReason id reason _ ih => exact (ih hn).setReason id reason
  | edit id _ _ hf ih => exact (ih (Nat.lt_of_succ_lt hn)).edit hn hf id
  | @schema ws n k schema _ _ hchange hbinds ih =>
    exact (ih (Nat.lt_of_le_of_lt (Nat.le_add_right n k) hn)).setSchema hn hchange hbinds

/-! ## 4. Sizes that are told -/

/-- **The size that is told follows the arguments.** After any history, if the definition of an
instance adds its size to what a name stands for that is no field: that is the argument of the name
as it is now, or else the parameter, or else nothing. The one exception is an instance that has
never been edited, of a struct whose instances get an argument that is taken from a field: it may be
told the size that it has without arguments, because it was measured before it had any. -/
theorem Recorded.size_with (h : ws.Recorded late n) (hn : n < Schema.versionLimit)
    {r : InstanceRef} (hr : ws.IsLive r) {d : StructDef} (hd : ws.structOf? r = some d)
    {source : String} (hby : d.SizedBy source) :
    ∃ size ws', (r.size false).runIn ws = (.ok (some size), ws') ∧
      (size = d.sizeWith source (ws.argOf? r source) ∨
        (late r.struct ∧ ws.versionOf r = initialVersion ∧ size = d.sizeWith source none)) := by
  have hmeasured := h.measured hn
  obtain ⟨i, hi, rfl⟩ := hr
  have hi' : ws.find? i.id = some i := hi
  have harg : ws.argOf? i.ref source = i.arg? source := by
    rw [argOf?, hi]
  have hversion : ws.versionOf i.ref = i.version := versionOf_ref hi'
  have hresolving : (i.ref.size false).runIn ws = _ :=
    Resolve.runIn_resolving (fun resolver => resolver.size i.ref false) rfl
  cases hknown : (ws.layoutOf i.ref).sizeFor? (ws.stampOf i.ref d) with
  | some size =>
    refine ⟨size, ws, hresolving.trans (Resolver.runIn_size_of_kept _ hd hknown false), ?_⟩
    have hkept : (ws.layoutOf i.ref).size = some (⟨i.version, d.version⟩, size) := by
      unfold Layout.sizeFor? at hknown
      split at hknown
      · rename_i st size' hsize
        split at hknown
        · rename_i hst
          rw [hsize, hst, Option.some.inj hknown, stampOf, hversion]
        · cases hknown
      · cases hknown
    rw [harg, hversion]
    exact hmeasured.sizes i d source size hi' hd hby hkept
  | none =>
    have hrun :=
      (Resolver.within (ws.limits.maxDepth - ws.depth)).runIn_size_of_sizedBy hd hby hknown
    exact ⟨_, _, hresolving.trans hrun, .inl rfl⟩

end

/-- A struct of a lid, as large as an argument tells and two more. -/
def shelfBox : StructDef :=
  { StructDef.empty with
    size := 2
    sizeSource := some "n"
    fields := ⟨[("lid", .ofType (.scalar .char))], by decide⟩ }

/-- A struct of two of them. How large they are is computed from the first. -/
def shelf : StructDef :=
  { StructDef.empty with
    size := 8
    fields := ⟨[("boxes", { Field.ofType (.struct "Box") with
        count := 2
        args := [⟨"n", some "k", 0⟩] }),
      ("k", { Field.ofType (.scalar .char) with
        value := some ⟨"boxes.lid + 5", .binary .add
          (.member (some (.sub none "boxes" (.mk [] [] none))) "lid" none false) (.constant 5),
          by cbv⟩ })], by decide⟩ }

def shelfSchema : Schema :=
  ⟨((∅ : Std.TreeMap String StructDef).insert "Shelf" shelf).insert "Box" shelfBox, 0⟩

def shelfRef : InstanceRef := ⟨0, ⟨"Shelf", 0, 0⟩⟩

/-- The first box of the shelf. -/
def shelfBoxRef : InstanceRef := ⟨1, ⟨"Box", 0, 0⟩⟩

/-- A shelf, once its boxes have been looked at. -/
def withShelf : Workspace :=
  ((toInstance 0 fun r => r.walk 0 none .query .idle ()).runIn
    ((ofSchema shelfSchema .default).place (.single shelfRef.location .user)).2).2

/-- Only boxes are held in fields. -/
theorem eq_box_of_bindsFields {struct : String} (h : shelfSchema.BindsFields struct) :
    struct = "Box" := by
  obtain ⟨name, d, f, hd, hf, htype, _⟩ := h
  have hall : ∀ e ∈ shelfSchema.structs.toList, ∀ f ∈ e.2.fields.entries,
      f.2.type.structName?.all (· = "Box") := by
    decide
  have hbox := Schema.forall_of_toList (P := fun d => ∀ f ∈ d.fields.entries,
    f.2.type.structName?.all (· = "Box")) hall hd f hf
  rw [htype] at hbox
  exact of_decide_eq_true hbox

/-- **A box that is told the size without its argument**: it was measured when the argument was
computed. -/
theorem size_with_withShelf : withShelf.Recorded (· = "Box") 0 ∧ withShelf.IsLive shelfBoxRef ∧
    withShelf.argOf? shelfBoxRef "n" = some 5 ∧ ∃ size ws',
      (shelfBoxRef.size false).runIn withShelf = (.ok (some size), ws') ∧
      size ≠ shelfBox.sizeWith "n" (withShelf.argOf? shelfBoxRef "n") ∧
      withShelf.versionOf shelfBoxRef = initialVersion ∧ size = shelfBox.sizeWith "n" none := by
  have hrecorded : withShelf.Recorded (· = "Box") 0 :=
    .request (.request (.start (.of_toList rfl (by decide)) (fun _ => eq_box_of_bindsFields)
      (by decide)) (.place _)) (.walk 0 0 none .query () fun _ _ => .done _)
  have harg : withShelf.argOf? shelfBoxRef "n" = some 5 := by decide +kernel
  have hlive : withShelf.IsLive shelfBoxRef := by
    have hfound : (withShelf.find? 1).map Instance.ref = some shelfBoxRef := by decide +kernel
    exact Option.map_eq_some_iff.mp hfound
  have hstruct : withShelf.structOf? shelfBoxRef = some shelfBox := by decide +kernel
  obtain ⟨size, ws', hrun, hsize⟩ := hrecorded.size_with (by decide) hlive hstruct ⟨rfl, rfl⟩
  have hkept : (withShelf.layoutOf shelfBoxRef).sizeFor? (withShelf.stampOf shelfBoxRef shelfBox) =
      some 2 := by
    decide +kernel
  have htold : ((shelfBoxRef.size false).runIn withShelf).1 = .ok (some 2) := by
    rw [show (shelfBoxRef.size false).runIn withShelf = _ from
      Resolve.runIn_resolving (fun resolver => resolver.size shelfBoxRef false) rfl,
      Resolver.runIn_size_of_kept _ hstruct hkept false]
  rw [hrun] at htold
  cases htold
  have hne : (2 : Int64) ≠ shelfBox.sizeWith "n" (withShelf.argOf? shelfBoxRef "n") := by
    rw [harg]
    decide
  rcases hsize with heq | ⟨_, hversion, hnone⟩
  · exact absurd heq hne
  · exact ⟨hrecorded, hlive, harg, 2, ws', hrun, hne, hversion, hnone⟩

end Workspace

end ByteAtlas
