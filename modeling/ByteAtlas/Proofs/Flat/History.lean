import ByteAtlas.Proofs.Flat.Rest
import ByteAtlas.Proofs.Resolve.Edits

/-!
# Histories of flat definitions

`Workspace.Consulted`: the workspaces that questions and edits lead to, in any order, from one in
which nothing is known yet. After each of them what is known of an instance is true, if it is up to
date (`Workspace.Consulted.truthful`). So an answer is the one that a workspace would give in which
nothing has been asked before (`Workspace.Renews`).

Frames may have been refused on the way if nothing was begun that may be wrong.
-/

namespace ByteAtlas

namespace Workspace

/-! ## 1. What is known of an instance -/

/-- What the answers about an instance depend on. -/
def siteOf (ws : Workspace) (i : Instance) : Site where
  struct := (ws.structOf? i.ref).getD .empty
  ref := i.ref
  args := i.args
  budget := i.budget
  sizeOverride := i.sizeOverride
  files := ws.files
  maxElements := ws.limits.maxElements

/-- **Whether what is known of an instance is true** where it is up to date. If its struct is not
defined nothing is known. -/
def Knows (ws : Workspace) (i : Instance) : Prop :=
  match ws.structOf? i.ref with
  | some _ => (ws.siteOf i).Kept ws
  | none => ws.layouts[i.id]? = none

section

variable {ws ws' : Workspace} {i : Instance}

theorem siteOf_of_structOf? {d : StructDef} (hd : ws.structOf? i.ref = some d) :
    (ws.siteOf i).struct = d := by
  rw [siteOf, hd]
  rfl

theorem shownIn_siteOf (hi : ws.find? i.id = some i) {d : StructDef}
    (hd : ws.structOf? i.ref = some d) : (ws.siteOf i).ShownIn ws :=
  ⟨by rw [siteOf_of_structOf? hd]; exact hd, ⟨i, hi, rfl, rfl, rfl⟩, rfl, rfl⟩

theorem Turns.siteOf {r : InstanceRef} (h : ws.Turns r ws') (i : Instance) :
    ws'.siteOf i = ws.siteOf i := by
  unfold Workspace.siteOf
  rw [h.structOf?, h.files, h.limits]

/-- Nothing is known to begin with. -/
theorem knows_of_unknown (h : ws.layouts[i.id]? = none) : ws.Knows i := by
  unfold Knows
  split
  · have hlayout : ws.layoutOf (ws.siteOf i).ref = .unknown i.ref.offset := by
      rw [layoutOf]
      show (ws.layouts[i.id]?).getD _ = _
      rw [h]
      rfl
    refine .of_outdated ?_ (fun _ => ?_) ?_ ?_ <;> rw [hlayout]
    · rfl
    · rfl
    · rintro ⟨⟩
    · rintro ⟨⟩
  · exact h

/-- Only the layout and the version count, and what the answers depend on. -/
theorem Knows.of_layouts {j : Instance} (h : ws.Knows i) (href : j.ref = i.ref)
    (hlayouts : ws'.layouts[j.id]? = ws.layouts[i.id]?)
    (hstruct : ws'.structOf? j.ref = ws.structOf? i.ref) (hsite : ws'.siteOf j = ws.siteOf i)
    (hversion : ws'.versionOf j.ref = ws.versionOf i.ref) : ws'.Knows j := by
  unfold Knows at h ⊢
  rw [hstruct, hsite, hlayouts]
  split at h
  · refine Site.Kept.of_layoutOf h ?_ ?_
    · show (ws'.layouts[i.ref.id]?).getD _ = (ws.layouts[i.id]?).getD _
      rw [← href]
      show (ws'.layouts[j.id]?).getD _ = _
      rw [hlayouts]
    · show ws'.stampOf i.ref _ = ws.stampOf i.ref _
      rw [← href, stampOf, hversion, href]
      rfl
  · exact h

end

end Workspace

/-! ## 2. Questions -/

/-- A question about a field of an instance without a definition. -/
theorem Resolver.Consults.runIn_undefined {site : Site} {ws : Workspace} {i c : Nat}
    {resolver : Resolver} {isLazy : Bool} {α : Type} {step : Resolve α}
    {p : FieldFacts → Promise α} {nothing : α}
    (h : resolver.Consults site i isLazy c step p nothing) (hnone : ws.structOf? site.ref = none)
    (hentry : ws.entryOf? site.ref i = none) : step.runIn ws = (.ok nothing, ws) := by
  obtain ⟨rest, rfl, _, hnothing⟩ := h
  have henumerate : (resolver.enumerate site.ref (i + 1) isLazy).runIn ws = (.ok (), ws) := by
    rw [Resolver.enumerate, Resolve.runIn_bind, ByteAtlas.structOf?, Resolve.runIn_ask, hnone]
    rfl
  rw [Resolve.runIn_bind, henumerate]
  exact hnothing hentry

namespace Inquiry

variable {ws : Workspace} {i : Instance}

/-- **Without a definition nothing is known.** -/
theorem runIn_undefined (q : Inquiry) (hi : ws.find? i.id = some i)
    (hnone : ws.structOf? i.ref = none) (hlayout : ws.layouts[i.id]? = none) (isLazy : Bool) :
    (q.ask i.ref isLazy).runIn ws = (q.answer (ws.siteOf i), ws) := by
  have hstruct : (ws.siteOf i).struct = .empty := by
    rw [Workspace.siteOf, hnone]
    rfl
  have hflat : (ws.siteOf i).struct.Flat := by
    rw [hstruct]
    exact ⟨nofun, nofun, nofun⟩
  have hfaithful := Resolver.faithful_within hflat (ws.limits.maxDepth - ws.depth)
  have hentry (j : Nat) : ws.entryOf? (ws.siteOf i).ref j = none := by
    have hunknown : ws.layoutOf (ws.siteOf i).ref = .unknown i.ref.offset := by
      show (ws.layouts[i.id]?).getD _ = _
      rw [hlayout]
      rfl
    rw [Workspace.entryOf?, hunknown]
    rfl
  have hfacts (j : Nat) : (ws.siteOf i).fieldFacts j = .ok none :=
    Site.fieldFacts_eq_ok (k := 0) rfl (by rw [hstruct]; exact Nat.zero_le _)
  rw [ask_eq, Resolve.resolving, Resolve.runIn_bind, Resolve.runIn_ask]
  dsimp only
  generalize Resolver.within (ws.limits.maxDepth - ws.depth) = resolver at hfaithful
  have hfield {q : Inquiry} {j : Nat} (hq : q.field? = some j) {p : FieldFacts → Promise q.Answer}
      {c : Nat} {takesLazily : Bool} (h : resolver.Consults (ws.siteOf i) j takesLazily c
        (q.request i.ref isLazy resolver) p q.nothing) :
      (q.request i.ref isLazy resolver).runIn ws = (q.answer (ws.siteOf i), ws) := by
    rw [h.runIn_undefined hnone (hentry j), q.answer_eq _ hq, hfacts]
    rfl
  have hsize : (ws.siteOf i).size = .ok 0 := by
    rw [Site.size, hstruct]
    rfl
  have hrun : (resolver.size i.ref isLazy).runIn ws = (.ok (some 0), ws) := by
    rw [Resolver.size, Resolve.runIn_bind, ByteAtlas.structOf?, Resolve.runIn_ask, hnone]
    rfl
  cases q with
  | isPresent j =>
    exact hfield (q := .isPresent j) rfl (Resolver.Faithful.consults_isPresent j isLazy)
  | fieldOffset j =>
    exact hfield (q := .fieldOffset j) rfl (hfaithful.consults_fieldOffset j isLazy)
  | valueOffset j n =>
    exact hfield (q := .valueOffset j n) rfl (hfaithful.consults_valueOffset j n isLazy)
  | elementCount j =>
    exact hfield (q := .elementCount j) rfl (hfaithful.consults_elementCount j isLazy)
  | totalSize j => exact hfield (q := .totalSize j) rfl (hfaithful.consults_totalSize j isLazy)
  | fieldPreview j =>
    exact hfield (q := .fieldPreview j) rfl (hfaithful.consults_fieldPreview j isLazy)
  | valuePreview j n =>
    exact hfield (q := .valuePreview j n) rfl (hfaithful.consults_valuePreview j n)
  | intValue j n => exact hfield (q := .intValue j n) rfl (hfaithful.consults_intValue j n)
  | size =>
    show (resolver.size i.ref isLazy).runIn ws = (some <$> (ws.siteOf i).size, ws)
    rw [hrun, hsize]
    rfl
  | canCreateNext loose =>
    show (resolver.canCreateNext i.ref isLazy loose).runIn ws =
      ((fun size => some ((ws.siteOf i).goesOn loose size)) <$> (ws.siteOf i).size, ws)
    have hleft : (Resolver.budgetAfter i.ref 0).runIn ws = (.ok (i.budgetAfter 0), ws) := by
      rw [Resolver.budgetAfter, Resolve.runIn_ask]
      show (Except.ok ((ws.find? i.id).elim 0 _), ws) = _
      rw [hi]
      rfl
    rw [Resolver.canCreateNext, Resolve.runIn_bind, hrun, hsize]
    dsimp only
    rw [Resolve.runIn_bind, hleft]
    rfl

/-- **Every question to an instance has its answer**, and leaves what is known of it true. -/
theorem leads_of_knows (q : Inquiry) (hflat : ws.schema.Flat) (hi : ws.find? i.id = some i)
    (hknows : ws.Knows i) (isLazy : Bool) (hfresh : isLazy = true → ¬ q.ReadsOutdated ws i.ref) :
    (ws.siteOf i).Leads (Workspace.Turns i.ref) (fun ws' => ws'.Knows i) True True ws
      (q.ask i.ref isLazy) (q.answers (ws.siteOf i) isLazy) := by
  cases hstruct : ws.structOf? i.ref with
  | none =>
    have hunknown : ws.layouts[i.id]? = none := by
      unfold Workspace.Knows at hknows
      rw [hstruct] at hknows
      exact hknows
    exact .of_run (q.runIn_undefined hi hstruct hunknown isLazy)
      (Workspace.Course.refl i.ref ws) (fun _ _ => trivial) (fun _ => hknows)
      fun _ _ => ⟨fun _ => rfl, fun _ ha _ => ha⟩
  | some d =>
    have hkept : (ws.siteOf i).Kept ws := by
      unfold Workspace.Knows at hknows
      rw [hstruct] at hknows
      exact hknows
    have hd : (ws.siteOf i).struct.Flat := by
      rw [Workspace.siteOf_of_structOf? hstruct]
      exact hflat _ d hstruct
    refine ((q.leads hd (Workspace.shownIn_siteOf hi hstruct) hkept isLazy hfresh).widen
      (fun _ => id) fun ws' hturns _ hkept' => ?_).mono id (fun _ => id) (fun _ _ _ => trivial)
        fun _ _ _ _ => id
    unfold Workspace.Knows
    rw [hturns.structOf?, hturns.siteOf]
    show match ws.structOf? i.ref with | some _ => _ | none => _
    rw [hstruct]
    exact hkept'

end Inquiry

/-! ## 3. Histories -/

/-- Definitions that are inserted or edited stay. -/
theorem Schema.Change.get?_eq_none {s s' : Schema} (h : s.Change 1 s') {name : String}
    (hnone : s'.get? name = none) : s.get? name = none := by
  have hinsert {other : String} {d : StructDef} (hnone : (s.insert other d).get? name = none) :
      s.get? name = none := by
    rw [get?_insert] at hnone
    split at hnone
    · cases hnone
    · exact hnone
  cases h with
  | insert other d => exact hinsert hnone
  | edit other f =>
    unfold Schema.edit at hnone
    split at hnone
    · exact hnone
    · exact hinsert hnone

namespace Workspace

/-- **The workspaces that questions and edits lead to**, from one in which nothing is known yet,
with how many versions have been given out at most. Where a frame was refused (`cutShort`) nothing
has been begun that may be wrong, and no lazy answer was taken from what is out of date. -/
inductive Consulted (cutShort : Bool) : Workspace → (versions : Nat) → Prop where
  | start {ws : Workspace} {n : Nat} : ws.schema.Made n → ws.schema.Flat →
    (∀ id : InstanceId, ws.layouts[id]? = none) → Consulted cutShort ws n
  | call {ws ws' : Workspace} {n : Nat} {i : Instance} {q : Inquiry} {isLazy : Bool}
    {a : q.Answer} : Consulted cutShort ws n → ws.find? i.id = some i →
    (isLazy = true → ¬ q.ReadsOutdated ws i.ref) → (q.ask i.ref isLazy).runIn ws = (.ok a, ws') →
    (ws'.refusals ≠ ws.refusals → cutShort = true ∧ ws.Spares i.ref ws') → Consulted cutShort ws' n
  | setMaxDepth {ws : Workspace} {n : Nat} (maxDepth : Nat) : Consulted cutShort ws n →
    Consulted cutShort (ws.setLimits { ws.limits with maxDepth }) n
  | setReason {ws : Workspace} {n : Nat} (id : InstanceId) (reason : Reason) :
    Consulted cutShort ws n → Consulted cutShort (ws.modify id (.setReason reason)) n
  | edit {ws : Workspace} {n : Nat} (id : InstanceId) {f : Instance → Instance} :
    Consulted cutShort ws n → Instance.Edit f → Consulted cutShort (ws.modify id f) (n + 1)
  | schema {ws : Workspace} {n : Nat} {schema : Schema} : Consulted cutShort ws n →
    ws.schema.Change 1 schema → schema.Flat → Consulted cutShort { ws with schema } (n + 1)

/-- Whether something is known of an instance under a stamp. -/
def HasStamp (ws : Workspace) (r : InstanceRef) (st : Stamp) : Prop :=
  (ws.layoutOf r).stamp = some st ∨ (ws.layoutOf r).size.map Prod.fst = some st

/-- **Whether a stamp is of now or before**, so many versions ago at most. -/
structure Dates (ws : Workspace) (n : Nat) (i : Instance) (st : Stamp) : Prop where
  struct : st.structVersion ≤ ws.schema.newestVersion
  version : ∃ k : UInt32, k.toNat ≤ n ∧ st.instanceVersion + k = i.version

/-- **What holds after a history**: what is known of an instance is true, if its stamp is the one of
now, and no stamp is of later. -/
structure Truthful (ws : Workspace) (n : Nat) : Prop where
  made : ∃ m, m ≤ n ∧ ws.schema.Made m
  flat : ws.schema.Flat
  knows : ∀ i, ws.find? i.id = some i → ws.Knows i
  stamps : ∀ i, ws.find? i.id = some i → ∀ st, ws.HasStamp i.ref st → ws.Dates n i st

section

variable {ws ws' : Workspace} {n : Nat} {i : Instance} {st : Stamp}

theorem versionOf_ref (hi : ws.find? i.id = some i) : ws.versionOf i.ref = i.version := by
  rw [versionOf, show ws.find? i.ref.id = some i from hi]

/-- Each instance comes of one that was there. -/
theorem exists_of_find?_modify {f : Instance → Instance} (hf : KeepsPlace f) {id : InstanceId}
    {j : Instance} (hj : (ws.modify id f).find? j.id = some j) :
    ∃ i, ws.find? i.id = some i ∧ j.ref = i.ref ∧ (j = i ∨ j = f i) := by
  rw [find?_modify] at hj
  split at hj
  · rename_i hid
    obtain ⟨i, hi, rfl⟩ := Option.map_eq_some_iff.mp hj
    rw [hf.id] at hid
    refine ⟨i, hid ▸ hi, ?_, .inr rfl⟩
    rw [Instance.ref, Instance.ref, hf.id, hf.location]
  · exact ⟨j, hj, rfl, .inl rfl⟩

/-- **What gets out of date** has nothing more to be than idle. -/
theorem Knows.of_outdated {j : Instance} (h : ws.Knows i)
    (hlayouts : ws'.layouts[j.id]? = ws.layouts[i.id]?) (href : j.ref = i.ref)
    (hnone : ws'.structOf? j.ref = none → ws.structOf? i.ref = none)
    (hstamp : ∀ st, ws'.stampNow? j.ref = some st → ¬ ws.HasStamp i.ref st) : ws'.Knows j := by
  have hlayout : ws'.layoutOf j.ref = ws.layoutOf i.ref := by
    show (ws'.layouts[j.id]?).getD (.unknown j.ref.offset) = (ws.layouts[i.id]?).getD _
    rw [hlayouts, href]
  cases hd : ws.structOf? i.ref with
  | none =>
    unfold Knows at h
    rw [hd] at h
    exact knows_of_unknown (hlayouts.trans h)
  | some d =>
    unfold Knows at h ⊢
    rw [hd] at h
    split
    · rename_i d' hd'
      have hnow : ws'.stampNow? j.ref = some (ws'.stampOf j.ref (ws'.siteOf j).struct) := by
        rw [stampNow?, hd', siteOf_of_structOf? hd']
        rfl
      refine .of_outdated ?_ ?_ (fun hcurrent => ?_) fun hcurrent => ?_
      · exact hlayout ▸ h.idle
      · show (ws'.layoutOf j.ref).entries = #[] → (ws'.layoutOf j.ref).cursor = j.ref.offset
        rw [hlayout, href]
        exact h.empty
      · exact hstamp _ hnow (.inl (hlayout ▸ hcurrent))
      · exact hstamp _ hnow (.inr (hlayout ▸ hcurrent))
    · rename_i hd'
      rw [hnone hd'] at hd
      cases hd

/-- What is found out now is dated now. -/
theorem Dates.now (hmade : ∃ m, m ≤ n ∧ ws.schema.Made m) (hn : n < Schema.versionLimit)
    (hi : ws.find? i.id = some i) (hst : ws.stampNow? i.ref = some st) : ws.Dates n i st := by
  obtain ⟨d, hd, rfl⟩ := Option.map_eq_some_iff.mp hst
  obtain ⟨m, hm, hmade⟩ := hmade
  refine ⟨(hmade.versions (Nat.lt_of_le_of_lt hm hn)).2 _ d hd, 0, Nat.zero_le n, ?_⟩
  rw [← versionOf_ref hi]
  exact UInt32.add_zero _

/-- **An edit of an instance** makes what is known of it out of date. -/
theorem Dates.ne_of_edited (h : ws.Dates n i st) (hn : n + 1 < Schema.versionLimit) :
    st.instanceVersion ≠ i.version + 1 := by
  obtain ⟨k, hk, hversion⟩ := h.version
  intro heq
  have hlt : n + 1 < 2 ^ 32 - 1 := hn
  have hsum := congrArg UInt32.toNat hversion
  rw [heq, UInt32.toNat_add, UInt32.toNat_add] at hsum
  have hone : (1 : UInt32).toNat = 1 := rfl
  have hversion_lt := i.version.toNat_lt
  omega

namespace Truthful

/-- **A question.** -/
theorem turns (h : ws.Truthful n) (hn : n < Schema.versionLimit) (hi : ws.find? i.id = some i)
    (ht : ws.Turns i.ref ws') (hknows : ws'.Knows i) : ws'.Truthful n := by
  have hfind (j : Instance) (hj : ws'.find? j.id = some j) : ws.find? j.id = some j := by
    rw [← ht.find?]
    exact hj
  have hsame (j : Instance) (hj : ws.find? j.id = some j) (hid : i.id = j.id) : j = i := by
    rw [← hid, hi] at hj
    exact (Option.some.inj hj).symm
  have hother (j : Instance) (hid : ¬ i.id = j.id) : ws'.layouts[j.id]? = ws.layouts[j.id]? :=
    ht.others j.id hid
  refine ⟨?_, ?_, fun j hj => ?_, fun j hj st hst => ?_⟩
  · rw [ht.schema]
    exact h.made
  · rw [ht.schema]
    exact h.flat
  · by_cases hid : i.id = j.id
    · rw [hsame j (hfind j hj) hid]
      exact hknows
    · refine (h.knows j (hfind j hj)).of_layouts rfl (hother j hid) (ht.structOf? _) (ht.siteOf j) ?_
      rw [versionOf, ht.find?]
      rfl
  · by_cases hid : i.id = j.id
    · obtain rfl := hsame j (hfind j hj) hid
      have hdates : ws.Dates n j st := by
        rcases hst with hst | hst
        · rcases ht.stamp with hsame | hnow
          · exact h.stamps j hi st (.inl (hsame ▸ hst))
          · exact .now h.made hn hi (hnow ▸ hst)
        · rcases ht.size with hsame | hnow
          · exact h.stamps j hi st (.inr (hsame ▸ hst))
          · exact .now h.made hn hi (hnow ▸ hst)
      exact ⟨by rw [ht.schema]; exact hdates.struct, hdates.version⟩
    · have hlayout : ws'.layoutOf j.ref = ws.layoutOf j.ref := by
        show (ws'.layouts[j.id]?).getD _ = (ws.layouts[j.id]?).getD _
        rw [hother j hid]
      have hdates := h.stamps j (hfind j hj) st (by unfold HasStamp at hst; rwa [hlayout] at hst)
      exact ⟨by rw [ht.schema]; exact hdates.struct, hdates.version⟩

/-- **An edit of an instance.** -/
theorem edit (h : ws.Truthful n) (hn : n + 1 < Schema.versionLimit) {f : Instance → Instance}
    (hf : Instance.Edit f) (id : InstanceId) : (ws.modify id f).Truthful (n + 1) := by
  have hversion (i : Instance) : (f i).version = i.version + 1 := by
    cases hf <;> rfl
  have hplace := hf.keepsPlace
  obtain ⟨m, hm, hmade⟩ := h.made
  refine ⟨⟨m, Nat.le_succ_of_le hm, hmade⟩, h.flat, fun j hj => ?_, fun j hj st hst => ?_⟩
  · obtain ⟨i, hi, href, rfl | rfl⟩ := exists_of_find?_modify hplace hj
    · refine (h.knows j hi).of_layouts rfl rfl rfl rfl ?_
      rw [versionOf_ref hi, versionOf_ref hj]
    · refine (h.knows i hi).of_outdated (congrArg (ws.layouts[InstanceRef.id ·]?) href) href
        (fun hnone => ?_) fun st hnow hst => ?_
      · rw [← href]
        exact hnone
      · refine (h.stamps i hi st hst).ne_of_edited hn ?_
        obtain ⟨d, _, rfl⟩ := Option.map_eq_some_iff.mp hnow
        show (ws.modify id f).versionOf (f i).ref = _
        rw [versionOf_ref hj, hversion]
  · obtain ⟨i, hi, href, hji⟩ := exists_of_find?_modify hplace hj
    have hdates := h.stamps i hi st (href ▸ hst)
    obtain ⟨k, hk, hsum⟩ := hdates.version
    rcases hji with rfl | rfl
    · exact ⟨hdates.struct, k, Nat.le_succ_of_le hk, hsum⟩
    · refine ⟨hdates.struct, k + 1, ?_, ?_⟩
      · have hone : (1 : UInt32).toNat = 1 := rfl
        rw [UInt32.toNat_add]
        omega
      · rw [hversion, ← hsum, UInt32.add_assoc]

/-- **An edit of the schema.** -/
theorem setSchema (h : ws.Truthful n) (hn : n + 1 < Schema.versionLimit) {s : Schema}
    (hchange : ws.schema.Change 1 s) (hflat : s.Flat) :
    Truthful { ws with schema := s } (n + 1) := by
  obtain ⟨m, hm, hmade⟩ := h.made
  have hlt : n + 1 < 2 ^ 32 - 1 := hn
  obtain ⟨hnewest, _⟩ := hmade.versions (Nat.lt_of_le_of_lt hm (Nat.lt_of_succ_lt hn))
  obtain ⟨hnewest', hcases⟩ := hchange.versions (by omega)
  refine ⟨⟨m + 1, Nat.succ_le_succ hm, hmade.change hchange⟩, hflat, fun i hi => ?_,
    fun i hi st hst => ?_⟩
  · by_cases hsame : s.get? i.ref.struct = ws.schema.get? i.ref.struct
    · refine (h.knows i hi).of_layouts rfl rfl hsame ?_ rfl
      unfold siteOf structOf?
      rw [hsame]
    · refine (h.knows i hi).of_outdated rfl rfl hchange.get?_eq_none fun st hnow hst => ?_
      obtain ⟨d, hd, rfl⟩ := Option.map_eq_some_iff.mp hnow
      have hd : s.get? i.ref.struct = some d := hd
      rcases hcases _ d hd with hold | ⟨hnew, _⟩
      · exact hsame (hd.trans hold.symm)
      · exact absurd hnew (UInt32.not_lt.mpr (h.stamps i hi _ hst).struct)
  · obtain ⟨hstruct, k, hk, hversion⟩ := h.stamps i hi st hst
    refine ⟨UInt32.le_trans hstruct ?_, k, Nat.le_succ_of_le hk, hversion⟩
    rw [UInt32.le_iff_toNat_le, hnewest']
    exact Nat.le_succ _

end Truthful

/-- **What is known after a history is true.** -/
theorem Consulted.truthful {cutShort : Bool} (h : ws.Consulted cutShort n)
    (hn : n < Schema.versionLimit) : ws.Truthful n := by
  induction h with
  | @start ws n hmade hflat hunknown =>
    refine ⟨⟨n, Nat.le_refl n, hmade⟩, hflat, fun i _ => knows_of_unknown (hunknown i.id),
      fun i _ st hst => ?_⟩
    have hlayout : ws.layoutOf i.ref = .unknown i.ref.offset := by
      rw [layoutOf, hunknown]
      rfl
    unfold HasStamp at hst
    rw [hlayout] at hst
    rcases hst with hst | hst <;> cases hst
  | @call ws ws' n i q isLazy a _ hi hfresh hrun hspares ih =>
    have hleads := q.leads_of_knows (ih hn).flat hi ((ih hn).knows i hi) isLazy hfresh
    obtain ⟨hturns, _, hspared, hresult⟩ := hleads
    rw [hrun] at hturns hspared hresult
    refine (ih hn).turns hn hi hturns ?_
    by_cases hrefused : ws'.refusals = ws.refusals
    · exact (hresult trivial trivial hrefused).2 a rfl
    · exact hspared trivial (hspares hrefused).2 a rfl
  | @setMaxDepth ws n maxDepth _ ih =>
    refine ⟨(ih hn).made, (ih hn).flat, fun i hi => ?_, fun i hi st hst => ?_⟩
    · exact ((ih hn).knows i hi).of_layouts rfl rfl rfl rfl rfl
    · exact ⟨((ih hn).stamps i hi st hst).struct, ((ih hn).stamps i hi st hst).version⟩
  | @setReason ws n id reason _ ih =>
    have hfind {j : Instance} (hj : (ws.modify id (.setReason reason)).find? j.id = some j) :=
      exists_of_find?_modify (keepsVersion_setReason reason).toKeepsPlace hj
    refine ⟨(ih hn).made, (ih hn).flat, fun j hj => ?_, fun j hj st hst => ?_⟩
    · obtain ⟨i, hi, href, hji⟩ := hfind hj
      refine ((ih hn).knows i hi).of_layouts href (congrArg (ws.layouts[InstanceRef.id ·]?) href)
        (congrArg ws.structOf? href) ?_ ?_
      · rcases hji with rfl | rfl <;> rfl
      · rw [versionOf_ref hi, versionOf_ref hj]
        rcases hji with rfl | rfl <;> rfl
    · obtain ⟨i, hi, href, hji⟩ := hfind hj
      obtain ⟨hstruct, k, hk, hversion⟩ := (ih hn).stamps i hi st (href ▸ hst)
      refine ⟨hstruct, k, hk, hversion.trans ?_⟩
      rcases hji with rfl | rfl <;> rfl
  | edit id _ hf ih => exact (ih (Nat.lt_of_succ_lt hn)).edit hn hf id
  | schema _ hchange hflat ih => exact (ih (Nat.lt_of_succ_lt hn)).setSchema hn hchange hflat

end

end Workspace

end ByteAtlas
