import Mathlib.Data.List.Sort
import ByteAtlas.Resolve.Children
import ByteAtlas.Proofs.Resolve.Sound

/-!
# Workspaces that are alike

Two workspaces are alike if what is resolved in the one comes out the same in the other
(`Likeness.Alike`). Their instances are the same but for the reasons, which no resolution looks at,
and so is what is known about each of them. There may be instances of which different things are
known in the two: `Likeness.loose` tells which, and `Likeness.same` what has to be the same of them
nevertheless.

For each change that a resolution makes it is shown that alike workspaces are alike after it.
-/

namespace ByteAtlas

/-- An instance, whatever the reason for it. -/
def Instance.core (i : Instance) : Instance := i.setReason .user

/-- **Whether all that the answers about an instance depend on is the same**, as far as they depend
on no other instance. -/
structure Workspace.Untouched (r : InstanceRef) (ws ws' : Workspace) : Prop where
  schema : ws'.schema = ws.schema
  files : ws'.files = ws.files
  limits : ws'.limits = ws.limits
  layout : ws'.layoutOf r = ws.layoutOf r
  args : ∀ name, ws'.argOf? r name = ws.argOf? r name
  version : ws'.versionOf r = ws.versionOf r

/-- **In what two workspaces may differ**: in what is known about some instances, as long as
something else is the same of them. -/
structure Likeness where
  loose : InstanceRef → Prop
  same : InstanceRef → Workspace → Workspace → Prop
  congr : ∀ {r : InstanceRef} {a a' b b' : Workspace}, same r a b → a.Untouched r a' →
    b.Untouched r b' → same r a' b'

/-- Nothing different may be known. -/
def Likeness.strict : Likeness where
  loose _ := False
  same _ _ _ := True
  congr _ _ _ := trivial

/-- **Whether two workspaces are alike.** -/
structure Likeness.Alike (k : Likeness) (ws ws' : Workspace) : Prop where
  schema : ws'.schema = ws.schema
  files : ws'.files = ws.files
  limits : ws'.limits = ws.limits
  depth : ws'.depth = ws.depth
  nextId : ws'.directory.nextId = ws.directory.nextId
  directory : ws.directory.WellFormed
  directory' : ws'.directory.WellFormed
  instances : ∀ id, (ws'.find? id).map Instance.core = (ws.find? id).map Instance.core
  layouts : ∀ id, (∀ r, k.loose r → r.id ≠ id) → ws'.layouts[id]? = ws.layouts[id]?
  live : ∀ r, k.loose r → ws.IsLive r
  same : ∀ r, k.loose r → k.same r ws ws'

namespace Instance

variable {i i' : Instance}

/-- Instances with the same core are the same but for the reason. -/
theorem eq_of_core (h : i'.core = i.core) : i' = i.setReason i'.reason := by
  calc i' = i'.core.setReason i'.reason := rfl
    _ = i.core.setReason i'.reason := by rw [h]
    _ = i.setReason i'.reason := rfl

theorem ref_of_core (h : i'.core = i.core) : i'.ref = i.ref := by
  rw [eq_of_core h]
  rfl

end Instance

namespace Workspace.Untouched

variable {r : InstanceRef} {ws : Workspace}

/-- What is known about another instance may change. -/
theorem modifyLayout {other : InstanceRef} (h : other.id ≠ r.id) (f : Layout → Layout) :
    ws.Untouched r (ws.modifyLayout other f) := by
  refine ⟨rfl, rfl, rfl, ?_, fun _ => rfl, rfl⟩
  rw [layoutOf, (sets_modifyLayout ws other f).others r.id h]
  rfl

/-- Instances that keep their arguments and versions. -/
theorem of_instances {directory : Directory}
    (h : ∀ i, ws.find? r.id = some i → ∃ i', directory.find? r.id = some i' ∧ i'.args = i.args ∧
      i'.version = i.version)
    (hr : ws.IsLive r) : ws.Untouched r { ws with directory } := by
  obtain ⟨i, hi, _⟩ := hr
  obtain ⟨i', hi', hargs, hversion⟩ := h i hi
  have hi' : Workspace.find? { ws with directory } r.id = some i' := hi'
  refine ⟨rfl, rfl, rfl, rfl, fun name => ?_, ?_⟩
  · rw [argOf?, hi', argOf?, hi]
    exact congrArg (argValue? name) hargs
  · rw [versionOf, hi', versionOf, hi]
    exact hversion

end Workspace.Untouched

/-- **A new instance** gets the next number, and all others are as they were. -/
theorem Workspace.place_of_free {ws : Workspace} {p : Placement}
    (hfree : ws.directory.findAt? p.location = none) :
    (ws.place p).1 = ⟨⟨ws.directory.nextId, p.location⟩, true⟩ ∧
      (ws.place p).2.directory.nextId = ws.directory.nextId + 1 ∧
      ∀ id, (ws.place p).2.find? id =
        if ws.directory.nextId = id then some (.ofPlacement id p) else ws.find? id := by
  refine ⟨?_, ?_, Directory.find?_add_of_free hfree⟩ <;> rw [Workspace.place, Directory.add, hfree]

/-- What is placed is live, and so is what was live before. -/
theorem Workspace.isLive_place {ws : Workspace} (hw : ws.directory.WellFormed) (p : Placement) :
    (∀ r, ws.IsLive r → (ws.place p).2.IsLive r) ∧ (ws.place p).2.IsLive (ws.place p).1.ref ∧
      ((ws.place p).1.inserted = true → ws.find? (ws.place p).1.ref.id = none) := by
  cases hi : ws.directory.findAt? p.location with
  | some i =>
    have hplace : ws.place p = (⟨i.ref, false⟩, ws.modify i.id (.merge p.reason p.budget)) := by
      rw [Workspace.place, Directory.add_of_taken hi]
      rfl
    have hlive (r : InstanceRef) :
        (ws.modify i.id (.merge p.reason p.budget)).IsLive r ↔ ws.IsLive r :=
      isLive_modify (keepsVersion_merge p.reason p.budget).toKeepsPlace i.id
    rw [hplace]
    exact ⟨fun r hr => (hlive r).mpr hr,
      (hlive i.ref).mpr ⟨i, (hw.findAt?_eq_some.mp hi).1, rfl⟩, fun e => absurd e Bool.false_ne_true⟩
  | none =>
    obtain ⟨hadded, _, hfind⟩ := place_of_free hi
    rw [hadded]
    refine ⟨fun r hr => ?_, ⟨_, by rw [hfind, if_pos rfl], rfl⟩, fun _ => hw.find?_nextId⟩
    obtain ⟨i, hir, hr⟩ := hr
    refine ⟨i, ?_, hr⟩
    rw [hfind, if_neg (Nat.ne_of_gt (hw.lt r.id i hir))]
    exact hir

/-- What is placed, or found there, is where it was to be placed. -/
theorem Workspace.location_place {ws : Workspace} (hw : ws.directory.WellFormed) (p : Placement) :
    (ws.place p).1.ref.location = p.location := by
  cases hi : ws.directory.findAt? p.location with
  | some i =>
    rw [Workspace.place, Directory.add_of_taken hi]
    exact (hw.findAt?_eq_some.mp hi).2
  | none => rw [(place_of_free hi).1]

namespace Likeness.Alike

variable {k : Likeness} {ws ws' : Workspace} {r : InstanceRef}

/-! ## 1. What is the same -/

theorem refl (h : ws.directory.WellFormed) : strict.Alike ws ws where
  schema := rfl
  files := rfl
  limits := rfl
  depth := rfl
  nextId := rfl
  directory := h
  directory' := h
  instances _ := rfl
  layouts _ _ := rfl
  live _ hl := nomatch hl
  same _ hl := nomatch hl

variable (h : k.Alike ws ws')
include h

theorem structOf? (r : InstanceRef) : ws'.structOf? r = ws.structOf? r := by
  rw [Workspace.structOf?, h.schema]
  rfl

theorem fieldOf? (r : InstanceRef) (i : Nat) : ws'.fieldOf? r i = ws.fieldOf? r i := by
  rw [Workspace.fieldOf?, h.structOf?]
  rfl

theorem holdsChildren (r : InstanceRef) (i : Nat) :
    ws'.holdsChildren r i = ws.holdsChildren r i := by
  rw [Workspace.holdsChildren, h.fieldOf?]
  rfl

theorem fileSize (file : FileId) : ws'.fileSize file = ws.fileSize file := by
  unfold Workspace.fileSize Workspace.file?
  rw [h.files]

theorem read (file : FileId) (offset : Int64) (length : Nat) :
    ws'.read file offset length = ws.read file offset length := by
  unfold Workspace.read Workspace.file?
  rw [h.files]

theorem readElements (file : FileId) (f : Field) (t : ScalarType) (count start : Int64) (n : Nat) :
    ∀ (next : Int64) (values : Array Element),
      ws'.readElements file f t count start n next values =
        ws.readElements file f t count start n next values := by
  induction n with
  | zero => exact fun _ _ => rfl
  | succ n ih =>
    intro next values
    unfold Workspace.readElements
    rw [h.read, ih]

/-- An instance of the one is in the other, too. -/
theorem exists_find? {id : InstanceId} {i : Instance} (hi : ws.find? id = some i) :
    ∃ i', ws'.find? id = some i' ∧ i'.core = i.core := by
  have hcore := h.instances id
  rw [hi] at hcore
  exact Option.map_eq_some_iff.mp hcore

theorem find?_eq_none {id : InstanceId} (hi : ws.find? id = none) : ws'.find? id = none := by
  have hcore := h.instances id
  rw [hi] at hcore
  exact Option.map_eq_none_iff.mp hcore

theorem exists_find?' {id : InstanceId} {i' : Instance} (hi : ws'.find? id = some i') :
    ∃ i, ws.find? id = some i ∧ i'.core = i.core := by
  have hcore := h.instances id
  rw [hi] at hcore
  obtain ⟨i, hi, he⟩ := Option.map_eq_some_iff.mp hcore.symm
  exact ⟨i, hi, he.symm⟩

theorem isLive_iff (r : InstanceRef) : ws'.IsLive r ↔ ws.IsLive r := by
  constructor
  · rintro ⟨i', hi', hr⟩
    obtain ⟨i, hi, hcore⟩ := h.exists_find?' hi'
    exact ⟨i, hi, (Instance.ref_of_core hcore).symm.trans hr⟩
  · rintro ⟨i, hi, hr⟩
    obtain ⟨i', hi', hcore⟩ := h.exists_find? hi
    exact ⟨i', hi', (Instance.ref_of_core hcore).trans hr⟩

/-- Something of an instance that does not depend on its reason. -/
theorem apply_find? {β : Type} {g : Option Instance → β}
    (hg : ∀ (i : Instance) (reason : Reason), g (some (i.setReason reason)) = g (some i))
    (id : InstanceId) : g (ws'.find? id) = g (ws.find? id) := by
  cases hi : ws.find? id with
  | none => rw [h.find?_eq_none hi]
  | some i =>
    obtain ⟨i', hi', hcore⟩ := h.exists_find? hi
    rw [hi', Instance.eq_of_core hcore, hg]

theorem argOf? (r : InstanceRef) (name : String) : ws'.argOf? r name = ws.argOf? r name := by
  rw [Workspace.argOf?_eq, Workspace.argOf?_eq]
  exact h.apply_find? (g := fun i => i.bind fun i => i.arg? name) (fun _ _ => rfl) r.id

theorem versionOf (r : InstanceRef) : ws'.versionOf r = ws.versionOf r := by
  rw [Workspace.versionOf_eq, Workspace.versionOf_eq]
  exact h.apply_find? (g := fun i => i.elim initialVersion Instance.version) (fun _ _ => rfl) r.id

theorem stampOf (r : InstanceRef) (d : StructDef) : ws'.stampOf r d = ws.stampOf r d := by
  rw [Workspace.stampOf, h.versionOf]
  rfl

/-- A live instance that is not loose is told apart from those that are by its number. -/
theorem ne_of_loose (hr : ws.IsLive r) (hn : ¬ k.loose r) (r' : InstanceRef) (hl : k.loose r') :
    r'.id ≠ r.id := fun he => hn ((h.live r' hl).eq_of_id hr he ▸ hl)

theorem layoutOf (hr : ws.IsLive r) (hn : ¬ k.loose r) : ws'.layoutOf r = ws.layoutOf r := by
  rw [Workspace.layoutOf, h.layouts r.id (h.ne_of_loose hr hn), Workspace.layoutOf]

theorem entryOf? (hr : ws.IsLive r) (hn : ¬ k.loose r) (i : Nat) :
    ws'.entryOf? r i = ws.entryOf? r i := by
  rw [Workspace.entryOf?, h.layoutOf hr hn, Workspace.entryOf?]

/-- The instances of a struct are found in the same order. -/
theorem instancesOf (struct : String) (file : Option FileId) :
    (ws'.directory.instancesOf struct file).map Instance.ref =
      (ws.directory.instancesOf struct file).map Instance.ref := by
  have hsorted {ws : Workspace} (hw : ws.directory.WellFormed) :
      ((ws.directory.instancesOf struct file).map Instance.ref).Pairwise fun a b => a.id < b.id :=
    List.pairwise_map.mpr (hw.pairwise_toList.filter _)
  have hmem {ws : Workspace} (hw : ws.directory.WellFormed) (r : InstanceRef) :
      r ∈ (ws.directory.instancesOf struct file).map Instance.ref ↔
        ws.IsLive r ∧ (r.struct == struct && file.all (r.file == ·)) = true := by
    rw [List.mem_map]
    constructor
    · rintro ⟨i, hi, rfl⟩
      obtain ⟨hi, hf⟩ := List.mem_filter.mp hi
      exact ⟨⟨i, hw.mem_toList.mp hi, rfl⟩, hf⟩
    · rintro ⟨⟨i, hi, rfl⟩, hf⟩
      exact ⟨i, List.mem_filter.mpr ⟨hw.mem_toList.mpr hi, hf⟩, rfl⟩
  refine List.Pairwise.eq_of_mem_iff (hsorted h.directory') (hsorted h.directory) fun r => ?_
  rw [hmem h.directory', hmem h.directory, h.isLive_iff]

/-! ## 2. Changes -/

/-- Counters may be set to anything, but as many frames have to be open. -/
theorem count {depth depth' : Nat} (hdepth : depth' = depth)
    (refusals refusals' limitHits limitHits' : Nat) :
    k.Alike { ws with depth, refusals, limitHits }
      { ws' with depth := depth', refusals := refusals', limitHits := limitHits' } where
  schema := h.schema
  files := h.files
  limits := h.limits
  depth := hdepth
  nextId := h.nextId
  directory := h.directory
  directory' := h.directory'
  instances := h.instances
  layouts := h.layouts
  live := h.live
  same r hl := k.congr (h.same r hl) ⟨rfl, rfl, rfl, rfl, fun _ => rfl, rfl⟩
    ⟨rfl, rfl, rfl, rfl, fun _ => rfl, rfl⟩

/-- **The same change of what is known.** -/
theorem modifyLayout (hr : ws.IsLive r) (hn : ¬ k.loose r) (f : Layout → Layout) :
    k.Alike (ws.modifyLayout r f) (ws'.modifyLayout r f) where
  schema := h.schema
  files := h.files
  limits := h.limits
  depth := h.depth
  nextId := h.nextId
  directory := h.directory
  directory' := h.directory'
  instances := h.instances
  layouts id hid := by
    show (ws'.layouts.alter r.id _)[id]? = (ws.layouts.alter r.id _)[id]?
    rw [Std.TreeMap.getElem?_alter, Std.TreeMap.getElem?_alter, h.layouts id hid]
    split
    · rw [h.layouts r.id (h.ne_of_loose hr hn)]
    · rfl
  live := h.live
  same r' hl := by
    have hne : r.id ≠ r'.id := (h.ne_of_loose hr hn r' hl).symm
    exact k.congr (h.same r' hl) (.modifyLayout hne f) (.modifyLayout hne f)

/-- **The same change of an instance**, which for a loose one keeps what its answers depend on. -/
theorem modify {id : InstanceId} {f f' : Instance → Instance} (hf : Workspace.KeepsPlace f)
    (hf' : Workspace.KeepsPlace f') (hcore : ∀ i i', i'.core = i.core → (f' i').core = (f i).core)
    (hkeep : ∀ r, k.loose r → r.id = id → ∀ i, ((f i).args = i.args ∧ (f i).version = i.version) ∧
      (f' i).args = i.args ∧ (f' i).version = i.version) :
    k.Alike (ws.modify id f) (ws'.modify id f') where
  schema := h.schema
  files := h.files
  limits := h.limits
  depth := h.depth
  nextId := h.nextId
  directory := h.directory.modify id hf.id hf.location
  directory' := h.directory'.modify id hf'.id hf'.location
  instances other := by
    rw [Workspace.find?_modify, Workspace.find?_modify]
    split
    · cases hi : ws.find? id with
      | none =>
        rw [h.find?_eq_none hi]
        rfl
      | some i =>
        obtain ⟨i', hi', hi'core⟩ := h.exists_find? hi
        rw [hi']
        exact congrArg some (hcore i i' hi'core)
    · exact h.instances other
  layouts := h.layouts
  live r hl := (Workspace.isLive_modify hf id).mpr (h.live r hl)
  same r hl := by
    have huntouched {ws : Workspace} {g : Instance → Instance} (hr : ws.IsLive r)
        (hg : r.id = id → ∀ i, (g i).args = i.args ∧ (g i).version = i.version) :
        ws.Untouched r (ws.modify id g) := by
      refine .of_instances (fun i hi => ?_) hr
      rw [Directory.find?_modify]
      split
      · rename_i he
        rw [he, show ws.directory.find? r.id = some i from hi]
        exact ⟨g i, rfl, hg he.symm i⟩
      · exact ⟨i, hi, rfl, rfl⟩
    exact k.congr (h.same r hl) (huntouched (h.live r hl) fun he i => (hkeep r hl he i).1)
      (huntouched ((h.isLive_iff r).mpr (h.live r hl)) fun he i => (hkeep r hl he i).2)

/-- The same location is free, or taken by the same instance. -/
theorem findAt? (l : Location) :
    (ws'.directory.findAt? l).map Instance.core = (ws.directory.findAt? l).map Instance.core := by
  cases hi : ws.directory.findAt? l with
  | none =>
    cases hi' : ws'.directory.findAt? l with
    | none => rfl
    | some i' =>
      obtain ⟨hi', hl⟩ := h.directory'.findAt?_eq_some.mp hi'
      obtain ⟨i, hfound, hcore⟩ := h.exists_find?' hi'
      have href := Instance.ref_of_core hcore
      have hsome := h.directory.findAt?_eq_some.mpr
        ⟨show ws.directory.find? i.id = some i by
          rw [← show i'.id = i.id from congrArg InstanceRef.id href]
          exact hfound,
        (congrArg InstanceRef.location href).symm.trans hl⟩
      rw [hi] at hsome
      cases hsome
  | some i =>
    obtain ⟨hi, hl⟩ := h.directory.findAt?_eq_some.mp hi
    obtain ⟨i', hfound, hcore⟩ := h.exists_find? hi
    have href := Instance.ref_of_core hcore
    rw [h.directory'.findAt?_eq_some.mpr
      ⟨show ws'.directory.find? i'.id = some i' by
        rw [show i'.id = i.id from congrArg InstanceRef.id href]
        exact hfound,
      (congrArg InstanceRef.location href).trans hl⟩]
    exact congrArg some hcore

/-- **Placing the same instance**, for whatever reasons. -/
theorem place {p p' : Placement} (hp : p' = { p with reason := p'.reason }) :
    (ws'.place p').1 = (ws.place p).1 ∧ k.Alike (ws.place p).2 (ws'.place p').2 := by
  have hlocation : p'.location = p.location := congrArg (·.location) hp
  have hbudget : p'.budget = p.budget := congrArg (·.budget) hp
  have hfound := h.findAt? p.location
  cases hi : ws.directory.findAt? p.location with
  | some i =>
    rw [hi] at hfound
    obtain ⟨i', hi', hcore⟩ := Option.map_eq_some_iff.mp hfound
    have href : i'.ref = i.ref := Instance.ref_of_core hcore
    have hplace : ws.place p = (⟨i.ref, false⟩, ws.modify i.id (.merge p.reason p.budget)) := by
      rw [Workspace.place, Directory.add_of_taken hi]
      rfl
    have hplace' : ws'.place p' =
        (⟨i'.ref, false⟩, ws'.modify i.id (.merge p'.reason p'.budget)) := by
      rw [← hlocation] at hi'
      rw [Workspace.place, Directory.add_of_taken hi',
        show i.id = i'.id from (congrArg InstanceRef.id href).symm]
      rfl
    rw [hplace, hplace', href]
    refine ⟨rfl, h.modify (Workspace.keepsVersion_merge _ _).toKeepsPlace
      (Workspace.keepsVersion_merge _ _).toKeepsPlace (fun j j' hj => ?_)
      fun _ _ _ _ => ⟨⟨rfl, rfl⟩, rfl, rfl⟩⟩
    rw [Instance.eq_of_core hj, hbudget]
    rfl
  | none =>
    rw [hi] at hfound
    have hfree' : ws'.directory.findAt? p'.location = none := by
      rw [hlocation]
      exact Option.map_eq_none_iff.mp hfound
    obtain ⟨hadded, hnext, hfind⟩ := Workspace.place_of_free hi
    obtain ⟨hadded', hnext', hfind'⟩ := Workspace.place_of_free hfree'
    have huntouched {ws : Workspace} {p : Placement} (hw : ws.directory.WellFormed)
        (hfree : ws.directory.findAt? p.location = none) {r : InstanceRef} (hr : ws.IsLive r) :
        ws.Untouched r (ws.place p).2 := by
      refine .of_instances (fun i hi => ⟨i, ?_, rfl, rfl⟩) hr
      exact ((Workspace.place_of_free hfree).2.2 r.id).trans
        ((if_neg (Nat.ne_of_gt (hw.lt r.id i hi))).trans hi)
    refine ⟨?_, ?_⟩
    · rw [hadded, hadded', hlocation, h.nextId]
    · refine ⟨h.schema, h.files, h.limits, h.depth, ?_, h.directory.add p, h.directory'.add p', ?_,
        h.layouts,
        fun r hl => (Workspace.isLive_place h.directory p).1 r (h.live r hl), fun r hl => ?_⟩
      · rw [hnext, hnext', h.nextId]
      · intro id
        rw [hfind, hfind', h.nextId]
        split
        · rw [hp]
          rfl
        · exact h.instances id
      · exact k.congr (h.same r hl) (huntouched h.directory hi (h.live r hl))
          (huntouched h.directory' hfree' ((h.isLive_iff r).mpr (h.live r hl)))

end Likeness.Alike

end ByteAtlas
