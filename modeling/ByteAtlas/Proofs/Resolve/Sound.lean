import ByteAtlas.Resolve.Basic
import ByteAtlas.Proofs.Directory.WellFormed
import ByteAtlas.Proofs.Resolve.Layout
import ByteAtlas.Proofs.Schema.Versions

/-!
# Sound workspaces

`Workspace.Sound` is what holds of a workspace at every moment of a resolution: its directory is
well formed, what is known of an instance fits its definition as far as it is up to date, and
elements are not cut to a negative limit. `Workspace.Grows` is what a resolution does to a
workspace: nothing is taken away from what it holds and knows. For each change that a resolution
makes it is shown that both hold of it.
-/

namespace ByteAtlas

/-! ## 1. Sound workspaces -/

namespace Workspace

/-- Whether a reference leads to a live instance. -/
def IsLive (ws : Workspace) (r : InstanceRef) : Prop :=
  ∃ i, ws.find? r.id = some i ∧ i.ref = r

/-- The stamp of what is computed for an instance now, if its struct is defined. -/
def stampNow? (ws : Workspace) (r : InstanceRef) : Option Stamp :=
  (ws.structOf? r).map (ws.stampOf r)

/-- **What holds of a workspace at every moment of a resolution.** That a layout fits depends on
whether no version has been given out twice, which is taken as given: `once`. -/
structure Sound (once : Prop) (ws : Workspace) : Prop where
  directory : ws.directory.WellFormed
  limit : 0 ≤ ws.limits.maxElements
  known : ∀ id l, ws.layouts[id]? = some l → ws.find? id ≠ none
  /-- What was computed from the present version of a definition fits it. -/
  fits : once → ∀ r d st, ws.IsLive r → ws.structOf? r = some d →
    (ws.layoutOf r).stamp = some st → st.structVersion = d.version →
    (ws.layoutOf r).Fits d r.offset
  measuring : ∀ r, ws.IsLive r → (ws.layoutOf r).measuring ≠ none →
    ∃ d, ws.structOf? r = some d ∧ (ws.layoutOf r).stamp = some (ws.stampOf r d)
  versions : once → ∀ name d, ws.schema.get? name = some d → d.version ≤ ws.schema.newestVersion
  stamps : once → ∀ r st, ws.IsLive r → (ws.layoutOf r).stamp = some st →
    st.structVersion ≤ ws.schema.newestVersion
  /-- A size that was computed from the present version of a definition is the one that the
  definition tells, if it tells one. -/
  sizes : once → ∀ r st n, ws.IsLive r → (ws.layoutOf r).size = some (st, n) →
    st.structVersion ≤ ws.schema.newestVersion ∧ ∀ d, ws.structOf? r = some d →
      st.structVersion = d.version → d.isPacked = false → d.sizeSource = none → n = d.size

/-- Whether nothing has been edited since the layouts were begun. -/
def Settled (ws : Workspace) : Prop :=
  ∀ r d, ws.IsLive r → ws.structOf? r = some d →
    (ws.layoutOf r).Settled d r.offset (ws.stampOf r d)

/-- Whether an instance is the same but for its reason and its budget. -/
def SameInstance (i i' : Instance) : Prop :=
  { i' with reason := i.reason, budget := i.budget } = i

/-- What a resolution does to all of a workspace but the layouts: it adds instances at the end of
the directory, and changes the reasons and budgets of others. -/
structure Keeps (ws ws' : Workspace) : Prop where
  schema : ws'.schema = ws.schema
  files : ws'.files = ws.files
  limits : ws'.limits = ws.limits
  depth : ws'.depth = ws.depth
  refusals : ws.refusals ≤ ws'.refusals
  nextId : ws.directory.nextId ≤ ws'.directory.nextId
  instances : ∀ id i, ws.find? id = some i → ∃ i', ws'.find? id = some i' ∧ SameInstance i i'
  added : ∀ id i, ws'.find? id = some i → ws.find? id = none → ws.directory.nextId ≤ id

/-- **What a resolution does to a workspace**: it also adds to what is known. -/
structure Grows (ws ws' : Workspace) : Prop extends Keeps ws ws' where
  layouts : ∀ r, ws.IsLive r →
    Layout.Grows (ws.stampNow? r) (ws.structOf? r) (ws.layoutOf r) (ws'.layoutOf r)
  idle : ∀ r, ws'.IsLive r → ¬ ws.IsLive r → (ws'.layoutOf r).measuring = none
  settled : ws.Settled → ws'.Settled

section

variable {once : Prop} {ws ws' : Workspace} {r : InstanceRef}

theorem SameInstance.refl (i : Instance) : SameInstance i i := rfl

theorem SameInstance.trans {a b c : Instance} (hab : SameInstance a b) (hbc : SameInstance b c) :
    SameInstance a c := by
  unfold SameInstance at hab hbc ⊢
  rw [← hab, ← hbc]

theorem SameInstance.ref {i i' : Instance} (h : SameInstance i i') : i'.ref = i.ref := by
  unfold SameInstance at h
  rw [← h]
  rfl

theorem SameInstance.struct {i i' : Instance} (h : SameInstance i i') : i'.struct = i.struct :=
  congrArg InstanceRef.struct h.ref

theorem SameInstance.args {i i' : Instance} (h : SameInstance i i') : i'.args = i.args := by
  unfold SameInstance at h
  rw [← h]

theorem SameInstance.version {i i' : Instance} (h : SameInstance i i') :
    i'.version = i.version := by
  unfold SameInstance at h
  rw [← h]

theorem SameInstance.sizeOverride {i i' : Instance} (h : SameInstance i i') :
    i'.sizeOverride = i.sizeOverride := by
  unfold SameInstance at h
  rw [← h]

namespace Keeps

theorem isLive (h : Keeps ws ws') (hr : ws.IsLive r) : ws'.IsLive r := by
  obtain ⟨i, hi, hir⟩ := hr
  obtain ⟨i', hi', hsame⟩ := h.instances r.id i hi
  exact ⟨i', hi', hsame.ref.trans hir⟩

theorem structOf? (h : Keeps ws ws') (r : InstanceRef) : ws'.structOf? r = ws.structOf? r := by
  rw [Workspace.structOf?, h.schema]
  rfl

theorem fieldOf? (h : Keeps ws ws') (r : InstanceRef) (i : Nat) :
    ws'.fieldOf? r i = ws.fieldOf? r i := by
  rw [Workspace.fieldOf?, h.structOf?]
  rfl

theorem versionOf (h : Keeps ws ws') (hr : ws.IsLive r) : ws'.versionOf r = ws.versionOf r := by
  obtain ⟨i, hi, _⟩ := hr
  obtain ⟨i', hi', hsame⟩ := h.instances r.id i hi
  rw [Workspace.versionOf, hi', Workspace.versionOf, hi]
  exact hsame.version

theorem stampOf (h : Keeps ws ws') (hr : ws.IsLive r) (d : StructDef) :
    ws'.stampOf r d = ws.stampOf r d := by
  rw [Workspace.stampOf, h.versionOf hr]
  rfl

theorem stampNow? (h : Keeps ws ws') (hr : ws.IsLive r) : ws'.stampNow? r = ws.stampNow? r := by
  rw [Workspace.stampNow?, h.structOf?, Workspace.stampNow?]
  cases ws.structOf? r with
  | none => rfl
  | some d => exact congrArg some (h.stampOf hr d)

/-- Arguments stay bound. -/
theorem argOf? (h : Keeps ws ws') (hr : ws.IsLive r) (name : String) :
    ws'.argOf? r name = ws.argOf? r name := by
  obtain ⟨i, hi, _⟩ := hr
  obtain ⟨i', hi', hsame⟩ := h.instances r.id i hi
  rw [Workspace.argOf?, hi', Workspace.argOf?, hi, ← hsame]
  rfl

theorem refl (ws : Workspace) : Keeps ws ws where
  schema := rfl
  files := rfl
  limits := rfl
  depth := rfl
  refusals := Nat.le_refl _
  nextId := Nat.le_refl _
  instances _ i hi := ⟨i, hi, .refl i⟩
  added _ _ hi hnone := by
    rw [hi] at hnone
    cases hnone

theorem trans {a b c : Workspace} (hab : Keeps a b) (hbc : Keeps b c) : Keeps a c where
  schema := hbc.schema.trans hab.schema
  files := hbc.files.trans hab.files
  limits := hbc.limits.trans hab.limits
  depth := hbc.depth.trans hab.depth
  refusals := Nat.le_trans hab.refusals hbc.refusals
  nextId := Nat.le_trans hab.nextId hbc.nextId
  instances id i hi := by
    obtain ⟨i₁, hi₁, h₁⟩ := hab.instances id i hi
    obtain ⟨i₂, hi₂, h₂⟩ := hbc.instances id i₁ hi₁
    exact ⟨i₂, hi₂, h₁.trans h₂⟩
  added id i hi hnone := by
    cases hb : b.find? id with
    | none => exact Nat.le_trans hab.nextId (hbc.added id i hi hb)
    | some j => exact hab.added id j hb hnone

end Keeps

theorem Grows.refl (ws : Workspace) : Grows ws ws where
  toKeeps := .refl ws
  layouts _ _ := .refl _ _ _
  idle _ hr hnot := absurd hr hnot
  settled h := h

theorem Grows.trans {a b c : Workspace} (hab : Grows a b) (hbc : Grows b c) : Grows a c where
  toKeeps := hab.toKeeps.trans hbc.toKeeps
  layouts r hr := by
    have hgrow := hbc.layouts r (hab.isLive hr)
    rw [hab.stampNow? hr, hab.structOf?] at hgrow
    exact (hab.layouts r hr).trans hgrow
  idle r hr hnot := by
    by_cases hb : b.IsLive r
    · rw [(hbc.layouts r hb).measuring]
      exact hab.idle r hb hnot
    · exact hbc.idle r hr hb
  settled h := hbc.settled (hab.settled h)

theorem IsLive.eq_of_id {r' : InstanceRef} (hr : ws.IsLive r) (hr' : ws.IsLive r')
    (h : r.id = r'.id) : r = r' := by
  obtain ⟨i, hi, hir⟩ := hr
  obtain ⟨i', hi', hir'⟩ := hr'
  rw [h, hi'] at hi
  cases hi
  rw [← hir, hir']

/-- What is in the directory is live. -/
theorem Sound.isLive_of_find? (h : Sound once ws) {id : InstanceId} {i : Instance}
    (hi : ws.find? id = some i) : ws.IsLive i.ref := by
  have hid := h.directory.id_eq id i hi
  exact ⟨i, by rw [← hi, ← hid]; rfl, rfl⟩

/-- An instance of which nothing is known. -/
theorem layoutOf_eq_unknown (h : ws.layouts[r.id]? = none) : ws.layoutOf r = .unknown r.offset := by
  rw [layoutOf, h]
  rfl

/-! ## 2. Changes of a layout -/

/-- **Whether a workspace is another one with the layout of an instance replaced.** -/
structure Sets (ws : Workspace) (r : InstanceRef) (l : Layout) (ws' : Workspace) : Prop where
  rest : ∃ layouts, ws' = { ws with layouts }
  others : ∀ id, r.id ≠ id → ws'.layouts[id]? = ws.layouts[id]?
  layoutOf : ws'.layoutOf r = l

theorem sets_modifyLayout (ws : Workspace) (r : InstanceRef) (f : Layout → Layout) :
    ws.Sets r (f (ws.layoutOf r)) (ws.modifyLayout r f) := by
  refine ⟨⟨_, rfl⟩, fun id h => ?_, ?_⟩
  · show (ws.layouts.alter r.id _)[id]? = _
    rw [Std.TreeMap.getElem?_alter]
    simp [h]
  · show ((ws.layouts.alter r.id _)[r.id]?).getD _ = _
    rw [Std.TreeMap.getElem?_alter]
    simp [layoutOf]

/-- Of two replacements the last one counts. -/
theorem Sets.modifyLayout {l : Layout} (h : ws.Sets r l ws') (f : Layout → Layout) :
    ws.Sets r (f l) (ws'.modifyLayout r f) := by
  obtain ⟨⟨layouts, rfl⟩, hothers, hlayout⟩ := h
  have hset := sets_modifyLayout { ws with layouts } r f
  rw [hlayout] at hset
  exact ⟨⟨_, rfl⟩, fun id hid => (hset.others id hid).trans (hothers id hid), hset.layoutOf⟩

theorem layoutOf_modifyLayout (ws : Workspace) (r : InstanceRef) (f : Layout → Layout) :
    (ws.modifyLayout r f).layoutOf r = f (ws.layoutOf r) :=
  (sets_modifyLayout ws r f).layoutOf

theorem entryOf?_modifyEntry {i : Nat} {f : FieldEntry → FieldEntry} :
    (ws.modifyLayout r (·.modifyEntry i f)).entryOf? r i = (ws.entryOf? r i).map f := by
  rw [Workspace.entryOf?, layoutOf_modifyLayout]
  show ((ws.layoutOf r).entries.modify i f)[i]? = _
  rw [Array.getElem?_modify, if_pos rfl]
  rfl

theorem entryOf?_modifyEntry_of_some {i : Nat} {e : FieldEntry} (he : ws.entryOf? r i = some e)
    (f : FieldEntry → FieldEntry) :
    (ws.modifyLayout r (·.modifyEntry i f)).entryOf? r i = some (f e) := by
  rw [entryOf?_modifyEntry, he]
  rfl

/-- Of two live instances one is changed, or they are the same. -/
theorem Sets.layoutOf_cases {l : Layout} (h : ws.Sets r l ws') {r' : InstanceRef}
    (hr : ws.IsLive r) (hr' : ws.IsLive r') :
    (r' = r ∧ ws'.layoutOf r' = l) ∨ (r' ≠ r ∧ ws'.layoutOf r' = ws.layoutOf r') := by
  by_cases hid : r.id = r'.id
  · have he := hr.eq_of_id hr' hid
    subst he
    exact .inl ⟨rfl, h.layoutOf⟩
  · refine .inr ⟨fun e => hid (e ▸ rfl), ?_⟩
    rw [Workspace.layoutOf, h.others r'.id hid, Workspace.layoutOf]

/-- **Whether a layout may be put in place of one**, in a sound workspace. -/
structure Admits (once : Prop) (ws : Workspace) (r : InstanceRef) (l : Layout) : Prop where
  fits : once → ∀ d st, ws.structOf? r = some d → l.stamp = some st → st.structVersion = d.version →
    l.Fits d r.offset
  measuring : l.measuring ≠ none →
    ∃ d, ws.structOf? r = some d ∧ l.stamp = some (ws.stampOf r d)
  stamps : once → ∀ st, l.stamp = some st → st.structVersion ≤ ws.schema.newestVersion
  sizes : once → ∀ st n, l.size = some (st, n) →
    st.structVersion ≤ ws.schema.newestVersion ∧ ∀ d, ws.structOf? r = some d →
      st.structVersion = d.version → d.isPacked = false → d.sizeSource = none → n = d.size

theorem Sound.admits (h : Sound once ws) (hr : ws.IsLive r) :
    ws.Admits once r (ws.layoutOf r) :=
  ⟨fun ho d st => h.fits ho r d st hr, h.measuring r hr, fun ho st => h.stamps ho r st hr,
    fun ho st n => h.sizes ho r st n hr⟩

/-- **Replacing a layout** by an admissible one. -/
theorem Sound.set (h : Sound once ws) (hr : ws.IsLive r) {l : Layout} (hset : ws.Sets r l ws')
    (hl : ws.Admits once r l) : Sound once ws' := by
  have hcases {r' : InstanceRef} (hr' : ws.IsLive r') := hset.layoutOf_cases hr hr'
  obtain ⟨⟨layouts, rfl⟩, hothers, _⟩ := hset
  refine ⟨h.directory, h.limit, ?_, ?_, ?_, h.versions, ?_, ?_⟩
  · intro id l' hl'
    by_cases hid : r.id = id
    · obtain ⟨i, hi, _⟩ := hr
      rw [← hid]
      intro hnone
      rw [show ws.find? r.id = none from hnone] at hi
      cases hi
    · rw [hothers id hid] at hl'
      exact h.known id l' hl'
  · intro ho r' d st hr' hd
    rcases hcases hr' with ⟨rfl, he⟩ | ⟨_, he⟩ <;> rw [he]
    · exact hl.fits ho d st hd
    · exact h.fits ho r' d st hr' hd
  · intro r' hr'
    rcases hcases hr' with ⟨rfl, he⟩ | ⟨_, he⟩ <;> rw [he]
    · exact hl.measuring
    · exact h.measuring r' hr'
  · intro ho r' st hr'
    rcases hcases hr' with ⟨rfl, he⟩ | ⟨_, he⟩ <;> rw [he]
    · exact hl.stamps ho st
    · exact h.stamps ho r' st hr'
  · intro ho r' st n hr'
    rcases hcases hr' with ⟨rfl, he⟩ | ⟨_, he⟩ <;> rw [he]
    · exact hl.sizes ho st n
    · exact h.sizes ho r' st n hr'

theorem Sound.modifyLayout (h : Sound once ws) (hr : ws.IsLive r) {f : Layout → Layout}
    (hf : ws.Admits once r (f (ws.layoutOf r))) : Sound once (ws.modifyLayout r f) :=
  h.set hr (sets_modifyLayout ws r f) hf

theorem Sets.keeps {l : Layout} (h : ws.Sets r l ws') : Keeps ws ws' := by
  obtain ⟨⟨layouts, rfl⟩, _, _⟩ := h
  exact { Keeps.refl ws with }

theorem Settled.set (h : ws.Settled) (hr : ws.IsLive r) {l : Layout} (hset : ws.Sets r l ws')
    (hl : ∀ d, ws.structOf? r = some d → l.Settled d r.offset (ws.stampOf r d)) : ws'.Settled := by
  have hcases {r' : InstanceRef} (hr' : ws.IsLive r') := hset.layoutOf_cases hr hr'
  obtain ⟨⟨layouts, rfl⟩, _, _⟩ := hset
  intro r' d hr' hd
  rcases hcases hr' with ⟨rfl, he⟩ | ⟨_, he⟩ <;> rw [he]
  · exact hl d hd
  · exact h r' d hr' hd

/-- **Whether the layout of an instance may become another one**, seen from an earlier workspace. -/
structure Extends (start ws : Workspace) (r : InstanceRef) (l : Layout) : Prop where
  grows : start.IsLive r →
    Layout.Grows (start.stampNow? r) (start.structOf? r) (start.layoutOf r) l
  idle : ¬ start.IsLive r → l.measuring = none
  settled : start.Settled → ∀ d, ws.structOf? r = some d → l.Settled d r.offset (ws.stampOf r d)

theorem Grows.extends {start : Workspace} (h : Grows start ws) (hr : ws.IsLive r) :
    start.Extends ws r (ws.layoutOf r) :=
  ⟨h.layouts r, h.idle r hr, fun hs d hd => h.settled hs r d hr hd⟩

theorem Grows.modifyLayout {start : Workspace} (h : Grows start ws) (hr : ws.IsLive r)
    {f : Layout → Layout} (hf : start.Extends ws r (f (ws.layoutOf r))) :
    Grows start (ws.modifyLayout r f) := by
  have hset := sets_modifyLayout ws r f
  refine ⟨h.toKeeps.trans hset.keeps, ?_, ?_, ?_⟩
  · intro r' hr'
    rcases hset.layoutOf_cases hr (h.isLive hr') with ⟨rfl, he⟩ | ⟨_, he⟩ <;> rw [he]
    · exact hf.grows hr'
    · exact h.layouts r' hr'
  · intro r' hr' hnot
    rcases hset.layoutOf_cases hr hr' with ⟨rfl, he⟩ | ⟨_, he⟩ <;> rw [he]
    · exact hf.idle hnot
    · exact h.idle r' hr' hnot
  · exact fun hs => (h.settled hs).set hr hset (hf.settled hs)

/-! ### Rearranging the layout of one instance -/

/-- What a resolution does to a workspace, the layout of one instance left out. -/
structure GrowsBut (r : InstanceRef) (ws ws' : Workspace) : Prop extends Keeps ws ws' where
  layouts : ∀ r', r' ≠ r → ws.IsLive r' →
    Layout.Grows (ws.stampNow? r') (ws.structOf? r') (ws.layoutOf r') (ws'.layoutOf r')
  idle : ∀ r', r' ≠ r → ws'.IsLive r' → ¬ ws.IsLive r' → (ws'.layoutOf r').measuring = none
  settled : ws.Settled → ws'.Settled

theorem Grows.but (h : Grows ws ws') (r : InstanceRef) : GrowsBut r ws ws' :=
  ⟨h.toKeeps, fun r' _ => h.layouts r', fun r' _ => h.idle r', h.settled⟩

theorem GrowsBut.trans {a b c : Workspace} (hab : GrowsBut r a b) (hbc : GrowsBut r b c) :
    GrowsBut r a c where
  toKeeps := hab.toKeeps.trans hbc.toKeeps
  layouts r' hne hr := by
    have hgrow := hbc.layouts r' hne (hab.isLive hr)
    rw [hab.stampNow? hr, hab.structOf?] at hgrow
    exact (hab.layouts r' hne hr).trans hgrow
  idle r' hne hr hnot := by
    by_cases hb : b.IsLive r'
    · rw [(hbc.layouts r' hne hb).measuring]
      exact hab.idle r' hne hb hnot
    · exact hbc.idle r' hne hr hb
  settled h := hbc.settled (hab.settled h)

theorem Sets.growsBut {l : Layout} (h : ws.Sets r l ws') (hr : ws.IsLive r)
    (hl : ws.Settled → ∀ d, ws.structOf? r = some d → l.Settled d r.offset (ws.stampOf r d)) :
    GrowsBut r ws ws' where
  toKeeps := h.keeps
  layouts r' hne hr' := by
    rcases h.layoutOf_cases hr hr' with ⟨he, _⟩ | ⟨_, he⟩
    · exact absurd he hne
    · rw [he]
      exact .refl _ _ _
  idle r' _ hr' hnot := by
    obtain ⟨⟨layouts, rfl⟩, _, _⟩ := h
    exact absurd hr' hnot
  settled hs := hs.set hr h (hl hs)

/-- If the layout of the instance has grown as well, all of the workspace has. -/
theorem GrowsBut.grows (h : GrowsBut r ws ws') (hr : ws.IsLive r)
    (hl : Layout.Grows (ws.stampNow? r) (ws.structOf? r) (ws.layoutOf r) (ws'.layoutOf r)) :
    Grows ws ws' where
  toKeeps := h.toKeeps
  layouts r' hr' := by
    by_cases he : r' = r
    · rw [he]
      exact hl
    · exact h.layouts r' he hr'
  idle r' hr' hnot := h.idle r' (fun he => hnot (he ▸ hr)) hr' hnot
  settled := h.settled

/-! ## 3. Changes of the directory -/

/-- Whether a change leaves alone what an instance is and where it is. -/
structure KeepsPlace (f : Instance → Instance) : Prop where
  id : ∀ i, (f i).id = i.id
  location : ∀ i, (f i).location = i.location

/-- Whether it leaves alone the version as well. -/
structure KeepsVersion (f : Instance → Instance) : Prop extends KeepsPlace f where
  version : ∀ i, (f i).version = i.version

theorem keepsVersion_merge (reason : Reason) (budget : Budget) :
    KeepsVersion (Instance.merge reason budget) :=
  ⟨⟨fun _ => rfl, fun _ => rfl⟩, fun _ => rfl⟩

theorem keepsVersion_bindArgs (args : List Arg) : KeepsVersion (Instance.bindArgs args) :=
  ⟨⟨fun _ => rfl, fun _ => rfl⟩, fun _ => rfl⟩

theorem find?_modify (ws : Workspace) (id other : InstanceId) (f : Instance → Instance) :
    (ws.modify id f).find? other = if id = other then (ws.find? id).map f else ws.find? other :=
  Directory.find?_modify ws.directory id other f

theorem isLive_modify {f : Instance → Instance} (hf : KeepsPlace f) (id : InstanceId) :
    (ws.modify id f).IsLive r ↔ ws.IsLive r := by
  unfold IsLive
  rw [find?_modify]
  by_cases he : id = r.id
  · subst he
    rw [if_pos rfl]
    constructor
    · rintro ⟨i, hi, hir⟩
      obtain ⟨j, hj, rfl⟩ := Option.map_eq_some_iff.mp hi
      refine ⟨j, hj, ?_⟩
      rw [← hir, Instance.ref, Instance.ref, hf.id, hf.location]
    · rintro ⟨i, hi, hir⟩
      refine ⟨f i, by rw [hi]; rfl, ?_⟩
      rw [← hir, Instance.ref, Instance.ref, hf.id, hf.location]
  · rw [if_neg he]

theorem versionOf_modify {f : Instance → Instance} (hf : KeepsVersion f) (id : InstanceId) :
    (ws.modify id f).versionOf r = ws.versionOf r := by
  unfold versionOf
  rw [find?_modify]
  by_cases he : id = r.id
  · subst he
    rw [if_pos rfl]
    cases ws.find? r.id with
    | none => rfl
    | some i => exact hf.version i
  · rw [if_neg he]

theorem stampOf_modify {f : Instance → Instance} (hf : KeepsVersion f) (id : InstanceId)
    (d : StructDef) : (ws.modify id f).stampOf r d = ws.stampOf r d := by
  rw [stampOf, versionOf_modify hf]
  rfl

theorem Sound.modify (h : Sound once ws) {f : Instance → Instance} (hf : KeepsVersion f)
    (id : InstanceId) : Sound once (ws.modify id f) where
  directory := h.directory.modify id hf.id hf.location
  limit := h.limit
  known other l hl := by
    have hold := h.known other l hl
    rw [find?_modify]
    split
    · rename_i he
      subst he
      intro hnone
      exact hold (Option.map_eq_none_iff.mp hnone)
    · exact hold
  fits ho r d st hr := h.fits ho r d st ((isLive_modify hf.toKeepsPlace id).mp hr)
  measuring r hr hm := by
    obtain ⟨d, hd, hst⟩ := h.measuring r ((isLive_modify hf.toKeepsPlace id).mp hr) hm
    refine ⟨d, hd, ?_⟩
    rw [stampOf_modify hf]
    exact hst
  versions := h.versions
  stamps ho r st hr := h.stamps ho r st ((isLive_modify hf.toKeepsPlace id).mp hr)
  sizes ho r st n hr := h.sizes ho r st n ((isLive_modify hf.toKeepsPlace id).mp hr)

theorem Settled.modify (h : ws.Settled) {f : Instance → Instance} (hf : KeepsVersion f)
    (id : InstanceId) : (ws.modify id f).Settled := by
  intro r d hr hd
  rw [stampOf_modify hf]
  exact h r d ((isLive_modify hf.toKeepsPlace id).mp hr) hd

/-- An instance that is new since an earlier workspace may be changed. -/
theorem Grows.modify_new {start : Workspace} (h : Grows start ws) {f : Instance → Instance}
    (hf : KeepsVersion f) {id : InstanceId} (hnew : start.find? id = none) :
    Grows start (ws.modify id f) where
  schema := h.schema
  files := h.files
  limits := h.limits
  depth := h.depth
  refusals := h.refusals
  nextId := h.nextId
  instances other i hi := by
    have hne : id ≠ other := by
      rintro rfl
      rw [hi] at hnew
      cases hnew
    rw [find?_modify, if_neg hne]
    exact h.instances other i hi
  added other i hi hnone := by
    rw [find?_modify] at hi
    split at hi
    · rename_i he
      subst he
      obtain ⟨j, hj, _⟩ := Option.map_eq_some_iff.mp hi
      exact h.added id j hj hnone
    · exact h.added other i hi hnone
  layouts := h.layouts
  idle r hr := h.idle r ((isLive_modify hf.toKeepsPlace id).mp hr)
  settled hs := (h.settled hs).modify hf id

/-- An instance keeps what it is while its reason and its budget change. -/
theorem Grows.merge (ws : Workspace) (id : InstanceId) (reason : Reason) (budget : Budget) :
    Grows ws (ws.modify id (Instance.merge reason budget)) where
  schema := rfl
  files := rfl
  limits := rfl
  depth := rfl
  refusals := Nat.le_refl _
  nextId := Nat.le_refl _
  instances other i hi := by
    rw [find?_modify]
    split
    · rename_i he
      subst he
      rw [hi]
      exact ⟨_, rfl, rfl⟩
    · exact ⟨i, hi, .refl i⟩
  added other i hi hnone := by
    rw [find?_modify] at hi
    split at hi
    · rename_i he
      subst he
      rw [hnone] at hi
      cases hi
    · rw [hi] at hnone
      cases hnone
  layouts _ _ := .refl _ _ _
  idle _ hr hnot :=
    absurd ((isLive_modify (keepsVersion_merge reason budget).toKeepsPlace id).mp hr) hnot
  settled hs := hs.modify (keepsVersion_merge reason budget) id

/-- **Placing an instance** adds it to a sound workspace, or finds the one that is there. -/
theorem Sound.place (h : Sound once ws) (p : Placement) :
    Sound once (ws.place p).2 ∧ Grows ws (ws.place p).2 ∧ (ws.place p).2.IsLive (ws.place p).1.ref ∧
      (ws.place p).1.ref.location = p.location ∧
      ((ws.place p).1.inserted = true → ws.find? (ws.place p).1.ref.id = none) := by
  cases hp : ws.directory.findAt? p.location with
  | some i =>
    have hplace :
        ws.place p = (⟨i.ref, false⟩, ws.modify i.id (Instance.merge p.reason p.budget)) := by
      rw [Workspace.place, Directory.add_of_taken hp]
      rfl
    obtain ⟨hi, hl⟩ := h.directory.findAt?_eq_some.mp hp
    rw [hplace]
    refine ⟨h.modify (keepsVersion_merge _ _) i.id, .merge ws i.id _ _, ?_, hl, fun e => by cases e⟩
    exact (isLive_modify (keepsVersion_merge _ _).toKeepsPlace i.id).mpr ⟨i, hi, rfl⟩
  | none =>
    have hfind (id : InstanceId) : (ws.place p).2.find? id =
        if ws.directory.nextId = id then some (.ofPlacement id p) else ws.find? id :=
      Directory.find?_add_of_free hp id
    have hadded : (ws.place p).1 = ⟨⟨ws.directory.nextId, p.location⟩, true⟩ := by
      rw [Workspace.place, Directory.add, hp]
    have hnext : (ws.place p).2.directory.nextId = ws.directory.nextId + 1 := by
      rw [Workspace.place, Directory.add, hp]
    have hnew : ws.find? ws.directory.nextId = none := h.directory.find?_nextId
    have hlive {r : InstanceRef} (hr : (ws.place p).2.IsLive r) :
        ws.IsLive r ∨ (r = ⟨ws.directory.nextId, p.location⟩ ∧ ws.layoutOf r = .unknown r.offset) := by
      obtain ⟨i, hi, hir⟩ := hr
      rw [hfind] at hi
      split at hi
      · rename_i he
        cases hi
        have hr' : r = ⟨ws.directory.nextId, p.location⟩ := by
          rw [← hir, Instance.ref, he]
          rfl
        refine .inr ⟨hr', layoutOf_eq_unknown ?_⟩
        cases hl : ws.layouts[r.id]? with
        | none => rfl
        | some l => exact absurd (he ▸ hnew) (h.known r.id l hl)
      · exact .inl ⟨i, hi, hir⟩
    have hversion {r : InstanceRef} (hr : ws.IsLive r) :
        (ws.place p).2.versionOf r = ws.versionOf r := by
      obtain ⟨i, hi, _⟩ := hr
      rw [versionOf, hfind, if_neg, versionOf]
      exact Nat.ne_of_gt (h.directory.lt r.id i hi)
    have hlayout (r : InstanceRef) : (ws.place p).2.layoutOf r = ws.layoutOf r := rfl
    have hstamp {r : InstanceRef} (hr : ws.IsLive r) (d : StructDef) :
        (ws.place p).2.stampOf r d = ws.stampOf r d := by
      rw [stampOf, hversion hr]
      rfl
    refine ⟨?_, ?_, ?_, ?_, ?_⟩
    · refine ⟨h.directory.add p, h.limit, ?_, ?_, ?_, h.versions, ?_, ?_⟩
      · intro id l hl
        rw [hfind]
        split
        · exact fun e => by cases e
        · exact h.known id l hl
      · intro ho r d st hr hd hst
        rcases hlive hr with hold | ⟨_, hunknown⟩
        · exact h.fits ho r d st hold hd hst
        · rw [hlayout, hunknown] at hst
          cases hst
      · intro r hr hm
        rcases hlive hr with hold | ⟨_, hunknown⟩
        · obtain ⟨d, hd, hst⟩ := h.measuring r hold hm
          exact ⟨d, hd, by rw [hstamp hold]; exact hst⟩
        · rw [hlayout, hunknown] at hm
          exact absurd rfl hm
      · intro ho r st hr hst
        rcases hlive hr with hold | ⟨_, hunknown⟩
        · exact h.stamps ho r st hold hst
        · rw [hlayout, hunknown] at hst
          cases hst
      · intro ho r st n hr hsize
        rcases hlive hr with hold | ⟨_, hunknown⟩
        · exact h.sizes ho r st n hold hsize
        · rw [hlayout, hunknown] at hsize
          cases hsize
    · refine ⟨⟨rfl, rfl, rfl, rfl, Nat.le_refl _, ?_, ?_, ?_⟩, ?_, ?_, ?_⟩
      · rw [hnext]
        exact Nat.le_succ _
      · intro id i hi
        refine ⟨i, ?_, .refl i⟩
        rw [hfind, if_neg (Nat.ne_of_gt (h.directory.lt id i hi))]
        exact hi
      · intro id i hi hnone
        rw [hfind] at hi
        split at hi
        · rename_i he
          exact Nat.le_of_eq he
        · rw [hi] at hnone
          cases hnone
      · exact fun _ _ => .refl _ _ _
      · intro r hr hnot
        rcases hlive hr with hold | ⟨_, hunknown⟩
        · exact absurd hold hnot
        · rw [hlayout, hunknown]
          rfl
      · intro hs r d hr hd
        rcases hlive hr with hold | ⟨_, hunknown⟩
        · rw [hstamp hold]
          exact hs r d hold hd
        · rw [hlayout, hunknown]
          exact .unknown
    · rw [hadded]
      exact ⟨_, by rw [hfind, if_pos rfl], rfl⟩
    · rw [hadded]
    · intro _
      rw [hadded]
      exact hnew

/-- Placing an instance on behalf of the user, if it can be placed. -/
theorem Sound.create (h : Sound once ws) (l : Location) :
    Sound once (ws.create l).2 ∧ Grows ws (ws.create l).2 := by
  unfold Workspace.create
  split
  · exact ⟨h, .refl ws⟩
  · split
    · exact ⟨h, .refl ws⟩
    · obtain ⟨hs, hg, _⟩ := h.place (.single l .user)
      exact ⟨hs, hg⟩

end

end Workspace

end ByteAtlas
