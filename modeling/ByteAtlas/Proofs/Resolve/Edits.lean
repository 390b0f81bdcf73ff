import ByteAtlas.Proofs.Resolve.Sound

/-!
# Edits between requests

Between two requests no field is being laid out (`Workspace.Idle`). Then the workspace stays sound
whatever is edited: definitions, the properties of an instance, the directory, the files, the
limits. What an edit makes out of date is not dropped at once; its stamp tells, because the edit has
given out a new version.
-/

namespace ByteAtlas

/-- An edit that gives an instance a new version. -/
inductive Instance.Edit : (Instance → Instance) → Prop where
  | notes (notes : String) : Edit (Instance.setNotes notes)
  | allowAutoExpand (allow : Bool) : Edit (Instance.setAllowAutoExpand allow)
  | budget (budget : Budget) : Edit (Instance.setBudget budget)
  | sizeOverride (size : Option Int64) : Edit (Instance.setSizeOverride size)
  | setArg (name : String) (value : Int64) : Edit (Instance.setArg name value)
  | removeArg (name : String) : Edit (Instance.removeArg name)

theorem Instance.Edit.keepsPlace {f : Instance → Instance} (h : Instance.Edit f) :
    Workspace.KeepsPlace f := by
  cases h <;> exact ⟨fun _ => rfl, fun _ => rfl⟩

/-- The reason of an instance has no effect on what is read. -/
theorem Workspace.keepsVersion_setReason (reason : Reason) :
    KeepsVersion (Instance.setReason reason) :=
  ⟨⟨fun _ => rfl, fun _ => rfl⟩, fun _ => rfl⟩

namespace Workspace

/-- Whether no field of a live instance is being laid out. -/
def Idle (ws : Workspace) : Prop := ∀ r, ws.IsLive r → (ws.layoutOf r).measuring = none

variable {once : Prop} {ws ws' : Workspace} {r : InstanceRef}

/-! ## 1. Definitions -/

/-- **Editing the schema**: what has the version of a definition was computed from it. -/
theorem Sound.setSchema {once' : Prop} {k : Nat} {s : Schema} (h : ws.Sound once) (hi : ws.Idle)
    (hchange : ws.schema.Change k s) (honce : once' → once)
    (hroom : once' → ws.schema.newestVersion.toNat + k < 2 ^ 32) :
    Sound once' { ws with schema := s } := by
  have hversions (ho : once') := hchange.versions (hroom ho)
  have hle (ho : once') : ws.schema.newestVersion ≤ s.newestVersion := by
    rw [UInt32.le_iff_toNat_le, (hversions ho).1]
    exact Nat.le_add_right _ _
  refine ⟨h.directory, h.limit, h.known, ?_, ?_, ?_, ?_, ?_⟩
  · intro ho r d st hr hd hst hv
    rcases (hversions ho).2 r.struct d hd with hold | ⟨hlt, _⟩
    · exact h.fits (honce ho) r d st hr hold hst hv
    · have hstamp := h.stamps (honce ho) r st hr hst
      rw [← hv] at hlt
      exact absurd hstamp (UInt32.not_le.mpr hlt)
  · intro r hr hm
    exact absurd (hi r hr) hm
  · intro ho name d hd
    rcases (hversions ho).2 name d hd with hold | ⟨_, hnew⟩
    · exact UInt32.le_trans (h.versions (honce ho) name d hold) (hle ho)
    · exact hnew
  · intro ho r st hr hst
    exact UInt32.le_trans (h.stamps (honce ho) r st hr hst) (hle ho)
  · intro ho r st n hr hsize
    obtain ⟨hstamp, hn⟩ := h.sizes (honce ho) r st n hr hsize
    refine ⟨UInt32.le_trans hstamp (hle ho), fun d hd hv => ?_⟩
    rcases (hversions ho).2 r.struct d hd with hold | ⟨hlt, _⟩
    · exact hn d hold hv
    · rw [← hv] at hlt
      exact absurd hstamp (UInt32.not_le.mpr hlt)

/-! ## 2. Instances -/

/-- **Editing an instance**, or giving it another reason. -/
theorem Sound.edit (h : ws.Sound once) (hi : ws.Idle) {f : Instance → Instance}
    (hf : KeepsPlace f) (id : InstanceId) : (ws.modify id f).Sound once := by
  have hlive {r : InstanceRef} : (ws.modify id f).IsLive r → ws.IsLive r := (isLive_modify hf id).mp
  refine ⟨h.directory.modify id hf.id hf.location, h.limit, ?_, ?_, ?_, h.versions, ?_, ?_⟩
  · intro other l hl
    have hold := h.known other l hl
    rw [find?_modify]
    split
    · rename_i he
      subst he
      exact fun hnone => hold (Option.map_eq_none_iff.mp hnone)
    · exact hold
  · exact fun ho r d st hr => h.fits ho r d st (hlive hr)
  · exact fun r hr hm => absurd (hi r (hlive hr)) hm
  · exact fun ho r st hr => h.stamps ho r st (hlive hr)
  · exact fun ho r st n hr => h.sizes ho r st n (hlive hr)

theorem Idle.edit (hi : ws.Idle) {f : Instance → Instance} (hf : KeepsPlace f) (id : InstanceId) :
    (ws.modify id f).Idle :=
  fun r hr => hi r ((isLive_modify hf id).mp hr)

/-! ## 3. Removing instances -/

/-- **Whether some instances are gone**, and nothing else but what is known about them. -/
structure Shrinks (ws ws' : Workspace) : Prop where
  rest : ∃ directory layouts, ws' = { ws with directory, layouts }
  directory : ws'.directory.WellFormed
  instances : ∀ id i, ws'.find? id = some i → ws.find? id = some i
  layouts : ∀ id i, ws'.find? id = some i → ws'.layouts[id]? = ws.layouts[id]?
  known : ∀ id l, ws'.layouts[id]? = some l → ws'.find? id ≠ none

namespace Shrinks

theorem isLive (h : Shrinks ws ws') (hr : ws'.IsLive r) : ws.IsLive r := by
  obtain ⟨i, hi, hir⟩ := hr
  exact ⟨i, h.instances r.id i hi, hir⟩

theorem layoutOf (h : Shrinks ws ws') (hr : ws'.IsLive r) : ws'.layoutOf r = ws.layoutOf r := by
  obtain ⟨i, hi, _⟩ := hr
  rw [Workspace.layoutOf, h.layouts r.id i hi, Workspace.layoutOf]

theorem structOf? (h : Shrinks ws ws') (r : InstanceRef) : ws'.structOf? r = ws.structOf? r := by
  obtain ⟨_, _, rfl⟩ := h.rest
  rfl

theorem stampOf (h : Shrinks ws ws') (hr : ws'.IsLive r) (d : StructDef) :
    ws'.stampOf r d = ws.stampOf r d := by
  obtain ⟨i, hi, _⟩ := hr
  rw [Workspace.stampOf, Workspace.versionOf, hi, Workspace.stampOf, Workspace.versionOf,
    h.instances r.id i hi]

theorem schema (h : Shrinks ws ws') : ws'.schema = ws.schema := by
  obtain ⟨_, _, rfl⟩ := h.rest
  rfl

theorem limits (h : Shrinks ws ws') : ws'.limits = ws.limits := by
  obtain ⟨_, _, rfl⟩ := h.rest
  rfl

theorem depth (h : Shrinks ws ws') : ws'.depth = ws.depth := by
  obtain ⟨_, _, rfl⟩ := h.rest
  rfl

theorem sound (h : Shrinks ws ws') (hs : ws.Sound once) : ws'.Sound once := by
  refine ⟨h.directory, ?_, h.known, ?_, ?_, ?_, ?_, ?_⟩
  · rw [h.limits]
    exact hs.limit
  · intro ho r d st hr hd
    rw [h.layoutOf hr]
    exact hs.fits ho r d st (h.isLive hr) ((h.structOf? r).symm.trans hd)
  · intro r hr hm
    rw [h.layoutOf hr] at hm ⊢
    obtain ⟨d, hd, hst⟩ := hs.measuring r (h.isLive hr) hm
    exact ⟨d, (h.structOf? r).trans hd, by rw [h.stampOf hr, hst]⟩
  · rw [h.schema]
    exact hs.versions
  · intro ho r st hr
    rw [h.layoutOf hr, h.schema]
    exact hs.stamps ho r st (h.isLive hr)
  · intro ho r st n hr
    rw [h.layoutOf hr, h.schema, h.structOf?]
    exact hs.sizes ho r st n (h.isLive hr)

theorem idle (h : Shrinks ws ws') (hi : ws.Idle) : ws'.Idle := by
  intro r hr
  rw [h.layoutOf hr]
  exact hi r (h.isLive hr)

theorem settled (h : Shrinks ws ws') (hs : ws.Settled) : ws'.Settled := by
  intro r d hr hd
  rw [h.layoutOf hr, h.stampOf hr]
  exact hs r d (h.isLive hr) ((h.structOf? r).symm.trans hd)

end Shrinks

theorem Sound.delete (h : ws.Sound once) (id : InstanceId) : ws.Shrinks (ws.delete id).2 := by
  have hfind (other : InstanceId) :
      (ws.delete id).2.find? other = if id = other then none else ws.find? other :=
    Directory.find?_delete ws.directory id other
  have hlayouts (other : InstanceId) :
      (ws.delete id).2.layouts[other]? = if id = other then none else ws.layouts[other]? := by
    show (ws.layouts.erase id)[other]? = _
    rw [Std.TreeMap.getElem?_erase]
    by_cases he : id = other
    · subst he
      simp
    · simp [he]
  refine ⟨⟨_, _, rfl⟩, h.directory.delete id, ?_, ?_, ?_⟩
  · intro other i hi
    rw [hfind] at hi
    split at hi
    · cases hi
    · exact hi
  · intro other i hi
    rw [hfind] at hi
    rw [hlayouts]
    split at hi
    · cases hi
    · rename_i hne
      rw [if_neg hne]
  · intro other l hl
    rw [hlayouts] at hl
    rw [hfind]
    split at hl
    · cases hl
    · rename_i hne
      rw [if_neg hne]
      exact h.known other l hl

theorem Sound.deleteAuto (h : ws.Sound once) : ws.Shrinks ws.deleteAuto.2 := by
  obtain ⟨hwell, hfind⟩ := Directory.wellFormed_foldl_delete
    ((ws.directory.toList.filter fun i => !i.reason.isManual).map Instance.id) h.directory
  have hlayouts (id : InstanceId) : ws.deleteAuto.2.layouts[id]? =
      ws.layouts[id]?.filter fun _ => (ws.deleteAuto.2.find? id).isSome :=
    Std.TreeMap.getElem?_filter'
  refine ⟨⟨_, _, rfl⟩, hwell, hfind, ?_, ?_⟩
  · intro id i hi
    rw [hlayouts, hi]
    cases ws.layouts[id]? <;> rfl
  · intro id l hl hnone
    rw [hlayouts, hnone] at hl
    cases hw : ws.layouts[id]? with
    | none =>
      rw [hw] at hl
      cases hl
    | some l' =>
      rw [hw] at hl
      cases hl

end Workspace

end ByteAtlas
