import Mathlib.Data.List.Basic
import ByteAtlas.Proofs.Schema.Versions

/-!
# Runs of edits

A schema that is new or has just been read is edited by a run of calls: definitions are inserted,
edited and removed. As long as the counter does not come round, the versions given out rise, and a
name together with a version tells what the definition is, at whatever time of the run it is looked
at (`Unedited.run_versions`). With one call more a version can be 0 (`Unedited.exists_run_zero`).
-/

namespace ByteAtlas

namespace Schema

/-- A schema that nobody has edited: a new one, or one that has been taken out of JSON. -/
inductive Unedited : Schema → Prop where
  | new : Unedited .empty
  | decoded {s : Schema} {j : Json} : decode j = .ok s → Unedited s

/-- A call that edits a schema. An edit of a struct that is not there fails. -/
inductive Call : Type 1 where
  | insert (name : String) (d : StructDef)
  | edit {ρ : Type} (name : String) (f : StructDef → ρ × StructDef)
  | remove (name : String)

/-- The schema after a call. -/
def Call.apply (s : Schema) : Call → Schema
  | insert name d => s.insert name d
  | edit name f => (s.edit name f).2
  | remove name => (s.remove name).2

/-- The version that a call gives out: the counter after it, unless it removes. -/
def Call.givenOut (s : Schema) (c : Call) : List Version :=
  match c with
  | insert .. | edit .. => [(c.apply s).lastVersion]
  | remove _ => []

/-- The schema after some calls. -/
def applyAll (s : Schema) (calls : List Call) : Schema := calls.foldl Call.apply s

/-- The versions that some calls give out, in order. -/
def givenOut (s : Schema) : List Call → List Version
  | [] => []
  | c :: cs => c.givenOut s ++ (c.apply s).givenOut cs

@[simp] theorem applyAll_cons (s : Schema) (c : Call) (cs : List Call) :
    s.applyAll (c :: cs) = (c.apply s).applyAll cs := rfl

theorem applyAll_append (s : Schema) (before after : List Call) :
    s.applyAll (before ++ after) = (s.applyAll before).applyAll after :=
  List.foldl_append

section

variable {s : Schema}

theorem Unedited.made (h : s.Unedited) : s.Made 0 := by
  cases h with
  | new => exact .read rfl fun _ _ hd => nomatch hd
  | decoded hj => exact made_of_decode hj

/-! ## One call -/

theorem Call.change (s : Schema) (c : Call) : s.Change (c.givenOut s).length (c.apply s) := by
  cases c with
  | insert name d => exact .insert name d
  | edit name f => exact .edit name f
  | remove name => exact .remove name

theorem Call.length_givenOut_le (s : Schema) (c : Call) : (c.givenOut s).length ≤ 1 := by
  cases c <;> exact Nat.le_of_ble_eq_true rfl

theorem lastVersion_edit {ρ : Type} (s : Schema) (name : String) (f : StructDef → ρ × StructDef) :
    (s.edit name f).2.lastVersion = s.nextVersion := by
  unfold edit
  cases s.get? name <;> rfl

/-- A call gives out the next version or none. -/
theorem Call.eq_nextVersion {c : Call} {v : Version} (h : v ∈ c.givenOut s) :
    v = s.nextVersion ∧ (c.apply s).lastVersion = s.nextVersion := by
  cases c with
  | insert name d => exact ⟨List.mem_singleton.mp h, rfl⟩
  | edit name f =>
    have hlast := lastVersion_edit s name f
    exact ⟨(List.mem_singleton.mp h).trans hlast, hlast⟩
  | remove name => cases h

/-- **An edit that fails** says which struct is not there, and leaves every definition. -/
theorem edit_of_none {ρ : Type} {name : String} (f : StructDef → ρ × StructDef)
    (h : s.get? name = none) :
    (s.edit name f).1 = .error (.undefinedStruct name) ∧
      ∀ other, (s.edit name f).2.get? other = s.get? other := by
  unfold edit
  rw [h]
  exact ⟨rfl, fun _ => rfl⟩

/-- A definition that a call puts in place has the version that the call gives out. -/
theorem Call.get?_cases {c : Call} {name : String} {d : StructDef}
    (h : (c.apply s).get? name = some d) : s.get? name = some d ∨ c.givenOut s = [d.version] := by
  have hinsert {other : String} {d' : StructDef} (h : (s.insert other d').get? name = some d) :
      s.get? name = some d ∨ d.version = s.nextVersion := by
    rw [get?_insert] at h
    split at h
    · cases h
      exact .inr rfl
    · exact .inl h
  cases c with
  | insert other d' => exact (hinsert h).imp_right fun hv => congrArg (fun v => [v]) hv.symm
  | @edit ρ other f =>
    change (s.edit other f).2.get? name = some d at h
    change s.get? name = some d ∨ [(s.edit other f).2.lastVersion] = [d.version]
    rw [lastVersion_edit]
    cases ho : s.get? other with
    | none =>
      rw [(edit_of_none f ho).2] at h
      exact .inl h
    | some d' =>
      have hs' : (s.edit other f).2 = s.insert other (f d').2 := by
        rw [Schema.edit, ho]
        rfl
      rw [hs'] at h
      exact (hinsert h).imp_right fun hv => congrArg (fun v => [v]) hv.symm
  | remove other =>
    refine .inl ?_
    change (s.remove other).2.get? name = some d at h
    rw [get?_remove] at h
    split at h
    · cases h
    · exact h

/-! ## Runs of calls -/

theorem length_givenOut_le (calls : List Call) : ∀ s : Schema,
    (s.givenOut calls).length ≤ calls.length := by
  induction calls with
  | nil => exact fun _ => Nat.le_refl 0
  | cons c cs ih =>
    intro s
    have hc := c.length_givenOut_le s
    have hcs := ih (c.apply s)
    rw [givenOut, List.length_append, List.length_cons]
    omega

/-- After a run the schema is made with the versions that the run has given out. -/
theorem Made.applyAll (calls : List Call) : ∀ {s : Schema} {n : Nat}, s.Made n →
    (s.applyAll calls).Made (n + (s.givenOut calls).length) := by
  induction calls with
  | nil => exact fun h => h
  | cons c cs ih =>
    intro s n h
    rw [givenOut, List.length_append, ← Nat.add_assoc]
    exact ih (.change h (c.change s))

/-- What a run does to the versions. -/
structure Rises (s : Schema) (calls : List Call) : Prop where
  /-- What is given out is newer than all that was there. -/
  newer : ∀ v ∈ s.givenOut calls, s.newestVersion < v
  rising : (s.givenOut calls).Pairwise (· < ·)
  /-- A definition is as it was, or it is newer than all that were there. -/
  kept : ∀ name d, (s.applyAll calls).get? name = some d →
    s.get? name = some d ∨ s.newestVersion < d.version

/-- As long as the counter does not come round, the versions rise. -/
theorem rises (calls : List Call) : ∀ {s : Schema},
    s.newestVersion.toNat + calls.length < 2 ^ 32 → s.Rises calls := by
  induction calls with
  | nil =>
    intro s _
    exact {
      newer := fun v hv => nomatch hv
      rising := .nil
      kept := fun _ _ hd => .inl hd }
  | cons c cs ih =>
    intro s hlt
    rw [List.length_cons] at hlt
    have hlen := c.length_givenOut_le s
    obtain ⟨hnewest, hcases⟩ := (c.change s).versions (by omega)
    have hle : s.newestVersion ≤ (c.apply s).newestVersion := by
      rw [UInt32.le_iff_toNat_le]
      omega
    have hrest : (c.apply s).Rises cs := ih (by omega)
    have hgiven : ∀ v ∈ c.givenOut s, s.newestVersion < v ∧ v ≤ (c.apply s).newestVersion := by
      intro v hv
      have hlt : s.newestVersion.toNat + 1 < 2 ^ 32 := by omega
      obtain ⟨rfl, hlast⟩ := c.eq_nextVersion hv
      rw [UInt32.lt_iff_toNat_lt, UInt32.le_iff_toNat_le, newestVersion_eq hlt hlast,
        toNat_nextVersion hlt]
      omega
    refine ⟨fun v hv => ?_, List.pairwise_append.mpr ⟨?_, hrest.rising, fun v hv w hw => ?_⟩,
      fun name d hd => ?_⟩
    · rcases List.mem_append.mp hv with hv | hv
      · exact (hgiven v hv).1
      · exact UInt32.lt_of_le_of_lt hle (hrest.newer v hv)
    · cases c <;> simp [Call.givenOut]
    · exact UInt32.lt_of_le_of_lt (hgiven v hv).2 (hrest.newer w hw)
    · rcases hrest.kept name d hd with hd | hnew
      · exact (hcases name d hd).imp_right And.left
      · exact .inr (UInt32.lt_of_le_of_lt hle hnew)

/-- The newest version after a run tells how many the run has given out. -/
theorem Unedited.newestVersion (h : s.Unedited) {calls : List Call}
    (hn : (s.givenOut calls).length < versionLimit) :
    (s.applyAll calls).newestVersion.toNat = (s.givenOut calls).length + 1 := by
  have hmade := h.made.applyAll calls
  rw [Nat.zero_add] at hmade
  exact (hmade.versions hn).1

/-- Between two times of a run, a name and a version tell what the definition is. -/
theorem Unedited.eq_of_version (h : s.Unedited) {before between : List Call}
    (hn : (before ++ between).length < versionLimit) {name : String} {d d' : StructDef}
    (hd : (s.applyAll before).get? name = some d)
    (hd' : (s.applyAll (before ++ between)).get? name = some d') (hv : d.version = d'.version) :
    d = d' := by
  rw [List.length_append, versionLimit] at hn
  have hlen := length_givenOut_le before s
  have hmade := h.made.applyAll before
  rw [Nat.zero_add] at hmade
  obtain ⟨hnewest, hold⟩ := hmade.versions (by rw [versionLimit]; omega)
  have hrises : (s.applyAll before).Rises between := rises between (by omega)
  rw [applyAll_append] at hd'
  rcases hrises.kept name d' hd' with hsame | hnew
  · exact Option.some.inj (hd.symm.trans hsame)
  · -- a newer definition has another version
    exact absurd (hv ▸ hold name d hd) (UInt32.not_le.mpr hnew)

/-- **What the versions of a run tell**, from a schema that nobody has edited and as long as the
counter does not come round. The versions given out rise from 2 on; a definition changes only
together with its version, to the one just given out; so at any two times of the run the definitions
of one name and one version are the same, whatever has been removed and inserted in between. An edit
of a struct that is not there leaves all definitions. -/
theorem Unedited.run_versions (h : s.Unedited) {calls : List Call}
    (hn : calls.length < versionLimit) :
    ((s.givenOut calls).Pairwise (· < ·) ∧ ∀ v ∈ s.givenOut calls, 1 < v) ∧
    (∀ before c, before ++ [c] <+: calls → ∀ name d,
      (s.applyAll (before ++ [c])).get? name = some d →
        (s.applyAll before).get? name = some d ∨ c.givenOut (s.applyAll before) = [d.version]) ∧
    (∀ p q, p <+: calls → q <+: calls → ∀ name d d', (s.applyAll p).get? name = some d →
      (s.applyAll q).get? name = some d' → d.version = d'.version → d = d') ∧
    (∀ (ρ : Type) before name (f : StructDef → ρ × StructDef),
      before ++ [.edit name f] <+: calls → (s.applyAll before).get? name = none →
        ((s.applyAll before).edit name f).1 = .error (.undefinedStruct name) ∧
          ∀ other, (s.applyAll (before ++ [.edit name f])).get? other =
            (s.applyAll before).get? other) := by
  have hstart : s.newestVersion.toNat = 1 := (h.made.versions (by decide)).1
  have hrises : s.Rises calls := rises calls (by rw [versionLimit] at hn; omega)
  refine ⟨⟨hrises.rising, fun v hv => ?_⟩, fun before c _ name d hd => ?_,
    fun p q hp hq name d d' hd hd' hv => ?_, fun ρ before name f _ hnone => ?_⟩
  · have := UInt32.lt_iff_toNat_lt.mp (hrises.newer v hv)
    rwa [hstart] at this
  · rw [applyAll_append] at hd
    exact Call.get?_cases hd
  · have hlp := hp.length_le
    have hlq := hq.length_le
    rcases List.prefix_or_prefix_of_prefix hp hq with ⟨r, rfl⟩ | ⟨r, rfl⟩
    · exact h.eq_of_version (by omega) hd hd' hv
    · exact (h.eq_of_version (by omega) hd' hd hv.symm).symm
  · rw [applyAll_append]
    exact edit_of_none f hnone

/-- Two definitions inserted under one name, the first of them removed: the versions tell them
apart. -/
theorem run_versions_reinserted :
    givenOut .empty [.insert "A" .empty, .remove "A", .edit "A" fun d => ((), d),
      .insert "A" { StructDef.empty with size := 8 }] = [2, 3, 4] ∧
    (givenOut .empty [.insert "A" .empty, .remove "A", .edit "A" fun d => ((), d),
      .insert "A" { StructDef.empty with size := 8 }]).Pairwise (· < ·) :=
  ⟨by decide, (Unedited.new.run_versions (by decide)).1.1⟩

/-- Insertions give out one version each. -/
theorem length_givenOut_inserts (name : String) (d : StructDef) (n : Nat) : ∀ s : Schema,
    (s.givenOut (List.replicate n (.insert name d))).length = n := by
  induction n with
  | zero => exact fun _ => rfl
  | succ n ih =>
    intro s
    rw [List.replicate_succ, givenOut, List.length_append, ih]
    exact Nat.add_comm 1 n

theorem givenOut_append (before after : List Call) : ∀ s : Schema,
    s.givenOut (before ++ after) = s.givenOut before ++ (s.applyAll before).givenOut after := by
  induction before with
  | nil => exact fun _ => rfl
  | cons c cs ih =>
    intro s
    rw [List.cons_append, givenOut, givenOut, ih, List.append_assoc, applyAll_cons]

/-- **The bound is exact**: with one call more a schema gives out the version 0. -/
theorem Unedited.exists_run_zero (h : s.Unedited) : ∃ calls : List Call,
    calls.length = versionLimit ∧ 0 ∈ s.givenOut calls := by
  have hrun (n : Nat) (hn : n + 1 = versionLimit) :
      0 ∈ s.givenOut (List.replicate n (.insert "" .empty) ++ [.insert "" .empty]) := by
    have hnewest : (s.applyAll (List.replicate n (.insert "" .empty))).newestVersion.toNat =
        versionLimit := by
      rw [h.newestVersion (by rw [length_givenOut_inserts]; omega), length_givenOut_inserts, hn]
    have hzero : (s.applyAll (List.replicate n (.insert "" .empty))).nextVersion = 0 := by
      show Schema.newestVersion _ + 1 = 0
      apply UInt32.toNat_inj.mp
      rw [UInt32.toNat_add, hnewest]
      rfl
    rw [givenOut_append, List.mem_append]
    exact .inr (List.mem_singleton.mpr hzero.symm)
  refine ⟨_, ?_, hrun (versionLimit - 1) (by decide)⟩
  rw [List.length_append, List.length_replicate, List.length_singleton]
  decide

end

end Schema

end ByteAtlas
