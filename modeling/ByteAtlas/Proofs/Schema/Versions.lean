import Mathlib.Algebra.Group.Nat.Defs
import ByteAtlas.Schema.Codec

/-!
# Versions of definitions

Every edit of a schema gives out one version. As long as the counter has not run through, each of
them is larger than all that have been given out before (`Schema.Change.versions`), so two
definitions of one version are the same.
-/

namespace ByteAtlas

namespace Schema

/-- The last version that a definition of the schema can have. -/
def newestVersion (s : Schema) : Version := max s.lastVersion initialVersion

/-- An edit of a schema, and how many versions it gives out. -/
inductive Change (s : Schema) : (versions : Nat) → Schema → Prop where
  | insert (name : String) (d : StructDef) : Change s 1 (s.insert name d)
  | edit {ρ : Type} (name : String) (f : StructDef → ρ × StructDef) : Change s 1 (s.edit name f).2
  | remove (name : String) : Change s 0 (s.remove name).2

/-- Whether a schema has been made with so many versions, from one that has just been read. -/
inductive Made : Schema → (versions : Nat) → Prop where
  | read {s : Schema} : s.lastVersion = 0 →
    (∀ name d, s.get? name = some d → d.version = initialVersion) → Made s 0
  | change {n k : Nat} {s s' : Schema} : Made s n → s.Change k s' → Made s' (n + k)

/-- How many versions may be given out without one being given out twice. -/
def versionLimit : Nat := 2 ^ 32 - 1

section

variable {s s' : Schema} {n k : Nat}

/-- What holds of the listed definitions holds of all. -/
theorem forall_of_toList {P : StructDef → Prop} (h : ∀ e ∈ s.structs.toList, P e.2) {name : String}
    {d : StructDef} (hd : s.get? name = some d) : P d :=
  h (name, d) (Std.TreeMap.mem_toList_iff_getElem?_eq_some.mpr hd)

theorem Made.of_toList (hlast : s.lastVersion = 0)
    (h : ∀ e ∈ s.structs.toList, e.2.version = initialVersion) : s.Made 0 :=
  .read hlast fun _ _ hd => forall_of_toList (P := fun d => d.version = initialVersion) h hd

theorem toNat_newestVersion (s : Schema) : s.newestVersion.toNat = max s.lastVersion.toNat 1 := by
  have hmax : s.newestVersion = if s.lastVersion ≤ 1 then 1 else s.lastVersion := rfl
  rw [hmax]
  split
  · rename_i h
    have := UInt32.le_iff_toNat_le.mp h
    rw [show (1 : UInt32).toNat = 1 from rfl] at this ⊢
    omega
  · rename_i h
    have := UInt32.lt_iff_toNat_lt.mp (UInt32.not_le.mp h)
    rw [show (1 : UInt32).toNat = 1 from rfl] at this
    omega

theorem toNat_nextVersion (h : s.newestVersion.toNat + 1 < 2 ^ 32) :
    s.nextVersion.toNat = s.newestVersion.toNat + 1 := by
  show (s.newestVersion + 1).toNat = _
  rw [UInt32.toNat_add]
  exact Nat.mod_eq_of_lt h

/-- The version that an edit gives out is then the newest. -/
theorem newestVersion_eq (h : s.newestVersion.toNat + 1 < 2 ^ 32)
    (hs' : s'.lastVersion = s.nextVersion) :
    s'.newestVersion.toNat = s.newestVersion.toNat + 1 := by
  rw [toNat_newestVersion s', hs', toNat_nextVersion h]
  have := toNat_newestVersion s
  omega

theorem get?_insert (s : Schema) (name other : String) (d : StructDef) :
    (s.insert name d).get? other =
      if name = other then some { d with version := s.nextVersion } else s.get? other := by
  rw [get?, insert, Std.TreeMap.getElem?_insert]
  by_cases h : name = other
  · subst h
    simp
  · simp [h, get?]

theorem get?_remove (s : Schema) (name other : String) :
    (s.remove name).2.get? other = if name = other then none else s.get? other := by
  rw [get?, remove, Std.TreeMap.getElem?_erase]
  by_cases h : name = other
  · subst h
    simp
  · simp [h, get?]

/-- **What an edit does to the versions**: a definition is as it was, or it has a version that none
has had before. -/
theorem Change.versions (h : s.Change k s') (hlt : s.newestVersion.toNat + k < 2 ^ 32) :
    s'.newestVersion.toNat = s.newestVersion.toNat + k ∧
      ∀ name d, s'.get? name = some d → s.get? name = some d ∨
        (s.newestVersion < d.version ∧ d.version ≤ s'.newestVersion) := by
  have hnew {s' : Schema} (hlt : s.newestVersion.toNat + 1 < 2 ^ 32)
      (hs' : s'.lastVersion = s.nextVersion) :
      s.newestVersion < s.nextVersion ∧ s.nextVersion ≤ s'.newestVersion := by
    have hnext := toNat_nextVersion hlt
    rw [UInt32.lt_iff_toNat_lt, UInt32.le_iff_toNat_le, newestVersion_eq hlt hs', hnext]
    omega
  have hinsert (hlt : s.newestVersion.toNat + 1 < 2 ^ 32) (name : String) (d : StructDef) :
      (s.insert name d).newestVersion.toNat = s.newestVersion.toNat + 1 ∧
        ∀ other d', (s.insert name d).get? other = some d' → s.get? other = some d' ∨
          (s.newestVersion < d'.version ∧ d'.version ≤ (s.insert name d).newestVersion) := by
    refine ⟨newestVersion_eq hlt rfl, fun other d' hd' => ?_⟩
    rw [get?_insert] at hd'
    by_cases he : name = other
    · rw [if_pos he] at hd'
      cases hd'
      exact .inr (hnew hlt rfl)
    · rw [if_neg he] at hd'
      exact .inl hd'
  cases h with
  | insert name d => exact hinsert hlt name d
  | edit name f =>
    cases hd : s.get? name with
    | none =>
      have hs' : (s.edit name f).2 = { s with lastVersion := s.nextVersion } := by
        rw [Schema.edit, hd]
      rw [hs']
      exact ⟨newestVersion_eq hlt rfl, fun other d' hd' => .inl hd'⟩
    | some d =>
      have hs' : (s.edit name f).2 = s.insert name (f d).2 := by
        rw [Schema.edit, hd]
        rfl
      rw [hs']
      exact hinsert hlt name (f d).2
  | remove name =>
    refine ⟨rfl, fun other d hd => .inl ?_⟩
    rw [get?_remove] at hd
    by_cases he : name = other
    · rw [if_pos he] at hd
      cases hd
    · rw [if_neg he] at hd
      exact hd

/-- Below the limit no definition has a version that has not been given out. -/
theorem Made.versions (h : s.Made n) (hn : n < versionLimit) :
    s.newestVersion.toNat = n + 1 ∧
      ∀ name d, s.get? name = some d → d.version ≤ s.newestVersion := by
  induction h with
  | @read s hlast hinitial =>
    have hnewest : s.newestVersion.toNat = 1 := by
      rw [toNat_newestVersion, hlast]
      rfl
    refine ⟨hnewest, fun name d hd => ?_⟩
    rw [hinitial name d hd, UInt32.le_iff_toNat_le, hnewest]
    exact Nat.le_refl 1
  | @change n k s s' _ hchange ih =>
    have hlimit : n + k < 2 ^ 32 - 1 := hn
    obtain ⟨hnewest, hold⟩ := ih (Nat.lt_of_le_of_lt (Nat.le_add_right n k) hn)
    obtain ⟨hnewest', hcases⟩ := hchange.versions (by omega)
    refine ⟨by omega, fun name d hd => ?_⟩
    rcases hcases name d hd with hd' | ⟨_, hle⟩
    · have hle := UInt32.le_iff_toNat_le.mp (hold name d hd')
      rw [UInt32.le_iff_toNat_le]
      omega
    · exact hle

/-! ## Schemas that have just been read -/

/-- What every member keeps, a record keeps. -/
theorem foldMembers_keeps {σ : Type} {P : σ → Prop} {keys : List String}
    {step : σ → String → Json → Decoded σ}
    (hstep : ∀ s key j s', P s → step s key j = .ok s' → P s')
    (members : List (Option String × Json)) : ∀ (seen : List String) (s s' : σ), P s →
      Json.foldMembers keys step seen s members = .ok s' → P s' := by
  induction members with
  | nil =>
    intro seen s s' hs h
    rw [Json.foldMembers] at h
    cases h
    exact hs
  | cons m ms ih =>
    intro seen s s' hs h
    obtain ⟨key, j⟩ := m
    cases key with
    | none =>
      rw [Json.foldMembers] at h
      cases h
    | some key =>
      rw [Json.foldMembers] at h
      split at h
      · split at h
        · cases h
        · split at h
          · cases h
          · rename_i s₁ hs₁
            exact ih _ s₁ s' (hstep s key j s₁ hs hs₁) h
      · split at h
        · exact ih seen s s' hs h
        · cases h

theorem toRecord_keeps {σ : Type} {P : σ → Prop} {keys : List String}
    {step : σ → String → Json → Decoded σ} {start s : σ} {j : Json}
    (hstep : ∀ s key j s', P s → step s key j = .ok s' → P s') (hstart : P start)
    (h : Json.toRecord keys step start j = .ok s) : P s := by
  unfold Json.toRecord at h
  split at h
  · cases h
  · exact foldMembers_keeps hstep _ _ _ _ hstart h

/-- Reading a definition gives it no version. -/
theorem version_of_decode {d : StructDef} {j : Json} (h : StructDef.decode j = .ok d) :
    d.version = initialVersion := by
  refine toRecord_keeps (P := fun d => d.version = initialVersion) ?_ rfl h
  intro d key j d' hd h
  unfold StructDef.addMember at h
  split at h <;>
    · obtain ⟨_, _, rfl⟩ := exists_of_map_eq_ok h
      exact hd

theorem forall_mem_entriesOf {α : Type} {P : α → Prop} {decode : Json → Decoded α}
    (hdecode : ∀ j a, decode j = .ok a → P a) (members : List (Option String × Json)) :
    ∀ {es : List (String × α)}, Json.entriesOf decode members = .ok es → ∀ e ∈ es, P e.2 := by
  induction members with
  | nil =>
    intro es h
    rw [Json.entriesOf] at h
    cases h
    exact fun _ he => nomatch he
  | cons m ms ih =>
    intro es h
    obtain ⟨key, j⟩ := m
    cases key with
    | none =>
      rw [Json.entriesOf] at h
      cases h
    | some key =>
      rw [Json.entriesOf] at h
      split at h
      · cases h
      · rename_i a ha
        obtain ⟨rest, hrest, rfl⟩ := exists_of_map_eq_ok h
        exact List.forall_mem_cons.mpr ⟨hdecode j a ha, ih hrest⟩

theorem forall_foldl_insert {P : StructDef → Prop} (es : List (String × StructDef))
    (hes : ∀ e ∈ es, P e.2) : ∀ (m : Std.TreeMap String StructDef),
      (∀ (name : String) (d : StructDef), m[name]? = some d → P d) →
      ∀ (name : String) (d : StructDef),
        (es.foldl (fun m e => m.insert e.1 e.2) m)[name]? = some d → P d := by
  induction es with
  | nil => exact fun m hm => hm
  | cons e es ih =>
    intro m hm
    obtain ⟨he, hrest⟩ := List.forall_mem_cons.mp hes
    refine ih hrest (m.insert e.1 e.2) fun name d hd => ?_
    rw [Std.TreeMap.getElem?_insert] at hd
    split at hd
    · cases hd
      exact he
    · exact hm name d hd

theorem made_of_decode {j : Json} (h : decode j = .ok s) : s.Made 0 := by
  have hread := toRecord_keeps
    (P := fun s => s.lastVersion = 0 ∧ ∀ name d, s.get? name = some d → d.version = initialVersion)
    ?_ ?_ h
  · exact .read hread.1 hread.2
  · rintro s key j s' ⟨hlast, _⟩ hs'
    obtain ⟨es, hes, rfl⟩ := exists_of_map_eq_ok hs'
    have hinitial : ∀ e ∈ es, e.2.version = initialVersion := by
      unfold Json.toEntries at hes
      split at hes
      · exact forall_mem_entriesOf (P := fun d => d.version = initialVersion)
          (fun _ _ => version_of_decode) _ hes
      · cases hes
    exact ⟨hlast, forall_foldl_insert (P := fun d => d.version = initialVersion) es hinitial ∅
      fun _ _ hd => nomatch hd⟩
  · exact ⟨rfl, fun name d hd => nomatch hd⟩

end

end Schema

end ByteAtlas
