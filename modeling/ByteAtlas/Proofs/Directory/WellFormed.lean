import ByteAtlas.Directory.Basic

/-!
# Well formed directories

A directory is well formed if its numbers and its locations tell of the same instances, and every
number in use has been given out (`Directory.WellFormed`). The directory without instances is, and
placing, editing and removing keep it so.
-/

namespace ByteAtlas

/-- **Whether the numbers and the locations of a directory tell of the same instances.** -/
structure Directory.WellFormed (d : Directory) : Prop where
  id_eq : ∀ id i, d.find? id = some i → i.id = id
  lt : ∀ id i, d.find? id = some i → id < d.nextId
  located : ∀ l id, d.byLocation[l]? = some id → ∃ i, d.find? id = some i ∧ i.location = l
  placed : ∀ id i, d.find? id = some i → d.byLocation[i.location]? = some id

namespace Directory

variable {d : Directory}

/-! ## 1. What keeps a directory well formed -/

theorem wellFormed_empty : empty.WellFormed := by
  have hfind (id : InstanceId) : empty.find? id = none := rfl
  have hloc (l : Location) : empty.byLocation[l]? = none := rfl
  refine ⟨?_, ?_, ?_, ?_⟩
  · intro id i h
    rw [hfind] at h
    cases h
  · intro id i h
    rw [hfind] at h
    cases h
  · intro l id h
    rw [hloc] at h
    cases h
  · intro id i h
    rw [hfind] at h
    cases h

/-- A change of the properties of an instance. -/
theorem WellFormed.modify (h : d.WellFormed) (id : InstanceId) {f : Instance → Instance}
    (hid : ∀ i, (f i).id = i.id) (hloc : ∀ i, (f i).location = i.location) :
    (d.modify id f).WellFormed := by
  have hfind {other : InstanceId} {i' : Instance} (hi : (d.modify id f).find? other = some i') :
      ∃ i, d.find? other = some i ∧ i'.id = i.id ∧ i'.location = i.location := by
    rw [find?_modify] at hi
    by_cases he : id = other
    · rw [if_pos he] at hi
      subst he
      obtain ⟨i, hold, rfl⟩ := Option.map_eq_some_iff.mp hi
      exact ⟨i, hold, hid i, hloc i⟩
    · rw [if_neg he] at hi
      exact ⟨i', hi, rfl, rfl⟩
  refine ⟨?_, ?_, ?_, ?_⟩
  · intro other i' hi
    obtain ⟨i, hi, he, _⟩ := hfind hi
    rw [he]
    exact h.id_eq other i hi
  · intro other i' hi
    obtain ⟨i, hi, _⟩ := hfind hi
    exact h.lt other i hi
  · intro l other hl
    obtain ⟨i, hi, hil⟩ := h.located l other hl
    rw [find?_modify]
    by_cases he : id = other
    · subst he
      exact ⟨f i, by rw [if_pos rfl, hi]; rfl, (hloc i).trans hil⟩
    · exact ⟨i, by rw [if_neg he, hi], hil⟩
  · intro other i' hi
    obtain ⟨i, hi, _, hl⟩ := hfind hi
    rw [hl]
    exact h.placed other i hi

/-! ## 2. Looking up -/

/-- The instance at a location is the one that is there. -/
theorem WellFormed.findAt?_eq_some (h : d.WellFormed) {l : Location} {i : Instance} :
    d.findAt? l = some i ↔ d.find? i.id = some i ∧ i.location = l := by
  refine ⟨fun hi => ?_, fun ⟨hi, hl⟩ => ?_⟩
  · unfold findAt? at hi
    split at hi
    · rename_i id hid
      obtain ⟨i', hi', hl⟩ := h.located l id hid
      rw [hi] at hi'
      cases hi'
      rw [h.id_eq id i hi]
      exact ⟨hi, hl⟩
    · cases hi
  · have hp := h.placed i.id i hi
    rw [hl] at hp
    rw [findAt?, hp]
    exact hi

theorem WellFormed.findAt?_eq_none (h : d.WellFormed) {l : Location} (hl : d.findAt? l = none) :
    d.byLocation[l]? = none := by
  unfold findAt? at hl
  split at hl
  · rename_i id hid
    obtain ⟨i, hi, _⟩ := h.located l id hid
    rw [hl] at hi
    cases hi
  · rename_i hnone
    exact hnone

/-- **A place that is taken**: the instance there is found, its reason and budget are brought up to
date. -/
theorem add_of_taken {p : Placement} {i : Instance} (hi : d.findAt? p.location = some i) :
    d.add p = (⟨i.ref, false⟩, d.modify i.id (Instance.merge p.reason p.budget)) := by
  rw [add, hi]

/-- **A free place**: the new instance is there, and all others are as they were. -/
theorem find?_add_of_free {p : Placement} (hp : d.findAt? p.location = none) (id : InstanceId) :
    (d.add p).2.find? id = if d.nextId = id then some (.ofPlacement id p) else d.find? id := by
  rw [add, hp]
  show (d.instances.insert d.nextId _)[id]? = _
  rw [Std.TreeMap.getElem?_insert]
  by_cases he : d.nextId = id
  · subst he
    simp
  · simp [he]
    rfl

theorem WellFormed.find?_nextId (h : d.WellFormed) : d.find? d.nextId = none := by
  cases hi : d.find? d.nextId with
  | none => rfl
  | some i => exact absurd (h.lt _ i hi) (Nat.lt_irrefl _)

theorem WellFormed.add (h : d.WellFormed) (p : Placement) : (d.add p).2.WellFormed := by
  cases hp : d.findAt? p.location with
  | some i =>
    rw [add_of_taken hp]
    exact h.modify i.id (fun _ => rfl) fun _ => rfl
  | none =>
    have hfree := h.findAt?_eq_none hp
    have hnew := h.find?_nextId
    have hnext : (d.add p).2.nextId = d.nextId + 1 := by
      rw [Directory.add, hp]
    have hbyloc (l : Location) : (d.add p).2.byLocation[l]? =
        if p.location = l then some d.nextId else d.byLocation[l]? := by
      rw [Directory.add, hp]
      show (d.byLocation.insert p.location d.nextId)[l]? = _
      rw [Std.TreeMap.getElem?_insert]
      by_cases hl : p.location = l
      · subst hl
        simp
      · simp [hl]
    refine ⟨?_, ?_, ?_, ?_⟩
    · intro id i hi
      rw [find?_add_of_free hp] at hi
      split at hi
      · cases hi
        rfl
      · exact h.id_eq id i hi
    · intro id i hi
      rw [find?_add_of_free hp] at hi
      rw [hnext]
      split at hi
      · rename_i he
        rw [← he]
        exact Nat.lt_succ_self _
      · exact Nat.lt_succ_of_lt (h.lt id i hi)
    · intro l id hl
      rw [hbyloc] at hl
      split at hl
      · rename_i he
        cases hl
        exact ⟨.ofPlacement d.nextId p, by rw [find?_add_of_free hp, if_pos rfl], he⟩
      · obtain ⟨i, hi, hil⟩ := h.located l id hl
        refine ⟨i, ?_, hil⟩
        rw [find?_add_of_free hp, if_neg (Nat.ne_of_gt (h.lt id i hi))]
        exact hi
    · intro id i hi
      rw [find?_add_of_free hp] at hi
      rw [hbyloc]
      split at hi
      · rename_i he
        cases hi
        show (if p.location = p.location then some d.nextId else _) = some id
        rw [if_pos rfl, he]
      · have hpl := h.placed id i hi
        have hne : p.location ≠ i.location := by
          intro he
          rw [← he, hfree] at hpl
          cases hpl
        rw [if_neg hne]
        exact hpl

theorem WellFormed.delete (h : d.WellFormed) (id : InstanceId) : (d.delete id).2.WellFormed := by
  cases hd : d.find? id with
  | none =>
    rw [Directory.delete, hd]
    exact h
  | some gone =>
    have hnext : (d.delete id).2.nextId = d.nextId := by
      rw [Directory.delete, hd]
    have hfind {other : InstanceId} {i : Instance} (hi : (d.delete id).2.find? other = some i) :
        id ≠ other ∧ d.find? other = some i := by
      rw [find?_delete] at hi
      split at hi
      · cases hi
      · rename_i hne
        exact ⟨hne, hi⟩
    have hbyloc (l : Location) : (d.delete id).2.byLocation[l]? =
        if gone.location = l then none else d.byLocation[l]? := by
      rw [Directory.delete, hd]
      show (d.byLocation.erase gone.location)[l]? = _
      rw [Std.TreeMap.getElem?_erase]
      by_cases hl : gone.location = l
      · subst hl
        simp
      · simp [hl]
    refine ⟨?_, ?_, ?_, ?_⟩
    · intro other i hi
      exact h.id_eq other i (hfind hi).2
    · intro other i hi
      rw [hnext]
      exact h.lt other i (hfind hi).2
    · intro l other hl
      rw [hbyloc] at hl
      split at hl
      · cases hl
      · rename_i hne
        obtain ⟨i, hi, hil⟩ := h.located l other hl
        refine ⟨i, ?_, hil⟩
        rw [find?_delete, if_neg, hi]
        rintro rfl
        rw [hd] at hi
        cases hi
        exact hne hil
    · intro other i hi
      obtain ⟨hne, hi⟩ := hfind hi
      rw [hbyloc, if_neg, h.placed other i hi]
      intro hl
      have hg := h.placed id gone hd
      rw [hl, h.placed other i hi] at hg
      exact hne (Option.some.inj hg).symm

/-- Removing one instance after the other. -/
theorem wellFormed_foldl_delete (ids : List InstanceId) : ∀ {d : Directory}, d.WellFormed →
    (ids.foldl (fun d id => (d.delete id).2) d).WellFormed ∧
      ∀ id i, (ids.foldl (fun d id => (d.delete id).2) d).find? id = some i →
        d.find? id = some i := by
  induction ids with
  | nil => exact fun h => ⟨h, fun _ _ hi => hi⟩
  | cons gone ids ih =>
    intro d h
    obtain ⟨hwell, hfind⟩ := ih (h.delete gone)
    refine ⟨hwell, fun id i hi => ?_⟩
    have hd := hfind id i hi
    rw [Directory.find?_delete] at hd
    split at hd
    · cases hd
    · exact hd

/-! ## 3. The order of the instances -/

/-- The list of a directory is that of its entries, without the numbers they are under. -/
theorem toList_eq (d : Directory) : d.toList = d.instances.toList.map Prod.snd := by
  have hfold : d.toList = d.instances.foldr (fun _ v l => v :: l) [] := rfl
  rw [hfold, Std.TreeMap.foldr_eq_foldr_toList, List.map_eq_foldr]

theorem length_toList (d : Directory) : d.toList.length = d.size := by
  rw [toList_eq, List.length_map]
  exact Std.TreeMap.length_toList

/-- **What is in the list of a directory** is what is found under its number. -/
theorem WellFormed.mem_toList (h : d.WellFormed) {i : Instance} :
    i ∈ d.toList ↔ d.find? i.id = some i := by
  rw [toList_eq]
  constructor
  · intro hi
    obtain ⟨⟨id, i'⟩, hmem, rfl⟩ := List.mem_map.mp hi
    have hfind : d.find? id = some i' := Std.TreeMap.mem_toList_iff_getElem?_eq_some.mp hmem
    rw [h.id_eq id i' hfind]
    exact hfind
  · intro hi
    exact List.mem_map.mpr ⟨(i.id, i), Std.TreeMap.mem_toList_iff_getElem?_eq_some.mpr hi, rfl⟩

/-- **The list is in the order of the numbers.** -/
theorem WellFormed.pairwise_toList (h : d.WellFormed) :
    d.toList.Pairwise fun i j => i.id < j.id := by
  rw [toList_eq, List.pairwise_map]
  refine List.Pairwise.imp_of_mem ?_ Std.TreeMap.ordered_keys_toList
  intro a b ha hb hlt
  have hid {e : InstanceId × Instance} (he : e ∈ d.instances.toList) : e.2.id = e.1 :=
    h.id_eq e.1 e.2 (Std.TreeMap.mem_toList_iff_getElem?_eq_some.mp he)
  rw [hid ha, hid hb]
  exact Nat.compare_eq_lt.mp hlt

open Std.DTreeMap.Internal in
/-- A place in the order is a place in the list. -/
theorem atIndex?_eq_getElem? (d : Directory) (index : Nat) :
    d.atIndex? index = d.toList[index]? := by
  have hentry : d.instances.entryAtIdx? index = d.instances.toList[index]? := by
    show Impl.Const.entryAtIdx? d.instances.inner.inner index =
      (Impl.Const.toList d.instances.inner.inner)[index]?
    rw [Impl.Const.entryAtIdx?_eq_getElem? d.instances.inner.wf.balanced,
      Impl.Const.toList_eq_toListModel_map, List.getElem?_map]
  rw [atIndex?, hentry, toList_eq, List.getElem?_map]

/-- There is no instance at a place that the directory does not have. -/
theorem atIndex?_of_le {index : Nat} (h : d.size ≤ index) : d.atIndex? index = none := by
  rw [atIndex?_eq_getElem?, List.getElem?_eq_none (d.length_toList ▸ h)]

end Directory

end ByteAtlas
