/-!
# Maps that keep the order of insertion

A `NameMap` assigns values to distinct names and keeps the names in the order in which they were
first inserted: replacing a value leaves its name where it is, removing one closes the gap. The
names are distinct by the type, so a name has one index and an index one name.
-/

namespace ByteAtlas

section

variable {α : Type}

/-- Entries with one more: the value of a name replaced in its place, or a new name at the end. -/
def insertEntry (name : String) (value : α) : List (String × α) → List (String × α)
  | [] => [(name, value)]
  | (n, v) :: es => if n = name then (name, value) :: es else (n, v) :: insertEntry name value es

/-- Entries without those of a name. -/
def eraseEntry (name : String) (es : List (String × α)) : List (String × α) :=
  es.filter fun e => e.1 ≠ name

/-- The value of a name. -/
def valueIn (name : String) : List (String × α) → Option α
  | [] => none
  | (n, v) :: es => if n = name then some v else valueIn name es

/-- The index of a name. -/
def indexIn (name : String) : List (String × α) → Option Nat
  | [] => none
  | (n, _) :: es => if n = name then some 0 else (indexIn name es).map (· + 1)

theorem names_insertEntry (name : String) (value : α) : ∀ es : List (String × α),
    (insertEntry name value es).map Prod.fst =
      if name ∈ es.map Prod.fst then es.map Prod.fst else es.map Prod.fst ++ [name]
  | [] => by simp [insertEntry]
  | (n, v) :: es => by
    by_cases h : n = name
    · subst h
      simp [insertEntry]
    · have h' : ¬ name = n := fun e => h e.symm
      simp only [insertEntry, h, if_false, List.map_cons, names_insertEntry name value es,
        List.mem_cons, h', false_or]
      split <;> simp

theorem nodup_insertEntry {name : String} {value : α} {es : List (String × α)}
    (h : (es.map Prod.fst).Nodup) : ((insertEntry name value es).map Prod.fst).Nodup := by
  rw [names_insertEntry]
  split
  · exact h
  · rename_i hn
    rw [List.nodup_append]
    refine ⟨h, by simp, ?_⟩
    intro a ha b hb e
    simp only [List.mem_singleton] at hb
    subst hb
    subst e
    exact hn ha

theorem nodup_eraseEntry {name : String} {es : List (String × α)}
    (h : (es.map Prod.fst).Nodup) : ((eraseEntry name es).map Prod.fst).Nodup :=
  h.sublist (List.filter_sublist.map _)

theorem indexIn_lt {name : String} : ∀ {es : List (String × α)} {i : Nat},
    indexIn name es = some i → i < es.length
  | [], _, h => by simp [indexIn] at h
  | (n, v) :: es, i, h => by
    unfold indexIn at h
    split at h
    · cases h; simp
    · obtain ⟨j, hj, rfl⟩ := Option.map_eq_some_iff.mp h
      exact Nat.succ_lt_succ (indexIn_lt hj)

/-- The entry at a name's index has the name. -/
theorem getElem?_indexIn {name : String} : ∀ {es : List (String × α)} {i : Nat},
    indexIn name es = some i → (es[i]?).map Prod.fst = some name
  | [], _, h => by simp [indexIn] at h
  | (n, v) :: es, i, h => by
    unfold indexIn at h
    split at h
    · rename_i hn
      cases h
      simp [hn]
    · obtain ⟨j, hj, rfl⟩ := Option.map_eq_some_iff.mp h
      simpa using getElem?_indexIn hj

/-- Among distinct names a name is found at its place. -/
theorem indexIn_of_getElem? {name : String} {value : α} :
    ∀ {es : List (String × α)} {i : Nat}, (es.map Prod.fst).Nodup →
      es[i]? = some (name, value) → indexIn name es = some i
  | (n, v) :: es, 0, _, h => by
    cases h
    rw [indexIn, if_pos rfl]
  | (n, v) :: es, i + 1, hnodup, h => by
    rw [List.map_cons, List.nodup_cons] at hnodup
    have hi : es[i]? = some (name, value) := h
    have hmem : name ∈ es.map Prod.fst := List.mem_map.mpr ⟨_, List.mem_of_getElem? hi, rfl⟩
    have hne : n ≠ name := by
      rintro rfl
      exact hnodup.1 hmem
    rw [indexIn, if_neg hne, indexIn_of_getElem? hnodup.2 hi]
    rfl

end

/-- Values of distinct names, in the order of insertion. -/
structure NameMap (α : Type) where
  entries : List (String × α)
  distinct : (entries.map Prod.fst).Nodup := by decide

namespace NameMap

variable {α : Type}

instance [DecidableEq α] : DecidableEq (NameMap α) := fun a b =>
  decidable_of_iff (a.entries = b.entries) (by cases a; cases b; simp)

def empty : NameMap α := ⟨[], List.nodup_nil⟩

instance : Inhabited (NameMap α) := ⟨empty⟩

def size (m : NameMap α) : Nat := m.entries.length

def names (m : NameMap α) : List String := m.entries.map Prod.fst

def get? (m : NameMap α) (name : String) : Option α := valueIn name m.entries

def contains (m : NameMap α) (name : String) : Bool := (m.get? name).isSome

/-- The name and the value at an index. -/
def at? (m : NameMap α) (i : Nat) : Option (String × α) := m.entries[i]?

def indexOf? (m : NameMap α) (name : String) : Option Nat := indexIn name m.entries

def insert (m : NameMap α) (name : String) (value : α) : NameMap α :=
  ⟨insertEntry name value m.entries, nodup_insertEntry m.distinct⟩

def erase (m : NameMap α) (name : String) : NameMap α :=
  ⟨eraseEntry name m.entries, nodup_eraseEntry m.distinct⟩

/-- Entries inserted one by one, the last of a name counting. -/
def ofList (es : List (String × α)) : NameMap α :=
  es.foldl (fun m e => m.insert e.1 e.2) empty

theorem indexOf?_lt {m : NameMap α} {name : String} {i : Nat} (h : m.indexOf? name = some i) :
    i < m.size :=
  indexIn_lt h

/-- **The entry at a name's index has the name.** -/
theorem at?_indexOf? {m : NameMap α} {name : String} {i : Nat} (h : m.indexOf? name = some i) :
    (m.at? i).map Prod.fst = some name :=
  getElem?_indexIn h

/-- **A name is found at the index of its entry.** -/
theorem indexOf?_of_at? {m : NameMap α} {e : String × α} {i : Nat} (h : m.at? i = some e) :
    m.indexOf? e.1 = some i :=
  indexIn_of_getElem? m.distinct h

end NameMap

end ByteAtlas
