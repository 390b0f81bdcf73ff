import ByteAtlas.Proofs.Filters.Conditions
import ByteAtlas.Proofs.Flat.History
import ByteAtlas.Proofs.Resolve.Frames

/-!
# Completing layouts

There is a view of every instance (`Site.knows_viewIn`). What a layout keeps about a field, and what
is settled about the fields before it, settles the field (`Site.settleField`). A field that has no
entry yet is begun where the one before it ends. So the fields are settled from the first one on
(`Site.settle`), whatever has been asked about the instance before.
-/

namespace ByteAtlas

namespace Site

variable (site : Site) (l : Layout)

/-! ## 1. Fields from the first one on -/

/-- **What is settled about a field**, given what is settled about those before it and where the
cursor is, and where the cursor is after it. -/
def settleField (found : Findings) (cursor : Int64) (i : Nat) (field : Field) : Finding × Int64 :=
  match l.entries[i]? with
  | some e => (found.ofEntry site i field e, cursor)
  | none =>
    let present := decide (found.conditionOf site i field ≠ 0)
    let f := found.ofEntry site i field (Resolver.firstEntry site.struct field present cursor)
    (f, cursor + f.room site.struct field)

/-- **What is settled about the first fields**, and where the cursor is after them. -/
def settle : (n : Nat) → Findings × Int64
  | 0 => ([], l.cursor)
  | i + 1 =>
    let (found, cursor) := settle i
    match site.struct.field? i with
    | some (_, field) =>
      let (f, cursor) := site.settleField l found cursor i field
      (found ++ [f], cursor)
    | none => (found, cursor)

/-- The view of an instance, as its layout settles it. Where laying out has been broken off, the
view ends with the last entry. -/
def viewIn (ws : Workspace) : View :=
  let l := site.now ws
  let (fields, cursor) := site.settle l site.struct.fieldCount
  let v : View :=
    if l.measuring.isSome then ⟨fields.take l.entries.size, none, none⟩
    else ⟨fields, some cursor, none⟩
  { v with size := (l.sizeFor? (ws.stampOf site.ref site.struct)).or (v.measured site) }

variable {site : Site} {l : Layout} {i n : Nat} {field : String × Field}

theorem settle_succ (hfield : site.struct.field? i = some field) :
    site.settle l (i + 1) =
      ((site.settle l i).1 ++
        [(site.settleField l (site.settle l i).1 (site.settle l i).2 i field.2).1],
        (site.settleField l (site.settle l i).1 (site.settle l i).2 i field.2).2) := by
  rw [settle, hfield]

theorem length_settle (hn : n ≤ site.struct.fieldCount) : (site.settle l n).1.length = n := by
  induction n with
  | zero => rfl
  | succ n ih =>
    obtain ⟨field, hfield⟩ := Layout.field?_isSome hn
    rw [settle_succ hfield, List.length_append, ih (Nat.le_of_succ_le hn)]
    rfl

/-- What is settled about a field stays, whatever is settled after it. -/
theorem take_settle (hi : i ≤ n) (hn : n ≤ site.struct.fieldCount) :
    (site.settle l n).1.take i = (site.settle l i).1 := by
  induction hi with
  | refl => exact List.take_of_length_le (Nat.le_of_eq (length_settle hn))
  | @step n hi ih =>
    obtain ⟨field, hfield⟩ := Layout.field?_isSome hn
    have hn := Nat.le_of_succ_le hn
    rw [settle_succ hfield, List.take_append_of_le_length (by rwa [length_settle hn]), ih hn]

/-- **What is settled about one of the fields.** -/
theorem getElem?_settle (hi : i < n) (hn : n ≤ site.struct.fieldCount)
    (hfield : site.struct.field? i = some field) : (site.settle l n).1[i]? =
      some (site.settleField l (site.settle l i).1 (site.settle l i).2 i field.2).1 := by
  have hlength := length_settle (l := l) (Nat.le_of_lt (Layout.lt_fieldCount hfield))
  rw [← List.getElem?_take_of_lt (Nat.lt_succ_self i), take_settle hi hn, settle_succ hfield,
    List.getElem?_append_right (Nat.le_of_eq hlength), hlength, Nat.sub_self]
  rfl

/-- Entries do not move the cursor. -/
theorem cursor_settle (hn : n ≤ l.entries.size) : (site.settle l n).2 = l.cursor := by
  induction n with
  | zero => rfl
  | succ n ih =>
    cases hfield : site.struct.field? n with
    | none =>
      rw [settle, hfield]
      exact ih (Nat.le_of_succ_le hn)
    | some field =>
      rw [settle_succ hfield, settleField, Array.getElem?_eq_getElem hn]
      exact ih (Nat.le_of_succ_le hn)

/-- **A field with an entry.** -/
theorem settleField_of_some {e : FieldEntry} (he : l.entries[i]? = some e) (found : Findings)
    (cursor : Int64) (field : Field) :
    (site.settleField l found cursor i field).1 = found.ofEntry site i field e := by
  rw [settleField, he]

/-- **A field without an entry.** -/
theorem settleField_of_le (hi : l.entries.size ≤ i) {found : Findings} {cursor : Int64}
    {field : Field} {f : Finding} (hf : (site.settleField l found cursor i field).1 = f) :
    f.origin = cursor ∧ f.present = decide (found.conditionOf site i field ≠ 0) ∧
      f = found.ofEntry site i field
        (Resolver.firstEntry site.struct field f.present f.origin) ∧
      (site.settleField l found cursor i field).2 = f.origin + f.room site.struct field := by
  subst hf
  rw [settleField, Array.getElem?_eq_none hi]
  have hpresent : (found.ofEntry site i field (Resolver.firstEntry site.struct field
      (decide (found.conditionOf site i field ≠ 0)) cursor)).present = _ :=
    Resolver.firstEntry_present _ _ _ _
  have horigin : (found.ofEntry site i field (Resolver.firstEntry site.struct field
      (decide (found.conditionOf site i field ≠ 0)) cursor)).origin = _ :=
    Resolver.firstEntry_origin _ _ _ _
  dsimp only
  rw [hpresent, horigin]
  exact ⟨rfl, rfl, rfl, rfl⟩

/-! ## 2. Views -/

/-- A view of the first fields as they are settled fits the entries. -/
theorem fits_entry {v : View} {m : Nat} (hm : m ≤ site.struct.fieldCount)
    (hv : v.fields = (site.settle l m).1) (hi : i < m) {e : FieldEntry}
    (he : l.entries[i]? = some e) (hfield : site.struct.field? i = some field) :
    v.fields[i]? = some ((v.upTo i).ofEntry site i field.2 e) := by
  rw [View.upTo, hv, getElem?_settle hi hm hfield, take_settle (Nat.le_of_lt hi) hm,
    settleField_of_some he]

/-- Where a field without an entry starts. -/
theorem startOf_settle {v : View} (hv : v.fields = (site.settle l site.struct.fieldCount).1)
    (hcursor : v.cursor = some (site.settle l site.struct.fieldCount).2)
    (hi : l.entries.size ≤ i) (hle : i ≤ site.struct.fieldCount) :
    v.startOf i = some (site.settle l i).2 := by
  rw [View.startOf, hv]
  rcases Nat.lt_or_eq_of_le hle with hlt | rfl
  · obtain ⟨field, hfield⟩ := Layout.field?_isSome hlt
    rw [getElem?_settle hlt (Nat.le_refl _) hfield, Option.elim_some, (settleField_of_le hi rfl).1]
  · rw [List.getElem?_eq_none (Nat.le_of_eq (length_settle (Nat.le_refl _)))]
    exact hcursor

/-- **All fields as they are settled** fit the layout. -/
theorem fits_settle {v : View} (hv : v.fields = (site.settle l site.struct.fieldCount).1)
    (hcursor : v.cursor = some (site.settle l site.struct.fieldCount).2) : site.Fits v l where
  entry he hfield := fits_entry (Nat.le_refl _) hv (Layout.lt_fieldCount hfield) he hfield
  later {i f} hi hf := by
    have hlt : i < site.struct.fieldCount := by
      obtain ⟨hlt, _⟩ := List.getElem?_eq_some_iff.mp hf
      rwa [hv, length_settle (Nat.le_refl _)] at hlt
    obtain ⟨field, hfield⟩ := Layout.field?_isSome hlt
    rw [hv, getElem?_settle hlt (Nat.le_refl _) hfield, Option.some_inj] at hf
    obtain ⟨_, hpresent, hsame, hnext⟩ := settleField_of_le hi hf
    have hupTo : v.upTo i = (site.settle l i).1 := by
      rw [View.upTo, hv, take_settle (Nat.le_of_lt hlt) (Nat.le_refl _)]
    refine ⟨field, hfield, hupTo ▸ hsame, hupTo ▸ hpresent, ?_⟩
    rw [startOf_settle hv hcursor (Nat.le_succ_of_le hi) hlt, settle_succ hfield, hnext]
  cursor _ := by
    rcases Nat.le_total l.entries.size site.struct.fieldCount with hle | hge
    · rw [startOf_settle hv hcursor (Nat.le_refl _) hle, cursor_settle (Nat.le_refl _)]
    · rw [View.startOf, hv, List.getElem?_eq_none (by rwa [length_settle (Nat.le_refl _)]),
        Option.elim_none, hcursor, cursor_settle hge]
  all _ {i field} hfield :=
    ⟨_, hv ▸ getElem?_settle (Layout.lt_fieldCount hfield) (Nat.le_refl _) hfield⟩

/-- **The entries alone** fit a layout that has been broken off. -/
theorem fits_take {v : View} (hm : l.measuring.isSome)
    (hv : v.fields = (site.settle l site.struct.fieldCount).1.take l.entries.size) :
    site.Fits v l where
  entry {i e field} he hfield := by
    have hsize := (Array.getElem?_eq_some_iff.mp he).1
    have hlt := Layout.lt_fieldCount hfield
    have hle := Nat.min_le_right l.entries.size site.struct.fieldCount
    refine fits_entry (m := min l.entries.size site.struct.fieldCount) hle ?_
      (Nat.lt_min.mpr ⟨hsize, hlt⟩) he hfield
    rw [hv, ← take_settle hle (Nat.le_refl _)]
    exact List.take_eq_take_min.trans (by rw [length_settle (Nat.le_refl _)])
  later {i f} hi hf := by
    rw [hv, List.getElem?_take, if_neg (Nat.not_lt.mpr hi)] at hf
    cases hf
  cursor hnone := by
    rw [hnone] at hm
    cases hm
  all hnone := by
    rw [hnone] at hm
    cases hm

/-- **There is a view of every instance**, and it is complete. -/
theorem knows_viewIn {ws : Workspace} (h : site.SeenIn ws) :
    site.Knows (site.viewIn ws) ws ∧ site.Complete (site.viewIn ws) ws := by
  unfold viewIn
  dsimp only
  split
  · rename_i hm
    refine ⟨⟨h, fits_take hm rfl, rfl⟩, .inr ⟨?_, rfl⟩⟩
    rw [List.length_take]
    exact Nat.min_le_left _ _
  · rename_i hm
    exact ⟨⟨h, fits_settle rfl rfl, rfl⟩, .inl (Option.not_isSome_iff_eq_none.mp hm)⟩

end Site

/-- What is shown of a site is seen. -/
theorem Site.ShownIn.seenIn {site : Site} {ws : Workspace} (h : site.ShownIn ws) :
    site.SeenIn ws :=
  ⟨h.struct, h.args, h.files, h.limit⟩

end ByteAtlas
