import ByteAtlas.Expr.Syntax

/-!
# Sums and heights over trees

A node may leave out its query or its index, and the filters of a step may lack a selector. What
such a node adds to a sum over its tree (`Expr.tally`), and how high it is (`Expr.height`), is said
here once, with 0 for a part that is left out.
-/

namespace ByteAtlas

/-! ## 1. Sums -/

section

variable (b e : Nat) (q : Option Query) (name : String)

theorem Expr.tally_member (index : Option Expr) (isOffset : Bool) :
    (member q name index isOffset).tally b e =
      q.elim 0 (Query.tally b e) + index.elim 0 (tally b e) := by
  cases q <;> cases index <;> rfl

theorem Expr.tally_previewTest (text : String) (invert : Bool) :
    (previewTest q name text invert).tally b e = q.elim 0 (Query.tally b e) := by
  cases q <;> rfl

theorem Expr.tally_instanceId : (instanceId q).tally b e = q.elim 0 (Query.tally b e) := by
  cases q <;> rfl

theorem Query.tally_sub (fs : Filters) :
    (sub q name fs).tally b e = q.elim 0 (Query.tally b e) + fs.tally b e := by
  cases q <;> rfl

end

namespace Filters

variable (b e : Nat) (texts : List TextCondition) (values : List (String × Expr))
  (selector : Option Expr)

/-- Conditions on texts hold no tree. -/
theorem tally_mk :
    (mk texts values selector).tally b e =
      valuesTally b e values + selector.elim 0 (Expr.tally b e) := by
  cases selector <;> rfl

theorem tally_mk_value (name : String) (v : Expr) :
    (mk texts ((name, v) :: values) selector).tally b e =
      v.tally b e + (mk texts values selector).tally b e := by
  rw [tally_mk, tally_mk, valuesTally, Nat.add_assoc]

/-- Of two selectors the first one is dropped. -/
theorem tally_mk_selector_le (v : Expr) :
    (mk texts values (selector.or (some v))).tally b e ≤
      v.tally b e + (mk texts values selector).tally b e := by
  rw [tally_mk, tally_mk]
  cases selector with
  | none => exact Nat.le_of_eq (Nat.add_comm _ _)
  | some _ => exact Nat.le_add_left _ _

end Filters

/-! ## 2. Heights -/

section

variable (q : Option Query) (name : String)

theorem Expr.height_member (index : Option Expr) (isOffset : Bool) :
    (member q name index isOffset).height =
      max (q.elim 0 Query.height) (index.elim 0 height) + 1 := by
  cases q <;> cases index <;> rfl

theorem Expr.height_previewTest (text : String) (invert : Bool) :
    (previewTest q name text invert).height = q.elim 0 Query.height + 1 := by
  cases q <;> rfl

theorem Expr.height_instanceId : (instanceId q).height = q.elim 0 Query.height + 1 := by
  cases q <;> rfl

theorem Query.height_sub (fs : Filters) :
    (sub q name fs).height = max (q.elim 0 height) fs.height + 1 := by
  cases q <;> rfl

theorem Filters.height_mk (texts : List TextCondition) (values : List (String × Expr))
    (selector : Option Expr) :
    (mk texts values selector).height =
      max (valuesHeight values) (selector.elim 0 Expr.height) := by
  cases selector <;> rfl

theorem Expr.height_pos (e : Expr) : 0 < e.height := by
  cases e with
  | member q name index isOffset =>
    rw [height_member]
    exact Nat.succ_pos _
  | previewTest q name text invert =>
    rw [height_previewTest]
    exact Nat.succ_pos _
  | instanceId q =>
    rw [height_instanceId]
    exact Nat.succ_pos _
  | _ =>
    rw [height]
    exact Nat.succ_pos _

theorem Query.height_pos (q : Query) : 0 < q.height := by
  cases q with
  | sub parent name fs =>
    rw [height_sub]
    exact Nat.succ_pos _
  | _ =>
    rw [height]
    exact Nat.succ_pos _

end

end ByteAtlas
