import Mathlib.Data.List.Perm.Basic
import ByteAtlas.Proofs.Expr.Evaluation

/-!
# Ranks by offset

A selector picks one of the instances that a query finds, by its rank in the order of the offsets.
Which order that is where offsets are the same is told by `StableOrder`: instances with one offset
stay as they were found. There is exactly one such order (`StableOrder.unique`), so the ranks from
the first to the last pick each instance once, and any other rank picks none
(`Query.selected_by_rank`).
-/

namespace ByteAtlas

/-! ## 1. The stable order -/

/-- **Whether a list is another one in the order of a key**, elements with the same key staying in
the order in which they were. -/
structure StableOrder {ι : Type} (key : ι → Int64) (found ranked : List ι) : Prop where
  perm : ranked.Perm found
  sorted : ranked.Pairwise fun a b => key a ≤ key b
  stable : ∀ n, ranked.filter (key · = n) = found.filter (key · = n)

section

variable {ι : Type} {key : ι → Int64} {found ranked : List ι}

theorem keyLe_trans (key : ι → Int64) (a b c : ι) (hab : decide (key a ≤ key b) = true)
    (hbc : decide (key b ≤ key c) = true) : decide (key a ≤ key c) = true :=
  decide_eq_true (Int64.le_trans (of_decide_eq_true hab) (of_decide_eq_true hbc))

theorem keyLe_total (key : ι → Int64) (a b : ι) :
    (decide (key a ≤ key b) || decide (key b ≤ key a)) = true := by
  rw [Bool.or_eq_true, decide_eq_true_eq, decide_eq_true_eq]
  exact Int64.le_total _ _

/-- Elements with one key are in order, so sorting leaves them in a row. -/
theorem filter_mergeSort (key : ι → Int64) (found : List ι) (n : Int64) :
    (found.mergeSort fun a b => key a ≤ key b).filter (key · = n) = found.filter (key · = n) := by
  have hperm := (found.mergeSort_perm fun a b => key a ≤ key b).filter fun a => key a = n
  have hsorted : (found.filter (key · = n)).Pairwise fun a b => decide (key a ≤ key b) = true := by
    refine List.pairwise_iff_forall_sublist.mpr fun {a b} hab => ?_
    have hkey {c : ι} (hc : c ∈ [a, b]) : key c = n :=
      of_decide_eq_true (List.mem_filter.mp (hab.subset hc)).2
    rw [hkey (.head _), hkey (.tail _ (.head _))]
    exact decide_eq_true (Int64.le_refl n)
  have hsub : (found.filter (key · = n)).Sublist (found.mergeSort fun a b => key a ≤ key b) :=
    List.sublist_mergeSort (keyLe_trans key) (keyLe_total key) hsorted List.filter_sublist
  have hsub := hsub.filter fun a => key a = n
  rw [List.filter_filter, funext fun a => Bool.and_self (decide (key a = n))] at hsub
  exact (hsub.eq_of_length hperm.length_eq.symm).symm

theorem stableOrder_mergeSort (key : ι → Int64) (found : List ι) :
    StableOrder key found (found.mergeSort fun a b => key a ≤ key b) where
  perm := found.mergeSort_perm _
  sorted := (List.pairwise_mergeSort (keyLe_trans key) (keyLe_total key) found).imp of_decide_eq_true
  stable := filter_mergeSort key found

/-- **There is no other stable order**, by induction on the order: the first elements have the least
key, and those with the least key come in the order in which they were. -/
theorem StableOrder.unique {other : List ι} (h : StableOrder key found ranked)
    (h' : StableOrder key found other) : other = ranked := by
  have hperm := h'.perm.trans h.perm.symm
  have hstable (n : Int64) : other.filter (key · = n) = ranked.filter (key · = n) :=
    (h'.stable n).trans (h.stable n).symm
  have hsorted := h.sorted
  have hsorted' := h'.sorted
  clear h h'
  induction ranked generalizing other with
  | nil => exact hperm.eq_nil
  | cons a as ih =>
    cases other with
    | nil => cases hperm.nil_eq
    | cons b bs =>
      have hle : key a ≤ key b := by
        rcases List.mem_cons.mp (hperm.subset List.mem_cons_self) with rfl | hb
        · exact Int64.le_refl _
        · exact List.rel_of_pairwise_cons hsorted hb
      have hle' : key b ≤ key a := by
        rcases List.mem_cons.mp (hperm.symm.subset List.mem_cons_self) with rfl | ha
        · exact Int64.le_refl _
        · exact List.rel_of_pairwise_cons hsorted' ha
      have hkey : key b = key a := Int64.le_antisymm hle' hle
      have hfirst := hstable (key a)
      rw [List.filter_cons, List.filter_cons, if_pos (decide_eq_true hkey),
        if_pos (decide_eq_true rfl)] at hfirst
      obtain ⟨rfl, _⟩ := List.cons.inj hfirst
      refine congrArg (b :: ·) (ih hperm.cons_inv (fun n => ?_) hsorted.of_cons hsorted'.of_cons)
      have hn := hstable n
      rw [List.filter_cons, List.filter_cons] at hn
      split at hn
      · exact (List.cons.inj hn).2
      · exact hn

/-! ## 2. Selecting by rank -/

/-- A rank within the list selects the instance there. -/
theorem selectRank_of_lt (h : StableOrder key found ranked) {rank : Int64} (hnonneg : 0 ≤ rank.toInt)
    (hlt : rank.toInt < found.length) :
    ∃ a, ranked[rank.toInt.toNat]? = some a ∧ selectRank key rank found = [a] := by
  have hlength : rank.toInt.toNat < ranked.length := by
    rw [h.perm.length_eq]
    omega
  refine ⟨ranked[rank.toInt.toNat], List.getElem?_eq_getElem hlength, ?_⟩
  have hnot : ¬ rank < 0 := by
    rw [Int64.lt_iff_toInt_lt, Int64.toInt_zero]
    omega
  rw [selectRank, if_neg hnot, h.unique (stableOrder_mergeSort key found),
    List.getElem?_eq_getElem hlength]
  rfl

/-- A negative rank and one past the last select nothing. -/
theorem selectRank_of_not_lt {rank : Int64} (h : ¬ (0 ≤ rank.toInt ∧ rank.toInt < found.length)) :
    selectRank key rank found = [] := by
  unfold selectRank
  split
  · rfl
  · rename_i hnot
    have hnonneg : 0 ≤ rank.toInt := by
      rw [Int64.lt_iff_toInt_lt, Int64.toInt_zero] at hnot
      omega
    rw [List.getElem?_eq_none]
    · rfl
    · rw [List.length_mergeSort]
      omega

/-- The elements at all places, one after the other, are the list. -/
theorem flatMap_range_getElem? (l : List ι) :
    ((List.range l.length).flatMap fun k => (l[k]?).toList) = l := by
  induction l with
  | nil => rfl
  | cons a as ih =>
    rw [List.length_cons, List.range_succ_eq_map, List.flatMap_cons, List.flatMap_map]
    exact congrArg (a :: ·) ih

end

/-- A query with another selector in its last step, or with none. -/
def Query.selecting (selector : Option Expr) : Query → Query
  | .root struct isGlobal (.mk texts values _) => .root struct isGlobal (.mk texts values selector)
  | .sub parent field (.mk texts values _) => .sub parent field (.mk texts values selector)
  | .error => .error

section

variable {ι : Type} (env : Environment Id ι)

/-- The value of an expression in an environment whose steps have no effects. -/
def Expr.value (e : Expr) : Int64 := e.evaluate env

/-- The instances that a query selects in such an environment. -/
def Query.selected (q : Query) : List ι := q.run env

/-- **A selector is applied to what the query finds without it.** -/
theorem Query.selected_selecting (q : Query) (e : Expr) :
    (q.selecting (some e)).selected env =
      selectRank env.offsetOf (e.value env) ((q.selecting none).selected env) := by
  unfold selected
  cases q with
  | error =>
    refine (selectRank_of_not_lt ?_).symm
    rintro ⟨hnonneg, hlt⟩
    exact absurd hlt (Int.not_lt.mpr hnonneg)
  | root struct isGlobal filters =>
    obtain ⟨texts, values, selector⟩ := filters
    rw [selecting, selecting, Query.run, Query.run, Filters.conditions, Filters.conditions]
    rfl
  | sub parent field filters =>
    obtain ⟨texts, values, selector⟩ := filters
    rw [selecting, selecting, Query.run_sub, Query.run_sub, Filters.conditions, Filters.conditions]
    rfl

/-- **A selector ranks by offset**, in every environment whose steps have no effects: it picks the
instance at its rank in the stable order of what the query finds without it, and none at a negative
rank or past the last. There is one such order, so selectors for all ranks pick each instance once,
in this order. -/
theorem Query.selected_by_rank (q : Query) :
    ∃ ranked, StableOrder env.offsetOf ((q.selecting none).selected env) ranked ∧
      (∀ other, StableOrder env.offsetOf ((q.selecting none).selected env) other →
        other = ranked) ∧
      (∀ (e : Expr) (rank : Int), (e.value env).toInt = rank →
        (0 ≤ rank ∧ rank < ((q.selecting none).selected env).length →
          ∃ a, ranked[rank.toNat]? = some a ∧ (q.selecting (some e)).selected env = [a]) ∧
        (¬ (0 ≤ rank ∧ rank < ((q.selecting none).selected env).length) →
          (q.selecting (some e)).selected env = [])) ∧
      ∀ selectors : Nat → Expr,
        (∀ k < ((q.selecting none).selected env).length,
          ((selectors k).value env).toInt = k) →
        ((List.range ((q.selecting none).selected env).length).flatMap fun k =>
          (q.selecting (some (selectors k))).selected env) = ranked := by
  have horder := stableOrder_mergeSort env.offsetOf ((q.selecting none).selected env)
  refine ⟨_, horder, fun _ => horder.unique, ?_, fun selectors hselectors => ?_⟩
  · rintro e rank rfl
    rw [selected_selecting]
    exact ⟨fun h => selectRank_of_lt horder h.1 h.2, selectRank_of_not_lt⟩
  · refine Eq.trans ?_ (flatMap_range_getElem? _)
    rw [horder.perm.length_eq]
    refine List.flatMap_congr fun k hk => ?_
    have hlt := List.mem_range.mp hk
    have hrank := hselectors k hlt
    have hnonneg : 0 ≤ ((selectors k).value env).toInt := by
      rw [hrank]
      exact Int.natCast_nonneg k
    obtain ⟨a, ha, hselect⟩ := selectRank_of_lt horder hnonneg (by
      rw [hrank]
      exact Int.ofNat_lt.mpr hlt)
    rw [selected_selecting, hselect]
    rw [hrank, Int.toNat_natCast] at ha
    rw [ha]
    rfl

end

/-- An environment with four rows, numbered as they are found, two at each of two offsets. -/
def fourRows : Environment Id (Nat × Int64) where
  lookup _ _ _ _ := none
  roots := []
  children _ _ _ := []
  instancesOf _ _ _ := [(0, 8), (1, -4), (2, 8), (3, -4)]
  read _ _ := []
  offsetOf := Prod.snd
  idOf row := Int64.ofNat row.1
  preview _ _ := none

/-- All rows. -/
def rowQuery : Query := .root "Row" false .none

/-- The ranks pick the rows with the smaller offset first, and rows with one offset as they are
found. -/
theorem selected_by_rank_fourRows :
    ((List.range 4).flatMap fun k =>
      (rowQuery.selecting (some (.constant (Int64.ofNat k)))).selected fourRows) =
        [(1, -4), (3, -4), (0, 8), (2, 8)] ∧
      (rowQuery.selecting (some (.constant (-1)))).selected fourRows = [] ∧
      (rowQuery.selecting (some (.constant 4))).selected fourRows = [] := by
  obtain ⟨ranked, _, hunique, hpick, hall⟩ := Query.selected_by_rank fourRows rowQuery
  have horder : StableOrder fourRows.offsetOf ((rowQuery.selecting none).selected fourRows)
      [(1, -4), (3, -4), (0, 8), (2, 8)] := by
    have hfound : (rowQuery.selecting none).selected fourRows =
        [(0, 8), (1, -4), (2, 8), (3, -4)] := rfl
    rw [hfound]
    refine ⟨by decide, by decide, fun n => ?_⟩
    by_cases hsmall : n = -4
    · subst hsmall
      decide
    · by_cases hlarge : n = 8
      · subst hlarge
        decide
      · simp [fourRows, Ne.symm hsmall, Ne.symm hlarge]
  refine ⟨?_, (hpick (.constant (-1)) _ rfl).2 (by decide), (hpick (.constant 4) _ rfl).2 (by decide)⟩
  rw [hunique _ horder]
  exact hall (fun k => .constant (Int64.ofNat k)) (by decide)

end ByteAtlas
