import ByteAtlas.Proofs.Expr.Folding
import ByteAtlas.Proofs.Expr.OpenCalls

/-!
# Trees are shallow

However long a text is, its tree has no more binary operations than the limit allows operators, and
no path down the tree is longer than that limit and the levels of nesting together. So compiling the
text, evaluating the tree, writing its outline and whatever else goes down a tree node by node need
room for so many calls at a time and no more (`Expr.compile_shallow`).

The operations are counted by induction on the length of a span: the parts that a shape is read from
have no more operators than the span, less the one between them (`compileExpr_binaries`).
-/

namespace ByteAtlas

/-! ## 1. Operations -/

/-- **A span that compiles to no more operations than it has operators**, at any depth. -/
structure Span.Counts (s : Span) : Prop where
  expr : ∀ depth, (compileExpr s depth).tree.tally 1 0 ≤ s.operators
  query : ∀ depth, (compileQuery s depth).tree.tally 1 0 ≤ s.operators

section

/-- A query that may be left out. -/
theorem counts_query? {q : Option Span} (h : ∀ t ∈ q.toList, t.Counts) (depth : Nat) :
    (compileQuery? q depth).tree.elim 0 (Query.tally 1 0) ≤
      (q.toList.map Span.operators).sum := by
  cases q with
  | none => exact Nat.zero_le _
  | some t => exact (h t (by simp)).query depth

/-- **The operations of a shape**, one case for each shape. -/
theorem ExprShape.counts {sh : ExprShape} (h : ∀ t ∈ sh.parts, t.Counts) (depth : Nat) :
    (sh.compiled depth).tree.tally 1 0 ≤ (sh.parts.map Span.operators).sum + sh.ownOperators := by
  cases sh <;> simp only [compiled, parts, ownOperators, Nat.add_zero]
  case constant n => simp [Expr.tally]
  case enclosed inner =>
    have hinner := (h inner (by simp [parts])).expr (depth + 1)
    simpa using hinner
  case binary op left right =>
    have hleft := (h left (by simp [parts])).expr depth
    have hright := (h right (by simp [parts])).expr depth
    simpa [Expr.tally] using Nat.add_le_add hleft hright
  case unary op operand =>
    have hoperand := (h operand (by simp [parts])).expr (depth + 1)
    simpa [Expr.tally] using hoperand
  case rawRead type offset =>
    have hoffset := (h offset (by simp [parts])).expr (depth + 1)
    simpa [Expr.tally] using hoffset
  case member ref =>
    rw [Expr.tally_member]
    exact counts_query? h (depth + 1)
  case element ref index =>
    have hindex := (h index List.mem_cons_self).expr (depth + 1)
    have hquery := counts_query? (fun t ht => h t (List.mem_cons_of_mem _ ht)) (depth + 2)
    rw [Expr.tally_member, List.map_cons, List.sum_cons, Nat.add_comm]
    exact Nat.add_le_add hindex hquery
  case structOffset query =>
    have hquery := (h query (by simp [parts])).query (depth + 1)
    simpa [Expr.tally] using hquery
  case previewTest ref text invert =>
    cases text with
    | ok text =>
      rw [Expr.tally_previewTest]
      exact counts_query? h (depth + 2)
    | error d => simp [Expr.tally]
  case instanceId q =>
    rw [Expr.tally_instanceId]
    exact counts_query? h (depth + 1)

/-- **The operations of the filters of a step**, by induction on them. -/
theorem counts_filters (depth : Nat) : ∀ {fs : List FilterShape},
    (∀ t ∈ fs.flatMap FilterShape.parts, t.Counts) →
    ∀ filters, (compiledFilters depth fs).tree = .ok filters →
      filters.tally 1 0 ≤ ((fs.flatMap FilterShape.parts).map Span.operators).sum
  | [], _, _, h => by
    cases h
    exact Nat.zero_le _
  | f :: fs, h, filters, hfilters => by
    have hrest := counts_filters depth fun t ht => h t (List.mem_append_right _ ht)
    have hpart (e : Span) (he : e ∈ f.parts) := (h e (List.mem_append_left _ he)).expr (depth + 1)
    cases f with
    | bad d => cases hfilters
    | text condition =>
      obtain ⟨⟨texts, values, selector⟩, hok, rfl⟩ := exists_of_map_eq_ok hfilters
      have hle := hrest _ hok
      rw [Filters.tally_mk] at hle ⊢
      exact hle
    | value name e =>
      have he := hpart e (by simp [FilterShape.parts])
      obtain ⟨⟨texts, values, selector⟩, hok, rfl⟩ := exists_of_map_eq_ok hfilters
      have hle := hrest _ hok
      exact (Nat.le_of_eq (Filters.tally_mk_value ..)).trans (Nat.add_le_add he hle)
    | selector e =>
      have he := hpart e (by simp [FilterShape.parts])
      obtain ⟨⟨texts, values, selector⟩, hok, rfl⟩ := exists_of_map_eq_ok hfilters
      have hle := hrest _ hok
      exact (Filters.tally_mk_selector_le ..).trans (Nat.add_le_add he hle)

/-- **The operations of the shape of a query.** -/
theorem QueryShape.counts {q : QueryShape} (h : ∀ t ∈ q.parts, t.Counts) (depth : Nat) :
    (q.compiled depth).tree.tally 1 0 ≤ (q.parts.map Span.operators).sum := by
  have hfilters := counts_filters depth fun t ht => h t (List.mem_append_right _ ht)
  have hparent : ∀ t ∈ q.head.parts, t.Counts := fun t ht => h t (List.mem_append_left _ ht)
  rw [parts, List.map_append, List.sum_append, compiled]
  cases hc : (compiledFilters depth q.filters).tree with
  | error d => simp [Query.tally]
  | ok filters =>
    have hle := hfilters filters hc
    cases hhead : q.head with
    | root name isGlobal =>
      simp only [QueryHead.compiled, Query.tally]
      exact hle.trans (Nat.le_add_left _ _)
    | bad d => simp [QueryHead.compiled, Query.tally]
    | sub parent field =>
      rw [hhead] at hparent
      have hquery := counts_query? hparent (depth + 1)
      simp only [QueryHead.compiled]
      rw [Query.tally_sub]
      exact Nat.add_le_add hquery hle

end

mutual

/-- **An expression has no more operations than its span has operators**, by induction on its
length. -/
theorem compileExpr_binaries (s : Span) (depth : Nat) :
    (compileExpr s depth).tree.tally 1 0 ≤ s.operators := by
  rw [compileExpr_eq]
  split
  · simp [Expr.tally]
  · cases h : exprShape s with
    | error d => simp [Expr.tally]
    | ok sh =>
      have hparts : ∀ t ∈ sh.parts, t.Counts := fun t ht =>
        ⟨fun depth => compileExpr_binaries t depth, fun depth => compileQuery_binaries t depth⟩
      exact (ExprShape.counts hparts depth).trans (exprShape_operators h)
termination_by s.length
decreasing_by
  all_goals exact exprShape_parts h ht

/-- **A query has no more operations than its span has operators.** -/
theorem compileQuery_binaries (s : Span) (depth : Nat) :
    (compileQuery s depth).tree.tally 1 0 ≤ s.operators := by
  rw [compileQuery_eq]
  split
  · simp [Query.tally]
  · cases h : queryShape s with
    | error d => simp [Query.tally]
    | ok q =>
      have hparts : ∀ t ∈ q.parts, t.Counts := fun t ht =>
        ⟨fun depth => compileExpr_binaries t depth, fun depth => compileQuery_binaries t depth⟩
      exact (QueryShape.counts hparts depth).trans (queryShape_operators h)
termination_by s.length
decreasing_by
  all_goals exact queryShape_parts h ht

end

/-! ## 2. Whole texts -/

theorem Expr.compile_binaries (source : String) :
    (Expr.compile source).tree.binaries ≤ operatorLimit := by
  unfold Expr.compile compileTokens
  split
  · exact Nat.zero_le _
  · split
    · exact Nat.zero_le _
    · rename_i ls _ _ hpast
      exact (compileExpr_binaries _ 0).trans (operatorPastLimit?_eq_none_iff.mp hpast)

/-- **A text needs room for the operators allowed and for all levels.** -/
theorem Expr.compile_fits {room : Nat} (hroom : operatorLimit + levelsLeft 0 ≤ room)
    (source : String) :
    Expr.compileIn room source = some (Expr.compile source) ∧
      (Expr.compile source).tree.height ≤ room := by
  have herror : Expr.error.height ≤ room := by
    have hpos := levelsLeft_pos 0
    rw [height]
    omega
  unfold Expr.compileIn Expr.compile
  cases tokenize source with
  | error d => exact ⟨rfl, herror⟩
  | ok ls =>
    simp only [compileTokens]
    cases hpast : operatorPastLimit? ls with
    | some l => exact ⟨rfl, herror⟩
    | none =>
      have hle := operatorPastLimit?_eq_none_iff.mp hpast
      have hfits : Span.Fits room ⟨ls, source.utf8ByteSize⟩ 0 :=
        Span.fits ((Nat.add_le_add_right hle _).trans hroom)
      exact ⟨hfits.expr, hfits.expr_height⟩

/-- **Trees are shallow**, whatever the text is. The tree has at most 256 binary operations, those
in indexes and filters included, and on no path down from its root are there more than 256 + 34
expressions and queries.

So at most that many calls of the compiler are open at a time; and evaluating the tree in any
environment, writing its outline and everything else that goes down the tree node by node (as
dropping it does) has at most that many calls open as well. -/
theorem Expr.compile_shallow (source : String) :
    (Expr.compile source).tree.binaries ≤ 256 ∧
      (Expr.compile source).tree.height ≤ 256 + 34 ∧
      Expr.compileIn (256 + 34) source = some (Expr.compile source) ∧
      (∀ {m : Type → Type} [Monad m] {ι : Type} (env : Environment m ι),
        (Expr.compile source).tree.foldIn (.evaluation env) (256 + 34) =
          some ((Expr.compile source).tree.evaluate env)) ∧
      (Expr.compile source).tree.foldIn .outlining (256 + 34) =
        some (fun level => (Expr.compile source).tree.outlineAt level) ∧
      ∀ {α β : Type} (f : TreeFold α β),
        (Expr.compile source).tree.foldIn f (256 + 34) =
          some ((Expr.compile source).tree.fold f) := by
  have hroom : operatorLimit + levelsLeft 0 ≤ 256 + 34 := by decide
  obtain ⟨hcalls, hheight⟩ := Expr.compile_fits hroom source
  have hfold {α β : Type} (f : TreeFold α β) := (foldsIn (f := f) (256 + 34)).1 _ hheight
  refine ⟨Expr.compile_binaries source, hheight, hcalls, fun env => ?_, ?_, hfold⟩
  · rw [hfold, Expr.fold_evaluation]
  · rw [hfold]
    exact congrArg some (funext fun level => Expr.fold_outlining _ level)

end ByteAtlas
