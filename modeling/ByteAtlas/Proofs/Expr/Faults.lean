import ByteAtlas.Proofs.Expr.Boundaries
import ByteAtlas.Proofs.Expr.Compilation
import ByteAtlas.Proofs.Expr.Runs
import ByteAtlas.Proofs.Expr.Tallies

/-!
# No error goes unreported

Wherever the compiler puts an error node into a tree, it says what is wrong and where. `Reported`
bounds the error nodes by the diagnostics and puts each diagnostic at a place of the span; it is
kept when parts are put together and when a part is dropped, and so holds of every expression and
every query (`compileExpr_reported`, `compileQuery_reported`). For a whole text the places are
character boundaries of the text (`Expr.compile_reported`).
-/

namespace ByteAtlas

/-! ## 1. Counting errors -/

/-- How many error nodes a query has. -/
def Query.errors (q : Query) : Nat := q.tally 0 1

/-- How many error nodes the filters of a step have. -/
def Filters.errors (fs : Filters) : Nat := fs.tally 0 1

namespace Expr

variable (q : Option Query) (name : String)

@[simp] theorem errors_constant (n : Int64) : (constant n).errors = 0 := by
  rw [errors, tally]

@[simp] theorem errors_error : error.errors = 1 := by
  rw [errors, tally]

@[simp] theorem errors_unary (op : UnaryOp) (a : Expr) : (unary op a).errors = a.errors := by
  rw [errors, tally, errors]

@[simp] theorem errors_binary (op : BinaryOp) (a b : Expr) :
    (binary op a b).errors = a.errors + b.errors := by
  rw [errors, tally, errors, errors, Nat.add_zero]

@[simp] theorem errors_rawRead (type : IntType) (a : Expr) : (rawRead type a).errors = a.errors := by
  rw [errors, tally, errors]

@[simp] theorem errors_member (index : Option Expr) (isOffset : Bool) :
    (member q name index isOffset).errors = q.elim 0 Query.errors + index.elim 0 errors :=
  tally_member 0 1 q name index isOffset

@[simp] theorem errors_structOffset (q : Query) : (structOffset q).errors = q.errors := by
  rw [errors, tally, Query.errors]

@[simp] theorem errors_previewTest (text : String) (invert : Bool) :
    (previewTest q name text invert).errors = q.elim 0 Query.errors :=
  tally_previewTest 0 1 q name text invert

@[simp] theorem errors_instanceId : (instanceId q).errors = q.elim 0 Query.errors :=
  tally_instanceId 0 1 q

end Expr

namespace Query

variable (name : String) (fs : Filters)

@[simp] theorem errors_error : error.errors = 1 := by
  rw [errors, tally]

@[simp] theorem errors_root (isGlobal : Bool) : (root name isGlobal fs).errors = fs.errors := by
  rw [errors, tally, Filters.errors]

@[simp] theorem errors_sub (parent : Option Query) :
    (sub parent name fs).errors = parent.elim 0 errors + fs.errors :=
  tally_sub 0 1 parent name fs

end Query

/-! ## 2. Errors and their diagnostics -/

/-- **Error nodes of a span that have been reported**: there are at least as many diagnostics, and
each is at a place of the span. -/
structure Reported (s : Span) (errors : Nat) (ds : List Diagnostic) : Prop where
  counted : errors ≤ ds.length
  placed : ∀ d ∈ ds, s.IsPlace d.pos

namespace Reported

variable {s t : Span} {m n : Nat} {ds es : List Diagnostic}

theorem none (s : Span) : Reported s 0 [] :=
  ⟨Nat.le_refl _, fun _ hd => nomatch hd⟩

theorem single {d : Diagnostic} (h : s.IsPlace d.pos) : Reported s 1 [d] :=
  ⟨Nat.le_refl _, fun d' hd => by rw [List.mem_singleton.mp hd]; exact h⟩

theorem append (h₁ : Reported s m ds) (h₂ : Reported s n es) : Reported s (m + n) (ds ++ es) where
  counted := by
    rw [List.length_append]
    exact Nat.add_le_add h₁.counted h₂.counted
  placed := List.forall_mem_append.mpr ⟨h₁.placed, h₂.placed⟩

/-- Dropping a part drops its error nodes, not what was said about them. -/
theorem mono (h : Reported s n ds) (hm : m ≤ n) : Reported s m ds :=
  ⟨Nat.le_trans hm h.counted, h.placed⟩

/-- What is reported of a run is reported of the whole. -/
theorem within (h : Reported t n ds) (ht : t.Within s) : Reported s n ds :=
  ⟨h.counted, fun d hd => ht.isPlace (h.placed d hd)⟩

end Reported

/-! ## 3. Parts put together -/

section

variable {s : Span}

/-- What the parts of a span, compiled at any depth, must satisfy. -/
structure PartsReported (s : Span) (parts : List Span) : Prop where
  exprs : ∀ t ∈ parts, ∀ depth,
    Reported s (compileExpr t depth).tree.errors (compileExpr t depth).diagnostics
  queries : ∀ t ∈ parts, ∀ depth,
    Reported s ((compileQuery t depth).tree.errors) (compileQuery t depth).diagnostics

/-- A query that may be left out. -/
theorem PartsReported.query? {q : Option Span} {parts : List Span} (h : PartsReported s parts)
    (hq : ∀ t ∈ q.toList, t ∈ parts) (depth : Nat) :
    Reported s ((compileQuery? q depth).tree.elim 0 Query.errors)
      (compileQuery? q depth).diagnostics := by
  cases q with
  | none => exact .none s
  | some t => exact h.queries t (hq t (by simp)) depth

/-- **An expression put together from its parts**, one case for each shape. -/
theorem ExprShape.reported {sh : ExprShape} (h : PartsReported s sh.parts)
    (htext : ∀ ref d invert, sh = .previewTest ref (.error d) invert → s.IsPlace d.pos)
    (depth : Nat) : Reported s (sh.compiled depth).tree.errors (sh.compiled depth).diagnostics := by
  cases sh <;> simp only [compiled]
  case constant n => simpa using Reported.none s
  case enclosed inner => exact h.exprs inner (by simp [parts]) _
  case binary op left right =>
    simpa using (h.exprs left (by simp [parts]) _).append (h.exprs right (by simp [parts]) _)
  case unary op operand => simpa using h.exprs operand (by simp [parts]) _
  case rawRead type offset => simpa using h.exprs offset (by simp [parts]) _
  case member ref => simpa using h.query? (fun _ ht => ht) _
  case element ref index =>
    simpa using (h.query? (fun _ ht => List.mem_cons_of_mem _ ht) _).append
      (h.exprs index List.mem_cons_self _)
  case structOffset query => simpa using h.queries query (by simp [parts]) _
  case previewTest ref text invert =>
    have hquery := h.query? (fun _ ht => ht) (depth + 2)
    cases text with
    | ok text => simpa using hquery
    | error d =>
      -- The query that was compiled before the text is dropped.
      have htext := Reported.single (htext ref d invert rfl)
      simpa using (hquery.append htext).mono (Nat.le_add_left _ _)
  case instanceId query => simpa using h.query? (fun _ ht => ht) _

/-- **The filters of a step**, by induction on them. Those before a bad one are dropped with it, and
so is a selector before another one. -/
theorem compiledFilters_reported (depth : Nat) : ∀ {fs : List FilterShape},
    PartsReported s (fs.flatMap FilterShape.parts) →
    match (compiledFilters depth fs).tree with
    | .ok filters => Reported s (filters.errors) (compiledFilters depth fs).diagnostics
    | .error d => .bad d ∈ fs ∧ Reported s 0 (compiledFilters depth fs).diagnostics
  | [], _ => .none s
  | f :: fs, h => by
    have hparts : PartsReported s (fs.flatMap FilterShape.parts) :=
      ⟨fun t ht => h.exprs t (List.mem_append_right _ ht),
        fun t ht => h.queries t (List.mem_append_right _ ht)⟩
    have hrest := compiledFilters_reported depth hparts
    have hhead (e : Span) (he : e ∈ f.parts) := h.exprs e (List.mem_append_left _ he) (depth + 1)
    cases f with
    | bad d => exact ⟨List.mem_cons_self, .none s⟩
    | text condition =>
      simp only [compiledFilters]
      cases hc : (compiledFilters depth fs).tree with
      | error d =>
        rw [hc] at hrest
        exact ⟨List.mem_cons_of_mem _ hrest.1, hrest.2⟩
      | ok rest =>
        rw [hc] at hrest
        obtain ⟨texts, values, selector⟩ := rest
        refine hrest.mono (Nat.le_of_eq ?_)
        rw [Filters.errors, Filters.errors, Filters.tally_mk, Filters.tally_mk]
        rfl
    | value name e =>
      have he := hhead e (by simp [FilterShape.parts])
      simp only [compiledFilters]
      cases hc : (compiledFilters depth fs).tree with
      | error d =>
        rw [hc] at hrest
        exact ⟨List.mem_cons_of_mem _ hrest.1, (he.append hrest.2).mono (Nat.zero_le _)⟩
      | ok rest =>
        rw [hc] at hrest
        obtain ⟨texts, values, selector⟩ := rest
        exact (he.append hrest).mono (Nat.le_of_eq (Filters.tally_mk_value ..))
    | selector e =>
      have he := hhead e (by simp [FilterShape.parts])
      simp only [compiledFilters]
      cases hc : (compiledFilters depth fs).tree with
      | error d =>
        rw [hc] at hrest
        exact ⟨List.mem_cons_of_mem _ hrest.1, (he.append hrest.2).mono (Nat.zero_le _)⟩
      | ok rest =>
        rw [hc] at hrest
        obtain ⟨texts, values, selector⟩ := rest
        exact (he.append hrest).mono (Filters.tally_mk_selector_le ..)

/-- **A query put together from its head and its filters.** -/
theorem QueryShape.reported {q : QueryShape} (h : PartsReported s q.parts)
    (hbad : ∀ d, q.head = .bad d ∨ .bad d ∈ q.filters → s.IsPlace d.pos) (depth : Nat) :
    Reported s ((q.compiled depth).tree.errors) (q.compiled depth).diagnostics := by
  have hparts : PartsReported s (q.filters.flatMap FilterShape.parts) :=
    ⟨fun t ht => h.exprs t (List.mem_append_right _ ht),
      fun t ht => h.queries t (List.mem_append_right _ ht)⟩
  have hfilters := compiledFilters_reported depth hparts
  have hparent : PartsReported s q.head.parts :=
    ⟨fun t ht => h.exprs t (List.mem_append_left _ ht),
      fun t ht => h.queries t (List.mem_append_left _ ht)⟩
  unfold compiled
  cases hc : (compiledFilters depth q.filters).tree with
  | error d =>
    rw [hc] at hfilters
    simpa [hc] using hfilters.2.append (.single (hbad d (.inr hfilters.1)))
  | ok filters =>
    rw [hc] at hfilters
    cases hhead : q.head with
    | root name isGlobal => simpa [hc, QueryHead.compiled] using hfilters
    | bad d =>
      have hhead := Reported.single (hbad d (.inl hhead))
      simpa [hc, QueryHead.compiled] using (hfilters.append hhead).mono (Nat.le_add_left _ _)
    | sub parent field =>
      rw [hhead] at hparent
      have hparent := hparent.query? (fun _ ht => ht) (depth + 1)
      simpa [hc, QueryHead.compiled, Nat.add_comm] using hfilters.append hparent

end

/-! ## 4. Expressions and queries -/

mutual

/-- **The error nodes of an expression are reported**, by induction on its length. -/
theorem compileExpr_reported (s : Span) (depth : Nat) :
    Reported s (compileExpr s depth).tree.errors (compileExpr s depth).diagnostics := by
  rw [compileExpr_eq]
  split
  · simpa using Reported.single s.isPlace_pos
  · cases h : exprShape s with
    | error d => simpa using Reported.single (exprShape_isPlace h)
    | ok sh =>
      have hparts : PartsReported s sh.parts :=
        ⟨fun t ht depth => (compileExpr_reported t depth).within (exprShape_within h ht),
          fun t ht depth => (compileQuery_reported t depth).within (exprShape_within h ht)⟩
      refine ExprShape.reported hparts (fun ref d invert hsh => ?_) depth
      subst hsh
      rw [exprShape_text_pos h]
      exact s.isPlace_pos
termination_by s.length
decreasing_by
  all_goals exact exprShape_parts h ht

/-- **The error nodes of a query are reported.** -/
theorem compileQuery_reported (s : Span) (depth : Nat) :
    Reported s ((compileQuery s depth).tree.errors) (compileQuery s depth).diagnostics := by
  rw [compileQuery_eq]
  split
  · simpa using Reported.single s.isPlace_pos
  · cases h : queryShape s with
    | error d => simpa using Reported.single (queryShape_isPlace h)
    | ok q =>
      have hparts : PartsReported s q.parts :=
        ⟨fun t ht depth => (compileExpr_reported t depth).within (queryShape_within h ht),
          fun t ht depth => (compileQuery_reported t depth).within (queryShape_within h ht)⟩
      exact QueryShape.reported hparts (fun d hd => queryShape_bad_isPlace h hd) depth
termination_by s.length
decreasing_by
  all_goals exact queryShape_parts h ht

end

/-! ## 5. Whole texts -/

theorem compileTokens_reported (s : Span) :
    Reported s (compileTokens s).tree.errors (compileTokens s).diagnostics := by
  unfold compileTokens
  split
  · rename_i l hl
    unfold operatorPastLimit? at hl
    obtain ⟨mark, hmark, rfl⟩ := Option.map_eq_some_iff.mp hl
    have hmem := (List.mem_filter.mp (List.mem_of_getElem? hmark)).1
    simpa using Reported.single (Span.isPlace_of_mem (s := s) (List.of_mem_zip hmem).1)
  · exact compileExpr_reported s 0

/-- A place among the tokens of a text is a boundary of the text. -/
theorem Span.IsPlace.isBoundary {source : String} {ls : List Lexeme} {p : Nat}
    (h : (⟨ls, source.utf8ByteSize⟩ : Span).IsPlace p) (hls : tokenize source = .ok ls) :
    IsBoundary source.toList p := by
  rcases h with rfl | ⟨l, hl, rfl⟩
  · exact isBoundary_utf8ByteSize source
  · exact tokenize_isBoundary hls hl

/-- **No error goes unreported.** A tree has at most as many error nodes as the compiler has said
things about the text; so a text about which it says nothing has a tree without any. And what it
says, it says of a position between two characters of the text, or at its end. -/
theorem Expr.compile_reported (source : String) :
    (Expr.compile source).tree.errors ≤ (Expr.compile source).diagnostics.length ∧
      (∀ e, Expr.compile? source = .ok e → e = (Expr.compile source).tree ∧ e.errors = 0) ∧
      ∀ d ∈ (Expr.compile source).diagnostics,
        String.Pos.Raw.IsValid source ⟨d.pos⟩ ∧ d.pos ≤ source.utf8ByteSize := by
  have hmain : (Expr.compile source).tree.errors ≤ (Expr.compile source).diagnostics.length ∧
      ∀ d ∈ (Expr.compile source).diagnostics, IsBoundary source.toList d.pos := by
    unfold Expr.compile
    split
    · rename_i d hd
      refine ⟨Nat.le_refl _, fun d' hd' => ?_⟩
      rw [List.mem_singleton.mp hd']
      exact tokenize_error_isBoundary hd
    · rename_i ls hls
      have hreported := compileTokens_reported ⟨ls, source.utf8ByteSize⟩
      exact ⟨hreported.counted, fun d hd => (hreported.placed d hd).isBoundary hls⟩
  refine ⟨hmain.1, fun e he => ?_, fun d hd => ?_⟩
  · unfold Expr.compile? at he
    simp only at he
    split at he
    · rename_i hclean
      cases he
      refine ⟨rfl, Nat.le_zero.mp ?_⟩
      have hcount := hmain.1
      rw [hclean] at hcount
      exact hcount
    · cases he
  · have hvalid := (hmain.2 d hd).isValid
    exact ⟨hvalid, hvalid.le_rawEndPos⟩

end ByteAtlas
