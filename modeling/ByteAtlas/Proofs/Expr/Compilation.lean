import ByteAtlas.Expr.Compile

/-!
# Compiling in parts

The compiler tells the shape of a span and compiles its parts. Said without the lengths for which it
keeps proofs at hand: what becomes of a shape once its parts are compiled (`ExprShape.compiled`,
`QueryShape.compiled`), and that compiling a span is compiling its shape (`compileExpr_eq`,
`compileQuery_eq`).
-/

namespace ByteAtlas

/-! ## 1. Expressions -/

/-- The tree of a query that may be left out. -/
def compileQuery? (q : Option Span) (depth : Nat) : Compiled (Option Query) :=
  match q with
  | none => ⟨none, []⟩
  | some s =>
    let q := compileQuery s depth
    ⟨some q.tree, q.diagnostics⟩

/-- **The tree of a shape.** -/
def ExprShape.compiled (depth : Nat) : ExprShape → Compiled Expr
  | constant n => ⟨.constant n, []⟩
  | enclosed inner => compileExpr inner (depth + 1)
  | binary op left right =>
    let a := compileExpr left depth
    let b := compileExpr right depth
    ⟨.binary op a.tree b.tree, a.diagnostics ++ b.diagnostics⟩
  | unary op operand =>
    let a := compileExpr operand (depth + 1)
    ⟨.unary op a.tree, a.diagnostics⟩
  | rawRead type offset =>
    let a := compileExpr offset (depth + 1)
    ⟨.rawRead type a.tree, a.diagnostics⟩
  | member ref =>
    let q := compileQuery? ref.query (depth + 1)
    ⟨.member q.tree ref.name none ref.isOffset, q.diagnostics⟩
  | element ref index =>
    let q := compileQuery? ref.query (depth + 2)
    let i := compileExpr index (depth + 1)
    ⟨.member q.tree ref.name (some i.tree) ref.isOffset, q.diagnostics ++ i.diagnostics⟩
  | structOffset query =>
    let q := compileQuery query (depth + 1)
    ⟨.structOffset q.tree, q.diagnostics⟩
  | previewTest ref text invert =>
    let q := compileQuery? ref.query (depth + 2)
    match text with
    | .ok t => ⟨.previewTest q.tree ref.name t invert, q.diagnostics⟩
    | .error d => ⟨.error, q.diagnostics ++ [d]⟩
  | instanceId query =>
    let q := compileQuery? query (depth + 1)
    ⟨.instanceId q.tree, q.diagnostics⟩

/-- **Compiling a span is compiling its shape.** -/
theorem compileExpr_eq (s : Span) (depth : Nat) :
    compileExpr s depth =
      if depth > nestingLimit then ⟨.error, [⟨s.pos, .nestingTooDeep⟩]⟩
      else
        match exprShape s with
        | .error d => ⟨.error, [d]⟩
        | .ok sh => sh.compiled depth := by
  rw [compileExpr]
  split
  · rfl
  · split <;> rename_i h <;> simp only [h, ExprShape.compiled]
    · rename_i ref
      cases hq : ref.query <;> simp only [compileQuery?]
    · rename_i ref _
      cases hq : ref.query <;> simp only [compileQuery?, List.nil_append]
    · rename_i ref text _
      cases hq : ref.query <;> cases text <;> simp only [compileQuery?, List.nil_append]
    · rfl
    · rfl

/-! ## 2. Queries -/

/-- The filters of a query, all of them, or the first that is bad. -/
def compiledFilters (depth : Nat) : List FilterShape → Compiled (Except Diagnostic Filters)
  | [] => ⟨.ok .none, []⟩
  | .bad d :: _ => ⟨.error d, []⟩
  | .text condition :: fs =>
    let rest := compiledFilters depth fs
    ⟨rest.tree.map fun r => .mk (condition :: r.texts) r.values r.selector, rest.diagnostics⟩
  | .value name expr :: fs =>
    let e := compileExpr expr (depth + 1)
    let rest := compiledFilters depth fs
    ⟨rest.tree.map fun r => .mk r.texts ((name, e.tree) :: r.values) r.selector,
      e.diagnostics ++ rest.diagnostics⟩
  | .selector expr :: fs =>
    let e := compileExpr expr (depth + 1)
    let rest := compiledFilters depth fs
    ⟨rest.tree.map fun r => .mk r.texts r.values (r.selector.or (some e.tree)),
      e.diagnostics ++ rest.diagnostics⟩

theorem compileFilters_eq (n depth : Nat) : ∀ (fs : List FilterShape)
    (hn : ∀ t ∈ fs.flatMap FilterShape.parts, t.length < n),
    compileFilters n fs hn depth = compiledFilters depth fs
  | [], hn => by rw [compileFilters, compiledFilters]
  | f :: fs, hn => by
    have ih := compileFilters_eq n depth fs fun t ht => hn t (List.mem_append_right _ ht)
    cases f <;> rw [compileFilters] <;> simp only [compiledFilters, ih]

/-- What becomes of the head of a query, its filters being given. -/
def QueryHead.compiled (filters : Filters) (depth : Nat) : QueryHead → Compiled Query
  | root name isGlobal => ⟨.root name isGlobal filters, []⟩
  | bad d => ⟨.error, [d]⟩
  | sub parent field =>
    let p := compileQuery? parent (depth + 1)
    ⟨.sub p.tree field filters, p.diagnostics⟩

/-- The tree of the shape of a query. -/
def QueryShape.compiled (depth : Nat) (q : QueryShape) : Compiled Query :=
  let fs := compiledFilters depth q.filters
  match fs.tree with
  | .error d => ⟨.error, fs.diagnostics ++ [d]⟩
  | .ok filters =>
    let head := q.head.compiled filters depth
    ⟨head.tree, fs.diagnostics ++ head.diagnostics⟩

/-- **The same for a query.** -/
theorem compileQuery_eq (s : Span) (depth : Nat) :
    compileQuery s depth =
      if depth > nestingLimit then ⟨.error, [⟨s.pos, .nestingTooDeep⟩]⟩
      else
        match queryShape s with
        | .error d => ⟨.error, [d]⟩
        | .ok q => q.compiled depth := by
  rw [compileQuery]
  split
  · rfl
  · split <;> rename_i h <;> simp only [h, QueryShape.compiled, compileFilters_eq]
    rename_i q
    cases (compiledFilters depth q.filters).tree with
    | error d => rfl
    | ok filters =>
      cases q.head with
      | root _ _ => simp only [QueryHead.compiled, List.append_nil]
      | bad _ => rfl
      | sub parent _ => cases parent <;> simp only [QueryHead.compiled, compileQuery?, List.append_nil]

end ByteAtlas
