import ByteAtlas.Expr.Shape

/-!
# Compiling expressions

`Expr.compile` turns the text of an expression into a tree. It always gives one: a part that cannot
be read becomes an `error` node, and each fault is reported as a `Diagnostic`, in the order in which
the faults are found. Two limits keep trees shallow: parts lie in each other at most `nestingLimit`
deep, and a text with more than `operatorLimit` binary operators is not read at all.

A span's shape (`exprShape`, `queryShape`) gives its parts, which are shorter, so the recursion
ends.
-/

namespace ByteAtlas

/-- A tree and the faults found on the way to it. -/
structure Compiled (α : Type) where
  tree : α
  diagnostics : List Diagnostic
  deriving Repr

/-- The most binary operators in one text, those inside brackets included. -/
def operatorLimit : Nat := 256

mutual

/-- The tree of an expression that lies `depth` levels deep. -/
def compileExpr (s : Span) (depth : Nat) : Compiled Expr :=
  if depth > nestingLimit then ⟨.error, [⟨s.pos, .nestingTooDeep⟩]⟩
  else
    match _h : exprShape s with
    | .error d => ⟨.error, [d]⟩
    | .ok (.constant n) => ⟨.constant n, []⟩
    | .ok (.enclosed inner) => compileExpr inner (depth + 1)
    | .ok (.binary op left right) =>
      let a := compileExpr left depth
      let b := compileExpr right depth
      ⟨.binary op a.tree b.tree, a.diagnostics ++ b.diagnostics⟩
    | .ok (.unary op operand) =>
      let a := compileExpr operand (depth + 1)
      ⟨.unary op a.tree, a.diagnostics⟩
    | .ok (.rawRead type offset) =>
      let a := compileExpr offset (depth + 1)
      ⟨.rawRead type a.tree, a.diagnostics⟩
    | .ok (.member ref) =>
      match _hq : ref.query with
      | none => ⟨.member none ref.name none ref.isOffset, []⟩
      | some query =>
        let q := compileQuery query (depth + 1)
        ⟨.member (some q.tree) ref.name none ref.isOffset, q.diagnostics⟩
    | .ok (.element ref index) =>
      let i := compileExpr index (depth + 1)
      match _hq : ref.query with
      | none => ⟨.member none ref.name (some i.tree) ref.isOffset, i.diagnostics⟩
      | some query =>
        let q := compileQuery query (depth + 2)
        ⟨.member (some q.tree) ref.name (some i.tree) ref.isOffset,
          q.diagnostics ++ i.diagnostics⟩
    | .ok (.structOffset query) =>
      let q := compileQuery query (depth + 1)
      ⟨.structOffset q.tree, q.diagnostics⟩
    | .ok (.previewTest ref text invert) =>
      match _hq : ref.query with
      | none =>
        match text with
        | .ok t => ⟨.previewTest none ref.name t invert, []⟩
        | .error d => ⟨.error, [d]⟩
      | some query =>
        let q := compileQuery query (depth + 2)
        match text with
        | .ok t => ⟨.previewTest (some q.tree) ref.name t invert, q.diagnostics⟩
        | .error d => ⟨.error, q.diagnostics ++ [d]⟩
    | .ok (.instanceId none) => ⟨.instanceId none, []⟩
    | .ok (.instanceId (some query)) =>
      let q := compileQuery query (depth + 1)
      ⟨.instanceId (some q.tree), q.diagnostics⟩
termination_by (s.length, 1, 0)
decreasing_by
  all_goals
    apply Prod.Lex.left
    apply exprShape_parts _h
    simp [ExprShape.parts, *]

/-- The tree of a query that lies `depth` levels deep. Its filters come before its parent. -/
def compileQuery (s : Span) (depth : Nat) : Compiled Query :=
  if depth > nestingLimit then ⟨.error, [⟨s.pos, .nestingTooDeep⟩]⟩
  else
    match h : queryShape s with
    | .error d => ⟨.error, [d]⟩
    | .ok q =>
      let fs := compileFilters s.length q.filters
        (fun _ ht => queryShape_parts h (List.mem_append_right _ ht)) depth
      match fs.tree with
      | .error d => ⟨.error, fs.diagnostics ++ [d]⟩
      | .ok filters =>
        match _hq : q.head with
        | .root name isGlobal => ⟨.root name isGlobal filters, fs.diagnostics⟩
        | .bad d => ⟨.error, fs.diagnostics ++ [d]⟩
        | .sub none field => ⟨.sub none field filters, fs.diagnostics⟩
        | .sub (some parent) field =>
          let p := compileQuery parent (depth + 1)
          ⟨.sub (some p.tree) field filters, fs.diagnostics ++ p.diagnostics⟩
termination_by (s.length, 1, 0)
decreasing_by
  · apply Prod.Lex.right
    apply Prod.Lex.left
    decide
  · apply Prod.Lex.left
    apply queryShape_parts h
    simp [QueryShape.parts, QueryHead.parts, _hq]

/-- The filters of a query of `n` tokens, which lies `depth` levels deep: all of them, or the first
    that is bad. Of several selectors the last counts. -/
def compileFilters (n : Nat) (fs : List FilterShape)
    (hn : ∀ t ∈ fs.flatMap FilterShape.parts, t.length < n) (depth : Nat) :
    Compiled (Except Diagnostic Filters) :=
  match fs with
  | [] => ⟨.ok .none, []⟩
  | f :: fs =>
    have hfs : ∀ t ∈ fs.flatMap FilterShape.parts, t.length < n :=
      fun t ht => hn t (List.mem_append_right _ ht)
    match f with
    | .bad d => ⟨.error d, []⟩
    | .text condition =>
      let rest := compileFilters n fs hfs depth
      ⟨rest.tree.map fun r => .mk (condition :: r.texts) r.values r.selector, rest.diagnostics⟩
    | .value name expr =>
      let e := compileExpr expr (depth + 1)
      let rest := compileFilters n fs hfs depth
      ⟨rest.tree.map fun r => .mk r.texts ((name, e.tree) :: r.values) r.selector,
        e.diagnostics ++ rest.diagnostics⟩
    | .selector expr =>
      let e := compileExpr expr (depth + 1)
      let rest := compileFilters n fs hfs depth
      ⟨rest.tree.map fun r => .mk r.texts r.values (r.selector.or (some e.tree)),
        e.diagnostics ++ rest.diagnostics⟩
termination_by (n, 0, fs.length)
decreasing_by
  all_goals first
    | apply Prod.Lex.left
      apply hn
      simp [FilterShape.parts]
    | apply Prod.Lex.right
      apply Prod.Lex.right
      simp

end

/-- The first token past the most binary operators allowed, anywhere in a text. -/
def operatorPastLimit? (lexemes : List Lexeme) : Option Lexeme :=
  ((lexemes.zip (binaryMarks none none lexemes)).filter fun l => l.2.isSome)[operatorLimit]?.map
    Prod.fst

/-- The tree of a whole text, given its tokens. -/
def compileTokens (s : Span) : Compiled Expr :=
  match operatorPastLimit? s.lexemes with
  | some l => ⟨.error, [⟨l.pos, .nestingTooDeep⟩]⟩
  | none => compileExpr s 0

/-- **The tree of a text, and what is wrong with the text.** -/
def Expr.compile (source : String) : Compiled Expr :=
  match tokenize source with
  | .error d => ⟨.error, [d]⟩
  | .ok lexemes => compileTokens ⟨lexemes, source.utf8ByteSize⟩

/-- The tree of a text with no fault, or the first fault. -/
def Expr.compile? (source : String) : Except Diagnostic Expr :=
  let c := Expr.compile source
  match c.diagnostics with
  | [] => .ok c.tree
  | d :: _ => .error d

end ByteAtlas
