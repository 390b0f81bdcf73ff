import ByteAtlas.Expr.Compile

/-!
# Writing expressions down

`Expr.render` is the text of a tree: constants in unsigned decimals, every name and text between
quotes, a list of filters after every step of a query, and round brackets only where the operators'
strengths ask for them. `Expr.glyphs` are the tokens of that text, each with the binary operation it
stands for.

Not every tree has a text that compiles: `Expr.isWritable` asks for no error node, for names without
a quote and for struct names that are not empty, `Expr.WithinLimits` for a text within the limits of
the compiler.
-/

namespace ByteAtlas

/-! ## 1. Where brackets are needed -/

/-- Tighter than any operator binds. -/
def operandStrength : Nat := 31

/-- How tightly a tree binds: as its outermost operator, or more tightly than all of them. -/
def Expr.strength : Expr → Nat
  | .binary op _ _ => op.score
  | _ => operandStrength

theorem BinaryOp.score_lt_operandStrength (op : BinaryOp) : op.score < operandStrength := by
  cases op <;> decide

/-! ## 2. The text -/

/-- A text in round brackets, if they are needed. -/
def roundIf (needed : Bool) (text : String) : String :=
  if needed then "(" ++ text ++ ")" else text

/-- Texts with a separator between them. -/
def joinedBy (separator : String) : List String → String
  | [] => ""
  | [t] => t
  | t :: ts => t ++ separator ++ joinedBy separator ts

/-- The member of a name, of the instances that a text in front selects. -/
def memberText (isOffset : Bool) (steps name : String) : String :=
  (if isOffset then "@" else "") ++ steps ++ quoted name

/-- An intrinsic with its arguments. -/
def callText (name args : String) : String :=
  "$" ++ name ++ "(" ++ args ++ ")"

/-- The name of the test that two previews are equal, or that they are not. -/
def previewTestName (invert : Bool) : String :=
  if invert then "fpnes" else "fpeqs"

mutual

/-- **The text of an expression.** -/
def Expr.render : Expr → String
  | .constant n => toString n.toUInt64.toNat
  | .unary op a => op.symbol ++ roundIf (a.strength < operandStrength) a.render
  | .binary op a b =>
    roundIf (a.strength < op.score) a.render ++ " " ++ op.symbol ++ " " ++
      roundIf (b.strength ≤ op.score) b.render
  | .rawRead t a => "$" ++ t.name ++ " " ++ roundIf (a.strength < operandStrength) a.render
  | .member q name i isOffset =>
    let field := memberText isOffset
      (match q with
        | some q => q.render ++ "."
        | none => "")
      name
    match i with
    | some e => callText "arr" (joinedBy ", " [field, e.render])
    | none => field
  | .structOffset q => "@" ++ q.render
  | .previewTest q name text invert =>
    let field := memberText false
      (match q with
        | some q => q.render ++ "."
        | none => "")
      name
    callText (previewTestName invert) (joinedBy ", " [field, quoted text])
  | .instanceId q =>
    callText "iid"
      (match q with
        | some q => q.render
        | none => "")
  | .error => ""

/-- The text of a query. Every step has its list of filters. -/
def Query.render : Query → String
  | .root name isGlobal fs =>
    (if isGlobal then "##" else "#") ++ quoted name ++ "[" ++ joinedBy ", " fs.render ++ "]"
  | .sub p name fs =>
    (match p with
      | some p => p.render ++ "."
      | none => "") ++ quoted name ++ "[" ++ joinedBy ", " fs.render ++ "]"
  | .error => ""

/-- The texts of the filters: those on texts, those on values, the selector. -/
def Filters.render : Filters → List String
  | .mk texts values selector =>
    (texts.map fun c => quoted c.field ++ " = " ++ quoted c.text) ++ renderValues values ++
      match selector with
      | some e => ["# = " ++ e.render]
      | none => []

/-- The texts of the filters on values. -/
def renderValues : List (String × Expr) → List String
  | [] => []
  | (name, e) :: vs => ("#" ++ quoted name ++ " = " ++ e.render) :: renderValues vs

end

/-! ## 3. The tokens -/

/-- A token, with the binary operation that it stands for. -/
structure Glyph where
  token : Token
  op : Option BinaryOp
  deriving DecidableEq, Repr

/-- A token that is no binary operator. -/
def Glyph.plain (token : Token) : Glyph := ⟨token, none⟩

/-- A binary operator. -/
def Glyph.binary (op : BinaryOp) : Glyph := ⟨.operator op, some op⟩

/-- The tokens alone. -/
def tokensOf (gs : List Glyph) : List Token := gs.map Glyph.token

/-- Glyphs within brackets. -/
def inBrackets (b : Bracket) (gs : List Glyph) : List Glyph :=
  .plain (.opening b) :: (gs ++ [.plain (.closing b)])

/-- Glyphs in round brackets, if they are needed. -/
def groupIf (needed : Bool) (gs : List Glyph) : List Glyph :=
  if needed then inBrackets .round gs else gs

/-- Lists of glyphs with commas between them. -/
def commaJoined : List (List Glyph) → List Glyph
  | [] => []
  | [gs] => gs
  | gs :: more => gs ++ .plain .comma :: commaJoined more

/-- A unary operator as a token. -/
def UnaryOp.token : UnaryOp → Token
  | .negate => .operator .sub
  | .invert => .tilde

/-- The member of a name, of the instances that the glyphs in front select. -/
def memberGlyphs (isOffset : Bool) (steps : List Glyph) (name : String) : List Glyph :=
  (if isOffset then [.plain .at] else []) ++ (steps ++ [.plain (.name name)])

/-- An intrinsic with its arguments. -/
def callGlyphs (name : String) (args : List Glyph) : List Glyph :=
  .plain .dollar :: .plain (.name name) :: inBrackets .round args

/-- A filter: what it looks at, and what that has to be. -/
def filterGlyphs (head : Token) (value : List Glyph) : List Glyph :=
  .plain head :: .plain .assign :: value

/-- The condition on a text. -/
def TextCondition.glyphs (c : TextCondition) : List Glyph :=
  filterGlyphs (.name c.field) [.plain (.name c.text)]

mutual

/-- **The tokens of an expression.** -/
def Expr.glyphs : Expr → List Glyph
  | .constant n => [.plain (.int n)]
  | .unary op a => .plain op.token :: groupIf (a.strength < operandStrength) a.glyphs
  | .binary op a b =>
    groupIf (a.strength < op.score) a.glyphs ++
      .binary op :: groupIf (b.strength ≤ op.score) b.glyphs
  | .rawRead t a =>
    .plain .dollar :: .plain (.name t.name) :: groupIf (a.strength < operandStrength) a.glyphs
  | .member q name i isOffset =>
    let field := memberGlyphs isOffset
      (match q with
        | some q => q.glyphs ++ [.plain .dot]
        | none => [])
      name
    match i with
    | some e => callGlyphs "arr" (commaJoined [field, e.glyphs])
    | none => field
  | .structOffset q => .plain .at :: q.glyphs
  | .previewTest q name text invert =>
    let field := memberGlyphs false
      (match q with
        | some q => q.glyphs ++ [.plain .dot]
        | none => [])
      name
    callGlyphs (previewTestName invert) (commaJoined [field, [.plain (.name text)]])
  | .instanceId q =>
    callGlyphs "iid"
      (match q with
        | some q => q.glyphs
        | none => [])
  | .error => []

/-- The tokens of a query. -/
def Query.glyphs : Query → List Glyph
  | .root name isGlobal fs =>
    .plain (.structName name isGlobal) :: inBrackets .square (commaJoined fs.glyphs)
  | .sub p name fs =>
    (match p with
      | some p => p.glyphs ++ [.plain .dot]
      | none => []) ++ .plain (.name name) :: inBrackets .square (commaJoined fs.glyphs)
  | .error => []

/-- The tokens of each filter. -/
def Filters.glyphs : Filters → List (List Glyph)
  | .mk texts values selector =>
    texts.map TextCondition.glyphs ++ valuesGlyphs values ++
      match selector with
      | some e => [filterGlyphs .hash e.glyphs]
      | none => []

/-- The tokens of each filter on a value. -/
def valuesGlyphs : List (String × Expr) → List (List Glyph)
  | [] => []
  | (name, e) :: vs => filterGlyphs (.structName name false) e.glyphs :: valuesGlyphs vs

end

/-! ## 4. What can be written -/

/-- Whether a text can stand between quotes. -/
def isQuotable (text : String) : Bool :=
  text.toList.all (· != '"')

mutual

/-- **Whether a tree can be written**: it has no error node, no name and no text has a quote, and
    the names of structs and of values in filters are not empty. -/
def Expr.isWritable : Expr → Bool
  | .constant _ => true
  | .unary _ a => a.isWritable
  | .binary _ a b => a.isWritable && b.isWritable
  | .rawRead _ a => a.isWritable
  | .member q name i _ =>
    isQuotable name &&
      (match q with
        | some q => q.isWritable
        | none => true) &&
      match i with
      | some e => e.isWritable
      | none => true
  | .structOffset q => q.isWritable
  | .previewTest q name text _ =>
    isQuotable name && isQuotable text &&
      match q with
      | some q => q.isWritable
      | none => true
  | .instanceId q =>
    match q with
    | some q => q.isWritable
    | none => true
  | .error => false

/-- Whether a query can be written. -/
def Query.isWritable : Query → Bool
  | .root name _ fs => isQuotable name && !name.isEmpty && fs.isWritable
  | .sub p name fs =>
    (match p with
      | some p => p.isWritable
      | none => true) && isQuotable name && fs.isWritable
  | .error => false

/-- Whether filters can be written. -/
def Filters.isWritable : Filters → Bool
  | .mk texts values selector =>
    (texts.all fun c => isQuotable c.field && isQuotable c.text) && valuesWritable values &&
      match selector with
      | some e => e.isWritable
      | none => true

/-- Whether the filters on values can be written. -/
def valuesWritable : List (String × Expr) → Bool
  | [] => true
  | (name, e) :: vs => isQuotable name && !name.isEmpty && e.isWritable && valuesWritable vs

end

section

variable {q : Option Query} {name text : String} {i : Option Expr} {flag : Bool} {fs : Filters}

theorem Expr.isWritable_member (h : (Expr.member q name i flag).isWritable = true) :
    isQuotable name = true ∧ (∀ x, q = some x → x.isWritable = true) ∧
      ∀ x, i = some x → x.isWritable = true := by
  cases q <;> cases i <;> simp_all [Expr.isWritable]

theorem Expr.isWritable_previewTest (h : (Expr.previewTest q name text flag).isWritable = true) :
    isQuotable name = true ∧ isQuotable text = true ∧ ∀ x, q = some x → x.isWritable = true := by
  cases q <;> simp_all [Expr.isWritable]

theorem Expr.isWritable_instanceId (h : (Expr.instanceId q).isWritable = true) :
    ∀ x, q = some x → x.isWritable = true := by
  cases q <;> simp_all [Expr.isWritable]

theorem Query.isWritable_root (h : (Query.root name flag fs).isWritable = true) :
    isQuotable name = true ∧ (!name.isEmpty) = true ∧ fs.isWritable = true := by
  simp only [Query.isWritable, Bool.and_eq_true] at h
  exact ⟨h.1.1, h.1.2, h.2⟩

theorem Query.isWritable_sub (h : (Query.sub q name fs).isWritable = true) :
    (∀ x, q = some x → x.isWritable = true) ∧ isQuotable name = true ∧ fs.isWritable = true := by
  cases q <;> simp_all [Query.isWritable]

theorem Filters.isWritable_mk {texts : List TextCondition} {values : List (String × Expr)}
    (h : (Filters.mk texts values i).isWritable = true) :
    (∀ c ∈ texts, isQuotable c.field = true ∧ isQuotable c.text = true) ∧
      valuesWritable values = true ∧ ∀ x, i = some x → x.isWritable = true := by
  cases i <;> simp_all [Filters.isWritable]

theorem valuesWritable_cons {e : Expr} {vs : List (String × Expr)}
    (h : valuesWritable ((name, e) :: vs) = true) :
    isQuotable name = true ∧ (!name.isEmpty) = true ∧ e.isWritable = true ∧
      valuesWritable vs = true := by
  simp only [valuesWritable, Bool.and_eq_true] at h
  exact ⟨h.1.1.1, h.1.1.2, h.1.2, h.2⟩

end

/-! ## 5. How deep a text goes -/

/-- The most brackets open at a time, `depth` of them being open before. -/
def deepest : (depth : Nat) → List Token → Nat
  | depth, [] => depth
  | depth, .opening _ :: ts => deepest (depth + 1) ts
  | depth, .closing _ :: ts => max depth (deepest (depth - 1) ts)
  | depth, _ :: ts => deepest depth ts

/-- The levels of a part that stands in round brackets if they are needed. -/
def groupLevels (needed : Bool) (levels : Nat) : Nat :=
  if needed then levels + 1 else levels

mutual

/-- How many levels the parts of an expression lie in each other, as the compiler counts them.
    Operands of a binary operator are on the level of the operation. -/
def Expr.levels : Expr → Nat
  | .constant _ => 0
  | .unary _ a => groupLevels (a.strength < operandStrength) a.levels + 1
  | .binary op a b =>
    max (groupLevels (a.strength < op.score) a.levels)
      (groupLevels (b.strength ≤ op.score) b.levels)
  | .rawRead _ a => groupLevels (a.strength < operandStrength) a.levels + 1
  | .member q _ i _ =>
    match i with
    | some e =>
      max (e.levels + 1)
        (match q with
          | some q => q.levels + 2
          | none => 0)
    | none =>
      match q with
      | some q => q.levels + 1
      | none => 0
  | .structOffset q => q.levels + 1
  | .previewTest q _ _ _ =>
    match q with
    | some q => q.levels + 2
    | none => 0
  | .instanceId q =>
    match q with
    | some q => q.levels + 1
    | none => 0
  | .error => 0

/-- The levels of a query: its parent and its filters are on the next one. -/
def Query.levels : Query → Nat
  | .root _ _ fs => fs.levels
  | .sub p _ fs =>
    max fs.levels
      (match p with
        | some p => p.levels + 1
        | none => 0)
  | .error => 0

/-- The levels of filters. -/
def Filters.levels : Filters → Nat
  | .mk _ values selector =>
    max (valuesLevels values)
      (match selector with
        | some e => e.levels + 1
        | none => 0)

/-- The levels of the filters on values. -/
def valuesLevels : List (String × Expr) → Nat
  | [] => 0
  | (_, e) :: vs => max (e.levels + 1) (valuesLevels vs)

end

/-- **Whether the text of an expression keeps within the limits**: on the number of binary
    operators, on brackets open at a time, and on parts that lie in each other. -/
structure Expr.WithinLimits (e : Expr) : Prop where
  binaries : e.binaries ≤ operatorLimit
  brackets : deepest 0 (tokensOf e.glyphs) ≤ nestingLimit
  levels : e.levels ≤ nestingLimit

end ByteAtlas
