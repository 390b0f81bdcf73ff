import ByteAtlas.Scalar.Basic
import ByteAtlas.Expr.Operator

/-!
# Expressions and queries

An expression denotes a signed 64 bit integer, a query a list of struct instances. They contain
each other: an expression reads members of queried instances, and the filters of a query hold
expressions. Compiling never fails; what cannot be read becomes an `error` node.

* `Expr`, `Query`, `Filters`: the trees;
* `Expr.outline`, `Query.outline`: their text, one node to a line;
* `Expr.errors`, `Expr.binaries`, `Expr.height`: how many error nodes and binary operations a tree
  has, queries and filters included, and the most nodes on a path down from its root.
-/

namespace ByteAtlas

/-! ## 1. Trees -/

/-- A filter on a field's preview text. -/
structure TextCondition where
  field : String
  text : String
  deriving DecidableEq, Repr

/-- A filter on a value, once its expression has been evaluated. -/
structure ValueCondition where
  name : String
  value : Int64
  deriving DecidableEq, Repr

mutual

/-- An expression. -/
inductive Expr where
  /-- An integer literal. -/
  | constant (value : Int64)
  | unary (op : UnaryOp) (operand : Expr)
  | binary (op : BinaryOp) (left right : Expr)
  /-- An integer read from the file at an offset. -/
  | rawRead (type : IntType) (offset : Expr)
  /-- An element of a field of the first queried instance, or of the evaluation root if there is no
      query: its value, or its offset in the file. Without an index it is element 0. -/
  | member (query : Option Query) (name : String) (index : Option Expr) (isOffset : Bool)
  /-- The offset of the first queried instance. -/
  | structOffset (query : Query)
  /-- Whether some queried instance has a field whose preview is `text`, or is not if `invert`. -/
  | previewTest (query : Option Query) (name : String) (text : String) (invert : Bool)
  /-- The id of the first queried instance. -/
  | instanceId (query : Option Query)
  /-- What could not be compiled. -/
  | error

/-- A query. -/
inductive Query where
  /-- The live instances of a struct, in this file or, if `isGlobal`, in every file. -/
  | root (struct : String) (isGlobal : Bool) (filters : Filters)
  /-- The children in a struct-typed field of each parent, or of the evaluation root. -/
  | sub (parent : Option Query) (field : String) (filters : Filters)
  /-- What could not be compiled. -/
  | error

/-- The filters of one step of a query. -/
inductive Filters where
  /-- Conditions on preview texts, conditions on values, and the rank to select. -/
  | mk (texts : List TextCondition) (values : List (String × Expr)) (selector : Option Expr)

end

deriving instance Repr for Expr, Query, Filters

instance : Inhabited Expr := ⟨.error⟩

instance : Inhabited Query := ⟨.error⟩

namespace Filters

/-- No filter. -/
def none : Filters := mk [] [] Option.none

instance : Inhabited Filters := ⟨none⟩

def texts : Filters → List TextCondition
  | mk ts _ _ => ts

def values : Filters → List (String × Expr)
  | mk _ vs _ => vs

def selector : Filters → Option Expr
  | mk _ _ s => s

end Filters

/-- Whether a tree is an error node itself. -/
def Expr.isError : Expr → Bool
  | .error => true
  | _ => false

/-! ## 2. Outlines -/

/-- A line of an outline: two blanks for each level, the text, a line end. -/
def outlineLine (level : Nat) (text : String) : String :=
  String.ofList (List.replicate (2 * level) ' ') ++ text ++ "\n"

/-- A text between double quotes. -/
def quoted (text : String) : String :=
  "\"" ++ text ++ "\""

/-- The text conditions, as they stand on the line of their query. -/
def TextCondition.outline (c : TextCondition) : String :=
  " " ++ quoted c.field ++ "=" ++ quoted c.text

mutual

/-- The tree of an expression, one node to a line. -/
def Expr.outlineAt (level : Nat) : Expr → String
  | .constant n => outlineLine level ("value = " ++ toString n.toInt)
  | .unary op a => outlineLine level op.name ++ a.outlineAt (level + 1)
  | .binary op a b =>
    outlineLine level op.symbol ++ a.outlineAt (level + 1) ++ b.outlineAt (level + 1)
  | .rawRead t a => outlineLine level ("read " ++ t.name) ++ a.outlineAt (level + 1)
  | .member q n i isOffset =>
    outlineLine level ("member field" ++ (if isOffset then " offset" else "") ++ " " ++ quoted n ++
        if q.isSome then " with query:" else "") ++
      (match q with
        | some q => q.outlineAt (level + 1)
        | none => "") ++
      match i with
      | some e => outlineLine (level + 1) "index:" ++ e.outlineAt (level + 2)
      | none => ""
  | .structOffset q => outlineLine level "struct offset" ++ q.outlineAt (level + 1)
  | .previewTest q n text invert =>
    outlineLine level
        ("field " ++ quoted n ++ " preview " ++ (if invert then "!= " else "== ") ++ quoted text) ++
      match q with
      | some q => q.outlineAt (level + 1)
      | none => ""
  | .instanceId q =>
    outlineLine level "instance id" ++
      match q with
      | some q => q.outlineAt (level + 1)
      | none => ""
  | .error => outlineLine level "ERROR"

/-- The tree of a query, one node to a line. -/
def Query.outlineAt (level : Nat) : Query → String
  | .root n isGlobal fs =>
    fs.outlineAt level ("root" ++ (if isGlobal then " (global)" else "") ++ " query " ++ quoted n)
  | .sub p n fs =>
    fs.outlineAt level ("subfield query " ++ quoted n) ++
      match p with
      | some p => p.outlineAt (level + 1)
      | none => ""
  | .error => outlineLine level "ERROR"

/-- A query's own line, its text conditions at the end, and the expressions of its filters. -/
def Filters.outlineAt (level : Nat) (head : String) : Filters → String
  | .mk texts values selector =>
    outlineLine level (head ++ String.join (texts.map TextCondition.outline)) ++
      valuesOutlineAt level values ++
      match selector with
      | some e => outlineLine (level + 1) "#=" ++ e.outlineAt (level + 2)
      | none => ""

/-- The expressions that values are compared with. -/
def valuesOutlineAt (level : Nat) : List (String × Expr) → String
  | [] => ""
  | (n, e) :: vs =>
    outlineLine (level + 1) ("#" ++ n ++ "=") ++ e.outlineAt (level + 2) ++ valuesOutlineAt level vs

end

def Expr.outline (e : Expr) : String := e.outlineAt 0

def Query.outline (q : Query) : String := q.outlineAt 0

/-! ## 3. Counts -/

mutual

/-- A sum over the nodes of a tree: so much for a binary operation, so much for an error. -/
def Expr.tally (perBinary perError : Nat) : Expr → Nat
  | .constant _ => 0
  | .unary _ a => a.tally perBinary perError
  | .binary _ a b => a.tally perBinary perError + b.tally perBinary perError + perBinary
  | .rawRead _ a => a.tally perBinary perError
  | .member q _ i _ =>
    (match q with
      | some q => q.tally perBinary perError
      | none => 0) +
    match i with
    | some e => e.tally perBinary perError
    | none => 0
  | .structOffset q => q.tally perBinary perError
  | .previewTest q _ _ _ =>
    match q with
    | some q => q.tally perBinary perError
    | none => 0
  | .instanceId q =>
    match q with
    | some q => q.tally perBinary perError
    | none => 0
  | .error => perError

/-- The sum over the nodes of a query. -/
def Query.tally (perBinary perError : Nat) : Query → Nat
  | .root _ _ fs => fs.tally perBinary perError
  | .sub p _ fs =>
    (match p with
      | some p => p.tally perBinary perError
      | none => 0) + fs.tally perBinary perError
  | .error => perError

/-- The sum over the expressions of the filters. -/
def Filters.tally (perBinary perError : Nat) : Filters → Nat
  | .mk _ values selector =>
    valuesTally perBinary perError values +
    match selector with
    | some e => e.tally perBinary perError
    | none => 0

/-- The sum over the value conditions. -/
def valuesTally (perBinary perError : Nat) : List (String × Expr) → Nat
  | [] => 0
  | (_, e) :: vs => e.tally perBinary perError + valuesTally perBinary perError vs

end

/-- How many error nodes a tree has, queries included. -/
def Expr.errors (e : Expr) : Nat := e.tally 0 1

/-- How many binary operations a tree has, those in indexes and filters included. -/
def Expr.binaries (e : Expr) : Nat := e.tally 1 0

mutual

/-- The most expressions and queries on a path down from the root. -/
def Expr.height : Expr → Nat
  | .constant _ => 1
  | .unary _ a => a.height + 1
  | .binary _ a b => max a.height b.height + 1
  | .rawRead _ a => a.height + 1
  | .member q _ i _ =>
    max
      (match q with
        | some q => q.height
        | none => 0)
      (match i with
        | some e => e.height
        | none => 0) + 1
  | .structOffset q => q.height + 1
  | .previewTest q _ _ _ =>
    (match q with
      | some q => q.height
      | none => 0) + 1
  | .instanceId q =>
    (match q with
      | some q => q.height
      | none => 0) + 1
  | .error => 1

/-- The most expressions and queries on a path down from a query. -/
def Query.height : Query → Nat
  | .root _ _ fs => fs.height + 1
  | .sub p _ fs =>
    max
      (match p with
        | some p => p.height
        | none => 0)
      fs.height + 1
  | .error => 1

/-- The greatest height among the expressions of the filters. -/
def Filters.height : Filters → Nat
  | .mk _ values selector =>
    max (valuesHeight values)
      (match selector with
        | some e => e.height
        | none => 0)

/-- The greatest height among the value conditions. -/
def valuesHeight : List (String × Expr) → Nat
  | [] => 0
  | (_, e) :: vs => max e.height (valuesHeight vs)

end

end ByteAtlas
