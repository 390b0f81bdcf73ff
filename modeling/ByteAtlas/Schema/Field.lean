import ByteAtlas.Scalar.Basic
import ByteAtlas.Expr.Compile

/-!
# Fields

A field of a struct has a type, a place, a number of elements and conditions. Its place follows from
the fields before it or from its literal offset, unless an expression computes it; then the field is
computed, as is one whose value an expression gives.

An expression in a schema is a `Formula`: its text, together with the tree that the text compiles
to.
-/

namespace ByteAtlas

/-! ## 1. Formulas -/

/-- The text of an expression and its tree. -/
structure Formula where
  source : String
  expr : Expr
  compiled : expr = (Expr.compile source).tree

namespace Formula

/-- The formula of a text. A text with faults has a tree as well. -/
def ofSource (source : String) : Formula :=
  ⟨source, (Expr.compile source).tree, rfl⟩

/-- Formulas are told apart by their texts. -/
theorem ext_source {a b : Formula} (h : a.source = b.source) : a = b := by
  cases a with
  | mk s e he =>
    cases b with
    | mk s' e' he' =>
      cases h
      subst he
      subst he'
      rfl

theorem ofSource_source (f : Formula) : ofSource f.source = f :=
  ext_source rfl

instance : DecidableEq Formula := fun a b =>
  decidable_of_iff (a.source = b.source) ⟨ext_source, fun h => h ▸ rfl⟩

end Formula

/-! ## 2. Counts -/

/-- Where a field's number of elements comes from. -/
inductive CountSource where
  /-- The count is the field's own. -/
  | literal
  /-- The count is added to a field before this one, an argument or a parameter. -/
  | named (name : String)
  /-- The count is added to the size of the file. -/
  | fileSize
  deriving DecidableEq, Repr, Inhabited

namespace CountSource

/-- The text for the size of the file. -/
def fileSizeText : String := ":file-size"

/-- The source as it is written; nothing for the field's own count. -/
def text : CountSource → String
  | literal => ""
  | named name => name
  | fileSize => fileSizeText

def isLiteral : CountSource → Bool
  | literal => true
  | named _ | fileSize => false

end CountSource

/-! ## 3. Parameters and arguments -/

/-- A parameter of a struct, with the value it has where no argument is bound. -/
structure Param where
  name : String
  value : Int64
  deriving DecidableEq, Repr

/-- The first value that a name has among some parameters. -/
def paramValue? (name : String) : List Param → Option Int64
  | [] => none
  | p :: ps => if p.name = name then some p.value else paramValue? name ps

/-- An argument given to the children in a field: a value, added to the parent's field, argument or
    parameter `source` if that is named. -/
structure ArgBinding where
  name : String
  source : Option String
  value : Int64
  deriving DecidableEq, Repr

/-! ## 4. Fields -/

/-- One member of a struct. -/
structure Field where
  type : ElementType
  /-- Gives the field's single value, which takes no room in the file. The constant `orig` is where
      the field would start. -/
  value : Option Formula
  /-- Relative to the instance, in structs that are not packed. -/
  offset : Int64
  /-- Gives the field's offset in the file. The constants `i` and `orig` are the index of the
      element and where the field would start. -/
  offsetFormula : Option Formula
  /-- The number of elements, or what is added to the count source. -/
  count : Int64
  countSource : CountSource
  /-- The count is a number of bytes. -/
  countIsBytes : Bool
  /-- Each element of a computed struct-typed field has an offset of its own. -/
  individualOffsets : Bool
  /-- No element follows the first that is zero. -/
  untilZero : Bool
  /-- The arguments of children. -/
  args : List ArgBinding
  /-- The field is present unless this is zero. -/
  condition : Option Formula
  /-- An individually offset element exists unless this is zero. The constants `i`, `off` and `orig`
      are its index, its offset and where the field would start. -/
  elementCondition : Option Formula
  deriving DecidableEq

namespace Field

/-- A field of one element. -/
def ofType (type : ElementType) : Field where
  type := type
  value := none
  offset := 0
  offsetFormula := none
  count := 1
  countSource := .literal
  countIsBytes := false
  individualOffsets := false
  untilZero := false
  args := []
  condition := none
  elementCondition := none

instance : Inhabited Field := ⟨ofType default⟩

/-- Whether an expression gives the field's value or its offset. -/
def isComputed (f : Field) : Bool :=
  f.value.isSome || f.offsetFormula.isSome

/-- Whether the field has one element in any case. -/
def isOne (f : Field) : Bool :=
  f.count = 1 && f.countSource.isLiteral

end Field

end ByteAtlas
