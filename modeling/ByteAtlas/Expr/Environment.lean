import ByteAtlas.Source.Bytes
import ByteAtlas.Scalar.Value
import ByteAtlas.Expr.Syntax
import Std.Data.TreeMap

/-!
# What expressions are evaluated against

An `Environment` gives the names in an expression their meaning: variables and previews of an
instance, children and live instances for queries, bytes of the file. Its operations run in a monad
`m`, so that looking something up may take steps of its own; `ι` is the type of instances. What
cannot be found is `none` or an empty list.

`Constants` is the environment without instances to query: named values and a buffer.
-/

namespace ByteAtlas

/-- The conditions that queried instances have to meet. The rank to select is no part of them. -/
structure QueryFilter where
  texts : List TextCondition
  values : List ValueCondition
  deriving DecidableEq, Repr

namespace QueryFilter

/-- The filter that every instance passes. -/
def all : QueryFilter := ⟨[], []⟩

def isEmpty (f : QueryFilter) : Bool :=
  f.texts.isEmpty && f.values.isEmpty

end QueryFilter

/-- What names, queries and reads mean. -/
structure Environment (m : Type → Type) (ι : Type) where
  /-- An element of a field, an argument or a parameter of an instance: its value, or its offset. -/
  lookup : ι → (name : String) → (index : Int64) → (isOffset : Bool) → m (Option Int64)
  /-- The instances that a name without a query refers to. -/
  roots : List ι
  /-- The children in a struct-typed field of each of some instances. -/
  children : List ι → (field : String) → QueryFilter → m (List ι)
  /-- The live instances of a struct, in this file or in every file. -/
  instancesOf : (struct : String) → (isGlobal : Bool) → QueryFilter → m (List ι)
  /-- The bytes from an offset on that are there, at most so many. -/
  read : (offset : Int64) → (length : Nat) → m (List UInt8)
  offsetOf : ι → Int64
  idOf : ι → Int64
  /-- The joined preview of a field. -/
  preview : ι → (field : String) → m (Option String)

/-- Named values and a buffer, with no instances to query. -/
structure Constants where
  values : Std.TreeMap String Int64
  bytes : Bytes

namespace Constants

/-- No names and no bytes. -/
def empty : Constants := ⟨∅, #[]⟩

/-- Named values, the last of a name counting, and a buffer. -/
def ofList (values : List (String × Int64)) (bytes : Bytes) : Constants :=
  ⟨values.foldl (fun m v => m.insert v.1 v.2) ∅, bytes⟩

/-- **The environment of constants.** A name has one element and no offset; queries find nothing. -/
def environment (c : Constants) : Environment Id Unit where
  lookup _ name index isOffset :=
    if index ≠ 0 ∨ isOffset then none else c.values[name]?
  roots := [()]
  children _ _ _ := []
  instancesOf _ _ _ := []
  read offset length := c.bytes.readAt offset length
  offsetOf _ := 0
  idOf _ := -1
  preview _ name := c.values[name]?.map decimalText

end Constants

end ByteAtlas
