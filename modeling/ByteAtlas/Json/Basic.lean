import ByteAtlas.Scalar.Decimal

/-!
# JSON values

The tree of a JSON text. A text that stops being JSON still has a tree: the part that was read, and
`broken` in the place where reading stopped. What is read out of a tree from front to back therefore
meets the first fault of the text first, whether that fault lies in the notation or in the content.

Numbers keep their notation, because an integer is one only if it is written as one.
-/

namespace ByteAtlas

/-- A number as it is written. -/
structure JsonNumber where
  negative : Bool
  /-- The digits before the point. -/
  whole : List Char
  /-- The digits after the point, none without a point. -/
  fraction : List Char
  exponent : Option Int
  deriving DecidableEq, Repr

namespace JsonNumber

/-- An integer in its only notation. -/
def ofInt (n : Int) : JsonNumber :=
  ⟨n < 0, Nat.toDigits 10 n.natAbs, [], none⟩

/-- The number that decimal digits denote. -/
def digits (ds : List Char) : Nat :=
  ds.foldl (fun n c => n * 10 + (c.toNat - '0'.toNat)) 0

/-- **The integer that is written**: no point, no exponent, and not a zero with a sign. -/
def toInt? (n : JsonNumber) : Option Int :=
  if n.fraction.isEmpty && n.exponent.isNone then
    let value := digits n.whole
    if n.negative then (if value = 0 then none else some (-(value : Int))) else some value
  else none

/-- The number as text. -/
def text (n : JsonNumber) : String :=
  (if n.negative then "-" else "") ++ String.ofList n.whole ++
    (if n.fraction.isEmpty then "" else "." ++ String.ofList n.fraction) ++
    match n.exponent with
    | some e => "e" ++ toString e
    | none => ""

end JsonNumber

/-- A JSON value, as far as the text is JSON. -/
inductive Json where
  | null
  | bool (value : Bool)
  | number (value : JsonNumber)
  | string (text : String)
  /-- A string whose escapes are well-formed but denote no text: half of a surrogate pair. -/
  | illFormed
  | array (items : List Json)
  /-- Members in the order written. A key that denotes no text is `none`. -/
  | object (members : List (Option String × Json))
  /-- Here the text stops being JSON. -/
  | broken
  deriving Repr

namespace Json

instance : Inhabited Json := ⟨broken⟩

def ofInt (n : Int) : Json := number (.ofInt n)

def ofWord (n : Int64) : Json := ofInt n.toInt

/-- An object with given keys. -/
def record (members : List (String × Json)) : Json :=
  object (members.map fun m => (some m.1, m.2))

mutual

/-- Whether the text is JSON throughout the value. -/
def isWhole : Json → Bool
  | broken => false
  | array items => allWhole items
  | object members => allMembersWhole members
  | _ => true

def allWhole : List Json → Bool
  | [] => true
  | j :: js => j.isWhole && allWhole js

def allMembersWhole : List (Option String × Json) → Bool
  | [] => true
  | (_, j) :: ms => j.isWhole && allMembersWhole ms

end

end Json

end ByteAtlas
