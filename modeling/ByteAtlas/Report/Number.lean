/-!
# Numbers in options

A number is a row of digits with a sign in front or none. `readInteger` also takes hexadecimal
digits after `0x`. Characters are taken up from left to right, and the first fault that is met
counts: a character that is no digit, or a number that has become too large.
-/

namespace ByteAtlas

/-- What is wrong with the text of a number. -/
inductive NumberFault where
  | empty
  | invalidDigit
  | tooLarge
  | tooSmall
  deriving DecidableEq, Repr

def NumberFault.message : NumberFault → String
  | empty => "cannot parse integer from empty string"
  | invalidDigit => "invalid digit found in string"
  | tooLarge => "number too large to fit in target type"
  | tooSmall => "number too small to fit in target type"

/-- The value of a digit in a radix up to 16. -/
def digitValue? (radix : Nat) (c : Char) : Option Nat :=
  let value :=
    if '0' ≤ c ∧ c ≤ '9' then c.toNat - '0'.toNat
    else if 'a' ≤ c ∧ c ≤ 'f' then c.toNat - 'a'.toNat + 10
    else if 'A' ≤ c ∧ c ≤ 'F' then c.toNat - 'A'.toNat + 10
    else radix
  if value < radix then some value else none

/-- The number that digits make after `value`, not above `limit`. -/
def readDigits (radix limit : Nat) (beyond : NumberFault) :
    (value : Nat) → List Char → Except NumberFault Nat
  | value, [] => .ok value
  | value, c :: cs =>
    match digitValue? radix c with
    | none => .error .invalidDigit
    | some digit =>
      let value := value * radix + digit
      if limit < value then .error beyond else readDigits radix limit beyond value cs

/-- A row of digits, of which there is at least one. -/
def readRow (radix limit : Nat) (beyond : NumberFault) (cs : List Char) :
    Except NumberFault Nat :=
  if cs.isEmpty then .error .invalidDigit else readDigits radix limit beyond 0 cs

/-- A signed number of 64 bits in a radix. -/
def readSigned (radix : Nat) : List Char → Except NumberFault Int64
  | [] => .error .empty
  | '-' :: cs => (readRow radix (Nat.pow 2 63) .tooSmall cs).map fun n => Int64.ofInt (-(n : Int))
  | '+' :: cs => (readRow radix (Nat.pow 2 63 - 1) .tooLarge cs).map Int64.ofNat
  | cs => (readRow radix (Nat.pow 2 63 - 1) .tooLarge cs).map Int64.ofNat

/-- **A signed number of 64 bits**, hexadecimal after `0x`. -/
def readInteger (text : String) : Except NumberFault Int64 :=
  match text.toList with
  | '0' :: 'x' :: cs | '0' :: 'X' :: cs => readSigned 16 cs
  | cs => readSigned 10 cs

/-- **An unsigned number of 64 bits.** A minus is no digit. -/
def readNatural (text : String) : Except NumberFault Nat :=
  match text.toList with
  | [] => .error .empty
  | '+' :: cs => readRow 10 (UInt64.size - 1) .tooLarge cs
  | cs => readRow 10 (UInt64.size - 1) .tooLarge cs

end ByteAtlas
