/-!
# Operators

The unary and binary operators of expressions, over signed 64 bit words. Arithmetic wraps around;
dividing by zero gives zero; a shift takes its amount modulo 64; a comparison gives 1 or 0.
`BinaryOp.score` is how tightly an operator binds.
-/

namespace ByteAtlas

/-- The operators written before their operand. -/
inductive UnaryOp where
  | negate
  | invert
  deriving DecidableEq, Repr, Inhabited

namespace UnaryOp

def apply : UnaryOp → Int64 → Int64
  | negate, a => -a
  | invert, a => ~~~a

/-- The word for the operator in an outline. -/
def name : UnaryOp → String
  | negate => "negate"
  | invert => "invert"

/-- The operator as written. -/
def symbol : UnaryOp → String
  | negate => "-"
  | invert => "~"

end UnaryOp

/-- The operators written between their operands. -/
inductive BinaryOp where
  | add
  | sub
  | mul
  | div
  | mod
  | and
  | or
  | xor
  | shl
  | shr
  | eq
  | ne
  | lt
  | le
  | gt
  | ge
  deriving DecidableEq, Repr, Inhabited

namespace BinaryOp

def all : List BinaryOp :=
  [add, sub, mul, div, mod, and, or, xor, shl, shr, eq, ne, lt, le, gt, ge]

/-- **Binding strength**: the operator with the higher score takes its operands first. -/
def score : BinaryOp → Nat
  | or => 4
  | xor => 6
  | and => 8
  | eq | ne => 10
  | lt | le | gt | ge => 12
  | shl | shr => 14
  | add | sub => 20
  | mul | div | mod => 30

/-- One for a truth, zero for a falsehood. -/
def truth (b : Bool) : Int64 :=
  if b then 1 else 0

def apply : BinaryOp → Int64 → Int64 → Int64
  | add, a, b => a + b
  | sub, a, b => a - b
  | mul, a, b => a * b
  | div, a, b => if b = 0 then 0 else a / b
  | mod, a, b => if b = 0 then 0 else a % b
  | and, a, b => a &&& b
  | or, a, b => a ||| b
  | xor, a, b => a ^^^ b
  | shl, a, b => a <<< b
  | shr, a, b => a >>> b
  | eq, a, b => truth (a = b)
  | ne, a, b => truth (a ≠ b)
  | lt, a, b => truth (a < b)
  | le, a, b => truth (a ≤ b)
  | gt, a, b => truth (a > b)
  | ge, a, b => truth (a ≥ b)

/-- The operator as written. -/
def symbol : BinaryOp → String
  | add => "+"
  | sub => "-"
  | mul => "*"
  | div => "/"
  | mod => "%"
  | and => "&"
  | or => "|"
  | xor => "^"
  | shl => "<<"
  | shr => ">>"
  | eq => "=="
  | ne => "!="
  | lt => "<"
  | le => "<="
  | gt => ">"
  | ge => ">="

/-- The operator written so. -/
def ofSymbol? (text : String) : Option BinaryOp :=
  all.find? fun op => op.symbol == text

theorem ofSymbol?_symbol (op : BinaryOp) : ofSymbol? op.symbol = some op := by
  cases op <;> decide

end BinaryOp

end ByteAtlas
