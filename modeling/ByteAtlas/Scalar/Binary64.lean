/-!
# Doubles by their bit pattern

A float read from a file is kept as the 64 bits of its double, so that everything done with it is
exact arithmetic on natural numbers:

* `Binary64.view`: what the bits denote, `m * 2 ^ q` for a finite value;
* `Binary64.trunc`: the integer part, clamped to 64 bits;
* `Binary64.ofBinary32`: a 32 bit float widened, which loses nothing;
* `Binary64.ofRatio`: the double nearest a quotient, a tie going to the even significand.
-/

namespace ByteAtlas

/-- A double, as its bit pattern. -/
structure Binary64 where
  bits : UInt64
  deriving DecidableEq, Repr, Inhabited

namespace Binary64

/-- What a bit pattern denotes. -/
inductive View where
  | nan
  | infinite (negative : Bool)
  /-- The value `± significand * 2 ^ exponent`. -/
  | finite (negative : Bool) (significand : Nat) (exponent : Int)
  deriving DecidableEq, Repr

/-- The leading bit of a significand, which has no place in the fraction field. -/
def leadingBit : Nat := 0x10000000000000

/-- The place of the sign. -/
def signBit : Nat := 0x8000000000000000

/-- Whether the sign bit is set. -/
def isNegative (x : Binary64) : Bool :=
  x.bits.toNat / signBit == 1

/-- The exponent field. -/
def exponentField (x : Binary64) : Nat :=
  x.bits.toNat / leadingBit % 2048

/-- The fraction field. -/
def fractionField (x : Binary64) : Nat :=
  x.bits.toNat % leadingBit

/-- **What the bits denote.** Exponent field 0 holds the numbers without a leading bit; the
    greatest one holds the infinities and the values that are no number. -/
def view (x : Binary64) : View :=
  if x.exponentField = 2047 then
    if x.fractionField = 0 then .infinite x.isNegative else .nan
  else if x.exponentField = 0 then .finite x.isNegative x.fractionField (-1074)
  else .finite x.isNegative (x.fractionField + leadingBit) ((x.exponentField : Int) - 1075)

/-- The double with a given sign and magnitude bits. -/
def ofParts (negative : Bool) (magnitude : Nat) : Binary64 :=
  ⟨UInt64.ofNat (magnitude + if negative then signBit else 0)⟩

/-- The natural number below `m * 2 ^ q`. -/
def scaleDown (m : Nat) (q : Int) : Nat :=
  if q < 0 then m / Nat.pow 2 q.natAbs else m * Nat.pow 2 q.natAbs

/-- **The integer part**, with values past either end clamped to it. What is no number gives 0. -/
def trunc (x : Binary64) : Int64 :=
  match x.view with
  | .nan => 0
  | .infinite negative => if negative then Int64.minValue else Int64.maxValue
  | .finite negative m q =>
    let n := scaleDown m q
    if negative then Int64.ofInt (max (-(n : Int)) Int64.minValue.toInt)
    else Int64.ofInt (min (n : Int) Int64.maxValue.toInt)

/-- A 32 bit float widened to 64 bits. A small one without a leading bit gets one. -/
def ofBinary32 (bits : UInt32) : Binary64 :=
  let n := bits.toNat
  let negative := n / 0x80000000 == 1
  let exponent := n / 0x800000 % 256
  let fraction := n % 0x800000
  if exponent = 255 then ofParts negative (2047 * leadingBit + fraction * 0x20000000)
  else if exponent = 0 then
    if fraction = 0 then ofParts negative 0
    else
      let top := Nat.log2 fraction
      ofParts negative
        ((top + 874) * leadingBit + (fraction - Nat.pow 2 top) * Nat.pow 2 (52 - top))
  else ofParts negative ((exponent + 896) * leadingBit + fraction * 0x20000000)

/-- The natural number nearest `num / den`, a tie going to the even one. -/
def roundHalfEven (num den : Nat) : Nat :=
  let low := num / den
  let rest := 2 * (num % den)
  if rest < den then low
  else if rest = den then low + low % 2
  else low + 1

/-- **The double nearest `num / den`.** The significand is taken on the grid `2 ^ e` on which it
    has 53 bits, or on the finest grid there is; its bits and the exponent's then add up, a carry
    included, to the magnitude's. -/
def ofRatio (negative : Bool) (num den : Nat) : Binary64 :=
  if num = 0 then ofParts negative 0
  else
    let guess : Int := (Nat.log2 num : Int) - (Nat.log2 den : Int) - 52
    let fits (e : Int) : Bool := leadingBit * den * Nat.pow 2 e.toNat ≤ num * Nat.pow 2 (-e).toNat
    let e := max (if fits guess then guess else guess - 1) (-1074)
    let m := roundHalfEven (num * Nat.pow 2 (-e).toNat) (den * Nat.pow 2 e.toNat)
    let magnitude := (e + 1074).toNat * leadingBit + m
    ofParts negative (min magnitude (2047 * leadingBit))

/-- A finite value as a quotient of natural numbers, without its sign. -/
def toRatio (m : Nat) (q : Int) : Nat × Nat :=
  (m * Nat.pow 2 q.toNat, Nat.pow 2 (-q).toNat)

end Binary64

end ByteAtlas
