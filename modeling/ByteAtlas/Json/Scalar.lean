import ByteAtlas.Scalar.Value
import ByteAtlas.Json.Decode

/-!
# Scalar values as JSON

A scalar is written as the name of its form with its content: `"Pad"`, or an object with one member
such as `Int`. Floats are numbers with a point or an exponent; what is not finite is null.

A number that is read as a float is rounded in steps. Of its digits as many count as fit into 64
unsigned bits; the number they make, rounded to a double, is multiplied or divided by a power of
ten, itself a double.
-/

namespace ByteAtlas

/-! ## 1. Floats as numbers -/

namespace Binary64

/-- The digits of a float with a point: positional from `0.00001` up to sixteen digits before the
    point, beyond that with an exponent. -/
def toNumber (negative : Bool) (d : Decimal) : JsonNumber :=
  let (ds, e) := d.trimmed
  let k := ds.length + e
  if e ≥ 0 ∧ k ≤ 16 then ⟨negative, ds ++ List.replicate e.toNat '0', ['0'], none⟩
  else if 0 < k ∧ k ≤ 16 then ⟨negative, ds.take k.toNat, ds.drop k.toNat, none⟩
  else if -5 < k ∧ k ≤ 0 then ⟨negative, ['0'], List.replicate k.natAbs '0' ++ ds, none⟩
  else ⟨negative, ds.take 1, ds.drop 1, some (k - 1)⟩

/-- A float as JSON: its shortest decimal, ties to the even digit. -/
def encode (x : Binary64) : Json :=
  match x.view with
  | .nan | .infinite _ => .null
  | .finite negative m q =>
    .number
      (if m = 0 then ⟨negative, ['0'], ['0'], none⟩
        else toNumber negative (.shortest .toEven m q))

/-- A finite value times `num / den`, rounded. -/
def scale (x : Binary64) (num den : Nat) : Binary64 :=
  match x.view with
  | .finite negative m q =>
    let (n, d) := toRatio m q
    ofRatio negative (n * num) (d * den)
  | _ => x

/-- A finite value times a power of ten, which is rounded to a double first. -/
def scaleTen (x : Binary64) (exponent : Int) : Binary64 :=
  match (ofRatio false (Nat.pow 10 exponent.natAbs) 1).view with
  | .finite _ m q =>
    let (n, d) := toRatio m q
    if exponent ≥ 0 then x.scale n d else x.scale d n
  | _ => x

def isZero (x : Binary64) : Bool := x.bits.toNat % signBit = 0

def isFinite (x : Binary64) : Bool := x.exponentField ≠ 2047

/-- A value times ten to an exponent, in steps no power of ten in which exceeds the doubles. Twice
    is enough to bring any such value to zero. -/
def scaleTenWithin : (steps : Nat) → Binary64 → Int → Option Binary64
  | 0, x, _ => some x
  | steps + 1, x, exponent =>
    if exponent.natAbs ≤ 308 then
      let y := x.scaleTen exponent
      if y.isFinite then some y else none
    else if x.isZero then some x
    else if exponent > 0 then none
    else scaleTenWithin steps (x.scaleTen (-308)) (exponent + 308)

/-- Digits taken up as long as the number they make fits into 64 bits. -/
def takeUpDigits : Nat → List Char → Nat × List Char
  | n, [] => (n, [])
  | n, c :: cs =>
    let longer := n * 10 + (c.toNat - '0'.toNat)
    if longer < UInt64.size then takeUpDigits longer cs else (n, c :: cs)

/-- **The double that a number is read as**, if it is not too large. -/
def ofNumber? (number : JsonNumber) : Option Binary64 :=
  let (whole, rest) := takeUpDigits 0 number.whole
  let (significand, dropped) := takeUpDigits whole number.fraction
  let places : Int := number.fraction.length - dropped.length
  let exponent : Int := rest.length - places + number.exponent.getD 0
  (scaleTenWithin 4 (ofRatio false significand 1) exponent).map fun x =>
    if number.negative then ⟨x.bits + 0x8000000000000000⟩ else x

end Binary64

/-! ## 2. Scalars -/

namespace Scalar

def encode : Scalar → Json
  | pad => .string "Pad"
  | char b => .record [("Char", .ofInt b.toNat)]
  | int n => .record [("Int", .ofWord n)]
  | float x => .record [("Float", x.encode)]

/-- A float written as a number of any form. -/
def decodeFloat : Json → Decoded Scalar
  | .number n => (Json.required (Binary64.ofNumber? n)).map float
  | _ => .error .malformed

def decodeJson (j : Json) : Decoded Scalar :=
  j.toVariant (fun name => if name = "Pad" then some pad else none) fun name =>
    if name = "Char" then
      some fun j => (j.toIntWithin 0 255).map fun n => char (UInt8.ofNat n.toNat)
    else if name = "Int" then some fun j => j.toWord.map int
    else if name = "Float" then some decodeFloat
    else none

end Scalar

end ByteAtlas
