import ByteAtlas.Scalar.Binary64

/-!
# The fewest digits that read back

`Decimal.shortest tie m q` is the decimal with the fewest digits among those that round to the
double `m * 2 ^ q`, and of those the nearest; of two that are equally near, `tie` tells which. Grids
with 1, 2, … 17 digits are tried in turn: the value's two neighbours on the grid are tested against
the interval of numbers that round to it, in exact arithmetic on natural numbers.
`Decimal.positional` writes such a decimal without an exponent.
-/

namespace ByteAtlas

/-- The number `digits * 10 ^ exponent`. -/
structure Decimal where
  digits : Nat
  exponent : Int
  deriving DecidableEq, Repr

namespace Decimal

/-! ## 1. The interval of a double -/

/-- The numbers that round to a double, in quarters of its last place: from `low` to `high`, ends
    included iff `closed`. -/
structure Interval where
  low : Nat
  value : Nat
  high : Nat
  closed : Bool
  deriving Repr

/-- **The numbers that round to `m * 2 ^ q`.** Half a place on either side; below the least
    significand of a binade the neighbour is twice as near. Ends round to the even significand. -/
def interval (m : Nat) (q : Int) : Interval where
  low := 4 * m - (if m = Binary64.leadingBit ∧ q > -1074 then 1 else 2)
  value := 4 * m
  high := 4 * m + 2
  closed := m % 2 = 0

/-! ## 2. The grids -/

/-- The number of decimal digits before the point of `m * 2 ^ q`, negative where zeros follow the
    point: `10 ^ (k - 1) ≤ m * 2 ^ q < 10 ^ k`. -/
def magnitude (m : Nat) (q : Int) : Int :=
  let scaled := m * Nat.pow 2 q.toNat * Nat.pow 10 330 / Nat.pow 2 (-q).toNat
  (Nat.toDigits 10 scaled).length - 330

/-- Which of two equally near decimals is taken. -/
inductive Tie where
  | upward
  /-- The one whose last digit is even. -/
  | toEven
  deriving DecidableEq, Repr

/-- Of the neighbours `below` and `below + 1` of a value, which is `rest / step` above the lower
one, the nearer one. -/
def nearer (tie : Tie) (below rest step : Nat) : Nat :=
  if 2 * rest < step then below
  else if 2 * rest = step ∧ tie = .toEven then below + below % 2
  else below + 1

/-- The point of the grid `10 ^ p` that stands for `m * 2 ^ q`: of the two neighbours those in the
    interval, and the nearer of two. -/
def onGrid (tie : Tie) (m : Nat) (q p : Int) : Option Decimal :=
  let i := interval m q
  let unit := Nat.pow 2 (q - 2).toNat * Nat.pow 10 (-p).toNat
  let step := Nat.pow 10 p.toNat * Nat.pow 2 (2 - q).toNat
  let inside (d : Nat) : Bool :=
    if i.closed then i.low * unit ≤ d * step && d * step ≤ i.high * unit
    else i.low * unit < d * step && d * step < i.high * unit
  let below := i.value * unit / step
  let rest := i.value * unit % step
  match inside below, inside (below + 1) with
  | true, true => some ⟨nearer tie below rest step, p⟩
  | true, false => some ⟨below, p⟩
  | false, true => some ⟨below + 1, p⟩
  | false, false => none

/-- **The shortest decimal that reads back as `m * 2 ^ q`.** Seventeen digits always do. -/
def shortest (tie : Tie) (m : Nat) (q : Int) : Decimal :=
  let k := magnitude m q
  ((List.range 17).findSome? fun (n : Nat) => onGrid tie m q (k - n - 1)).getD ⟨0, 0⟩

/-! ## 3. Text -/

/-- The digits without the zeros they end in, and the number of those. -/
def trimmed (d : Decimal) : List Char × Int :=
  let ds := (Nat.toDigits 10 d.digits).reverse
  let zeros := ds.takeWhile (· == '0')
  ((ds.dropWhile (· == '0')).reverse, d.exponent + zeros.length)

/-- **Positional text**: no exponent, no point on a whole number, a zero before a leading point. -/
def positional (d : Decimal) : String :=
  let (ds, e) := d.trimmed
  if e ≥ 0 then String.ofList (ds ++ List.replicate e.toNat '0')
  else
    let places := e.natAbs
    if ds.length > places then
      String.ofList (ds.take (ds.length - places) ++ '.' :: ds.drop (ds.length - places))
    else String.ofList ('0' :: '.' :: (List.replicate (places - ds.length) '0' ++ ds))

end Decimal

/-- The text of a double: its shortest decimal, ties upward, written positionally. -/
def Binary64.text (x : Binary64) : String :=
  match x.view with
  | .nan => "NaN"
  | .infinite negative => if negative then "-inf" else "inf"
  | .finite negative m q =>
    (if negative then "-" else "") ++
      if m = 0 then "0" else (Decimal.shortest .upward m q).positional

end ByteAtlas
