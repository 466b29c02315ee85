/-!
# Binary64 — finite double-precision numbers, exactly

A finite double is a sign, a significand below `2 ^ 53` and a scale: its value is
`significand * 2 ^ (scale - 1074)`. Everything is done in exact natural-number arithmetic:

- `ofRatio?` rounds a quotient to the nearest double, a tie going to the even significand;
- `ofDecimal?` reads `digits * 10 ^ exponent`;
- `mul?` and `div?` round the exact product and the exact quotient;
- `shortest` finds the fewest decimal digits that read back, and of those the nearest.

A number too large for the format has no representation (`none`).
-/

namespace WireTypes

structure Binary64 where
  negative : Bool
  significand : Nat
  scale : Nat
  deriving DecidableEq, Repr

namespace Binary64

/-! ## Constants of the format -/

/-- Significands of normal numbers start here. -/
def leastNormal : Nat := Nat.pow 2 52

/-- The scale of the largest finite numbers. -/
def greatestScale : Nat := 2045

def zero (negative : Bool) : Binary64 := ⟨negative, 0, 0⟩

def isZero (x : Binary64) : Bool := x.significand == 0

def negate (x : Binary64) : Binary64 := { x with negative := !x.negative }

/-- Equality of values: the two zeros are equal. -/
def same (x y : Binary64) : Bool :=
  (x.isZero && y.isZero) || x == y

/-! ## Rounding a quotient -/

/-- The natural number nearest to `num / den`, ties to even. -/
def divNearestEven (num den : Nat) : Nat :=
  let q := num / den
  let r := num % den
  if 2 * r < den then q
  else if den < 2 * r then q + 1
  else if q % 2 = 0 then q else q + 1

def ofRatio? (negative : Bool) (num den : Nat) : Option Binary64 :=
  let scaled := num * Nat.pow 2 1074
  let bits := Nat.log2 (scaled / den) + 1
  let scale := bits - 53
  let m := divNearestEven scaled (den * Nat.pow 2 scale)
  let x : Binary64 :=
    if m = Nat.pow 2 53 then ⟨negative, leastNormal, scale + 1⟩ else ⟨negative, m, scale⟩
  if x.scale ≤ greatestScale then some x else none

/-- The number of decimal digits of `n`. -/
def decimalWidth (n : Nat) : Nat := (Nat.toDigits 10 n).length

/-- Exponents far outside the format's range are decided without computing the power. -/
def ofDecimal? (negative : Bool) (digits : Nat) (exponent : Int) : Option Binary64 :=
  if digits = 0 then some (zero negative)
  else
    let magnitude := exponent + decimalWidth digits
    if magnitude > 400 then none
    else if magnitude < -400 then some (zero negative)
    else if exponent ≥ 0 then ofRatio? negative (digits * Nat.pow 10 exponent.toNat) 1
    else ofRatio? negative digits (Nat.pow 10 (-exponent).toNat)

/-! ## Products and quotients -/

/-- The magnitude times `2 ^ 1074`, a natural number. -/
def scaledMagnitude (x : Binary64) : Nat := x.significand * Nat.pow 2 x.scale

def mul? (x y : Binary64) : Option Binary64 :=
  ofRatio? (x.negative != y.negative) (x.scaledMagnitude * y.scaledMagnitude) (Nat.pow 2 2148)

/-- The divisor is not zero. -/
def div? (x y : Binary64) : Option Binary64 :=
  ofRatio? (x.negative != y.negative) x.scaledMagnitude y.scaledMagnitude

/-! ## The fewest digits that read back -/

/-- Twice the value, as a quotient: the value is `num / (2 * den)`, and the two ends of the interval
of reals that round to it are `low / (4 * den)` and `high / (4 * den)`. -/
structure Interval where
  low : Nat
  value : Nat
  high : Nat
  den : Nat
  closed : Bool

/-- All four numbers count quarters of the last place. -/
def interval (x : Binary64) : Interval :=
  let m := x.significand
  let gapBelow := if m = leastNormal ∧ x.scale > 0 then 1 else 2
  let up := Nat.pow 2 x.scale
  { low := (4 * m - gapBelow) * up
    value := 4 * m * up
    high := (4 * m + 2) * up
    den := 4 * Nat.pow 2 1074
    closed := m % 2 == 0 }

def Interval.holds (i : Interval) (num den : Nat) : Bool :=
  let here := num * i.den
  let low := i.low * den
  let high := i.high * den
  if i.closed then low ≤ here && here ≤ high else low < here && here < high

/-- The decimal exponent of the leading digit. -/
def leadingExponent (i : Interval) : Int :=
  (decimalWidth (i.value * Nat.pow 10 400 / i.den) : Int) - 401

/-- The better of the two neighbours of the value on the grid of multiples of `10 ^ exponent`, if one
lies in the interval. -/
def neighbour? (i : Interval) (exponent : Int) : Option Nat :=
  let unitNum := if exponent ≥ 0 then Nat.pow 10 exponent.toNat else 1
  let unitDen := if exponent ≥ 0 then 1 else Nat.pow 10 (-exponent).toNat
  let num := i.value * unitDen
  let den := i.den * unitNum
  let below := num / den
  let inside := fun (d : Nat) => i.holds (d * unitNum) unitDen
  let nearerBelow := 2 * (num % den) ≤ den
  match inside below, inside (below + 1) with
  | true, true => some (if nearerBelow then below else below + 1)
  | true, false => some below
  | false, true => some (below + 1)
  | false, false => none

/-- Tries ever finer grids; seventeen digits always suffice. -/
def shortestFrom (i : Interval) (lead : Int) : Nat → Int → Nat × Int
  | 0, exponent => ((neighbour? i exponent).getD 0, exponent)
  | tries + 1, exponent =>
      match neighbour? i exponent with
      | some digits => (digits, exponent)
      | none => shortestFrom i lead tries (exponent - 1)

/-- Digits `d` and exponent `e` with value `d * 10 ^ e` (of the magnitude). -/
def shortest (x : Binary64) : Nat × Int :=
  if x.isZero then (0, 0)
  else
    let i := x.interval
    let lead := leadingExponent i
    shortestFrom i lead 17 lead

end Binary64

end WireTypes
