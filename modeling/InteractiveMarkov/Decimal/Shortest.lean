import InteractiveMarkov.Decimal.Binary64

/-!
The shortest decimal of a floating-point value: among the decimals that round to the value, those
with the fewest digits, and of these the nearest; a tie goes to the even last digit. The decimals
that round to a value fill an interval whose ends belong to it if the significand is even. On the
grid of the decimals with a given number of digits, only the two neighbours of the value need a
look.
-/

set_option autoImplicit false

namespace InteractiveMarkov.Decimal

/-- A positive value and the interval that rounds to it, as numerators over one denominator. -/
structure Interval where
  low : Nat
  value : Nat
  high : Nat
  den : Nat
  closed : Bool
  deriving DecidableEq, Repr

def Interval.of (x : Binary64) : Interval :=
  let narrow := x.significand = twoTo 52 ∧ leastExponent < x.exponent
  let unit := twoTo (x.exponent - 2).toNat
  { low := (4 * x.significand - if narrow then 1 else 2) * unit
    value := 4 * x.significand * unit
    high := (4 * x.significand + 2) * unit
    den := twoTo (2 - x.exponent).toNat
    closed := x.significand % 2 == 0 }

def leadingExponent (num den : Nat) : Int :=
  if den ≤ num then (digitCount (num / den) : Int) - 1
  else -(digitCount ((den + num - 1) / num - 1) : Int)

def Interval.inUnits (i : Interval) (exponent : Int) : Interval :=
  let up := tenTo (-exponent).toNat
  { i with
    low := i.low * up
    value := i.value * up
    high := i.high * up
    den := i.den * tenTo exponent.toNat }

def Interval.contains (i : Interval) (n : Nat) : Bool :=
  let x := n * i.den
  if i.closed then decide (i.low ≤ x) && decide (x ≤ i.high)
  else decide (i.low < x) && decide (x < i.high)

/-- The integer in the interval that is nearest to the value, if one of the value's two neighbours
    lies in it. -/
def Interval.nearest? (i : Interval) : Option Nat :=
  let below := i.value / i.den
  let above := below + 1
  match i.contains below, i.contains above with
  | false, false => none
  | true, false => some below
  | false, true => some above
  | true, true =>
    let down := i.value - below * i.den
    let up := above * i.den - i.value
    some (if down < up ∨ down = up ∧ below % 2 = 0 then below else above)

def dropZeros (fuel n : Nat) (exponent : Int) : Nat × Int :=
  match fuel with
  | 0 => (n, exponent)
  | fuel + 1 => if n % 10 = 0 then dropZeros fuel (n / 10) (exponent + 1) else (n, exponent)

def shortest (x : Binary64) : Nat × Int :=
  let i := Interval.of x
  let lead := leadingExponent i.value i.den
  let found := (List.range 17).findSome? fun (n : Nat) =>
    let exponent := lead - (n : Int)
    (i.inUnits exponent).nearest?.map fun digits => (digits, exponent)
  match found with
  | some (digits, exponent) => dropZeros 18 digits exponent
  | none => (0, 0)

end InteractiveMarkov.Decimal
