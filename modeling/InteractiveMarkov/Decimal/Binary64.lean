import InteractiveMarkov.Decimal.Literal

set_option autoImplicit false

namespace InteractiveMarkov.Decimal

/-- The value `± significand · 2 ^ exponent`. The exponent is at least `leastExponent`, and above
    that the significand has all its 53 bits, so each value has one form for each sign. -/
structure Binary64 where
  negative : Bool
  significand : Nat
  exponent : Int
  deriving DecidableEq, Repr

def leastExponent : Int := -1074

def greatestExponent : Int := 971

/-- The nearest natural number to a quotient, a tie going to the even one. -/
def roundDiv (num den : Nat) : Nat :=
  let q := num / den
  let r := num % den
  if 2 * r < den then q
  else if den < 2 * r then q + 1
  else if q % 2 = 0 then q else q + 1

def scaled (num den : Nat) (exponent : Int) : Nat × Nat :=
  if 0 ≤ exponent then (num, den * twoTo exponent.toNat) else (num * twoTo (-exponent).toNat, den)

/-- The exponent in whose units a positive quotient has 53 bits, if that is not too small. -/
def exponentOf (num den : Nat) : Int :=
  let guess : Int := (num.log2 : Int) - den.log2 - 52
  let (n, d) := scaled num den guess
  max leastExponent (if n < twoTo 52 * d then guess - 1 else guess)

/-- The value nearest to a quotient; none if that is beyond the greatest. -/
def Binary64.ofQuotient (negative : Bool) (num den : Nat) : Option Binary64 :=
  if num = 0 then some ⟨negative, 0, leastExponent⟩
  else
    let e := exponentOf num den
    let (n, d) := scaled num den e
    let m := roundDiv n d
    let (m, e) := if m = twoTo 53 then (twoTo 52, e + 1) else (m, e)
    if greatestExponent < e then none else some ⟨negative, m, e⟩

def digitCount (n : Nat) : Nat := (Nat.toDigits 10 n).length

/-- The value nearest to `± digits · 10 ^ exponent`; none if that is beyond the greatest. Decimals
    far outside the range are decided by their magnitude alone. -/
def Binary64.ofDecimal (negative : Bool) (digits : Nat) (exponent : Int) : Option Binary64 :=
  let magnitude := exponent + digitCount digits
  if digits = 0 ∨ magnitude < -330 then some ⟨negative, 0, leastExponent⟩
  else if 310 < magnitude then none
  else if 0 ≤ exponent then ofQuotient negative (digits * tenTo exponent.toNat) 1
  else ofQuotient negative digits (tenTo (-exponent).toNat)

def Binary64.parse? (cs : List Char) : Option Binary64 :=
  match Decimal.parse? cs with
  | some (.finite negative digits exponent) => ofDecimal negative digits exponent
  | _ => none

def Binary64.isPositive (x : Binary64) : Bool := !x.negative && x.significand != 0

end InteractiveMarkov.Decimal
