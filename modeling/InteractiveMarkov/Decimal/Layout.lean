import InteractiveMarkov.Decimal.Shortest

set_option autoImplicit false

namespace InteractiveMarkov.Decimal

/-- The exponents of the first digit that are written positionally. -/
structure Layout where
  least : Int
  greatest : Int

def positional (digits : List Char) (lead : Int) : List Char :=
  if 0 ≤ lead then
    let places := lead.toNat + 1
    let whole := digits.take places
    let fraction := digits.drop places
    whole ++ List.replicate (places - whole.length) '0' ++ ['.']
      ++ (if fraction.isEmpty then ['0'] else fraction)
  else ['0', '.'] ++ List.replicate (-lead - 1).toNat '0' ++ digits

def scientific (digits : List Char) (lead : Int) : List Char :=
  let fraction := digits.drop 1
  digits.take 1 ++ (if fraction.isEmpty then [] else '.' :: fraction) ++ ['e']
    ++ [if lead < 0 then '-' else '+'] ++ Nat.toDigits 10 lead.natAbs

def Layout.write (layout : Layout) (x : Binary64) : String :=
  let mark := if x.negative then ['-'] else []
  if x.significand = 0 then String.ofList (mark ++ ['0', '.', '0'])
  else
    let (n, exponent) := shortest x
    let digits := Nat.toDigits 10 n
    let lead := exponent + digits.length - 1
    let body := if layout.least ≤ lead ∧ lead ≤ layout.greatest then positional digits lead
      else scientific digits lead
    String.ofList (mark ++ body)

end InteractiveMarkov.Decimal
