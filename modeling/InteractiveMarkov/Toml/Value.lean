import InteractiveMarkov.Decimal.Binary64

set_option autoImplicit false

namespace InteractiveMarkov.Toml

/-- Numbers are kept as they are written. An integer that has the form of one while its digits are
    none has no value. -/
inductive Value where
  | text (value : String)
  | integer (value : Option Int)
  | float (value : Decimal.Literal)
  | bool (value : Bool)
  | moment (value : String)
  | array (items : List Value)
  | table (entries : List (String × Value))

abbrev Entries := List (String × Value)

/-- Integers that have a machine representation of up to 128 bits, signed or not. -/
def fitsInteger (n : Int) : Bool :=
  decide (-(Decimal.twoTo 127 : Int) ≤ n) && decide (n < (Decimal.twoTo 128 : Int))

/-- Floats that do not exceed the greatest finite value. Infinities and no number at all are
    representable. -/
def fitsFloat : Decimal.Literal → Bool
  | .finite negative digits exponent =>
    (Decimal.Binary64.ofDecimal negative digits exponent).isSome
  | _ => true

mutual

def Value.isRepresentable : Value → Bool
  | .integer value => value.any fitsInteger
  | .float literal => fitsFloat literal
  | .array items => areRepresentable items
  | .table entries => entriesRepresentable entries
  | _ => true

def areRepresentable : List Value → Bool
  | [] => true
  | item :: rest => item.isRepresentable && areRepresentable rest

def entriesRepresentable : List (String × Value) → Bool
  | [] => true
  | (_, value) :: rest => value.isRepresentable && entriesRepresentable rest

end

end InteractiveMarkov.Toml
