import InteractiveMarkov.Decimal.Layout
import InteractiveMarkov.Text.Quoted

set_option autoImplicit false

namespace InteractiveMarkov

inductive Json where
  | bool (value : Bool)
  | natural (value : Nat)
  | float (value : Decimal.Binary64)
  | text (value : String)
  | array (items : List Json)
  | object (fields : List (String × Json))

namespace Json

/-- Floating-point numbers are written positionally from 0.00001 up to 16 digits. -/
def floatLayout : Decimal.Layout := ⟨-5, 15⟩

def hexByte (n : Nat) : List Char := Nat.toDigits 16 (n / 16) ++ Nat.toDigits 16 (n % 16)

def escape (c : Char) : List Char :=
  if c = '"' then ['\\', '"']
  else if c = '\\' then ['\\', '\\']
  else if c = '\x08' then ['\\', 'b']
  else if c = '\x0c' then ['\\', 'f']
  else if c = '\n' then ['\\', 'n']
  else if c = '\r' then ['\\', 'r']
  else if c = '\t' then ['\\', 't']
  else if c.toNat < 0x20 then ['\\', 'u', '0', '0'] ++ hexByte c.toNat
  else [c]

def quote (text : String) : String :=
  String.ofList (['"'] ++ text.toList.flatMap escape ++ ['"'])

def opening : String := "\x7b"

def closing : String := "\x7d"

def byName (fields : List (String × String)) : List (String × String) :=
  fields.mergeSort fun a b => decide (a.1 ≤ b.1)

mutual

def compact : Json → String
  | bool value => if value then "true" else "false"
  | natural value => value.repr
  | float value => floatLayout.write value
  | text value => quote value
  | array items => "[" ++ ",".intercalate (compactItems items) ++ "]"
  | object fields =>
    opening ++ ",".intercalate ((byName (compactFields fields)).map fun field =>
      quote field.1 ++ ":" ++ field.2) ++ closing

def compactItems : List Json → List String
  | [] => []
  | item :: rest => compact item :: compactItems rest

def compactFields : List (String × Json) → List (String × String)
  | [] => []
  | (name, value) :: rest => (name, compact value) :: compactFields rest

end

def lineAt (depth : Nat) : String := String.ofList ('\n' :: List.replicate (2 * depth) ' ')

/-- Puts each item on a line of its own; without items nothing is put between the brackets. -/
def block (left right : String) (depth : Nat) (items : List String) : String :=
  if items.isEmpty then left ++ right
  else left ++ ",".intercalate (items.map (lineAt (depth + 1) ++ ·)) ++ lineAt depth ++ right

mutual

def indented (depth : Nat) : Json → String
  | bool value => if value then "true" else "false"
  | natural value => value.repr
  | float value => floatLayout.write value
  | text value => quote value
  | array items => block "[" "]" depth (indentedItems (depth + 1) items)
  | object fields =>
    block opening closing depth ((byName (indentedFields (depth + 1) fields)).map fun field =>
      quote field.1 ++ ": " ++ field.2)

def indentedItems (depth : Nat) : List Json → List String
  | [] => []
  | item :: rest => indented depth item :: indentedItems depth rest

def indentedFields (depth : Nat) : List (String × Json) → List (String × String)
  | [] => []
  | (name, value) :: rest => (name, indented depth value) :: indentedFields depth rest

end

def render (pretty : Bool) (value : Json) : String :=
  if pretty then value.indented 0 else value.compact

end Json

end InteractiveMarkov
