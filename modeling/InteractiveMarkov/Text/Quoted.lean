import InteractiveMarkov.Text.Printable

set_option autoImplicit false

namespace InteractiveMarkov.Text

def hexText (n : Nat) : List Char := Nat.toDigits 16 n

def escapeByNumber (c : Char) : List Char :=
  ['\\', 'u', '\x7b'] ++ hexText c.toNat ++ ['\x7d']

def showChar (c : Char) : List Char :=
  if c = '\x00' then ['\\', '0']
  else if c = '\t' then ['\\', 't']
  else if c = '\r' then ['\\', 'r']
  else if c = '\n' then ['\\', 'n']
  else if c = '"' then ['\\', '"']
  else if c = '\\' then ['\\', '\\']
  else if isPrintable c then [c]
  else escapeByNumber c

def quoted (text : String) : String :=
  String.ofList (['"'] ++ text.toList.flatMap showChar ++ ['"'])

end InteractiveMarkov.Text
