import InteractiveMarkov.Decimal.Binary64
import InteractiveMarkov.Toml.Value

set_option autoImplicit false

namespace InteractiveMarkov.Toml

abbrev Reading (α : Type) := Option (α × List Char)

def isSpace (c : Char) : Bool := c == ' ' || c == '\t'

def skipSpaces (cs : List Char) : List Char := cs.dropWhile isSpace

def lineEnd? : List Char → Option (List Char)
  | '\n' :: rest => some rest
  | '\r' :: '\n' :: rest => some rest
  | _ => none

/-- Control characters other than the tab stand nowhere in a document as themselves. -/
def isControl (c : Char) : Bool := (c.toNat < 0x20 && c != '\t') || c.toNat == 0x7F

def isHexDigit (c : Char) : Bool :=
  c.isDigit || ('a' ≤ c && c ≤ 'f') || ('A' ≤ c && c ≤ 'F')

def isOctalDigit (c : Char) : Bool := '0' ≤ c && c ≤ '7'

def isBinaryDigit (c : Char) : Bool := c == '0' || c == '1'

def hexValue (c : Char) : Nat :=
  if c.isDigit then c.toNat - '0'.toNat else c.toLower.toNat - 'a'.toNat + 10

def ofBase (base : Nat) (digits : List Char) : Nat :=
  digits.foldl (fun n c => base * n + hexValue c) 0

/-- Drops the underscores of a number, each of which stands between two digits; `afterDigit` tells
    whether a digit came before. -/
def dropUnderscores? (isDigit : Char → Bool) (afterDigit : Bool) :
    List Char → Option (List Char)
  | [] => some []
  | c :: rest =>
    if c = '_' then
      if afterDigit && rest.head?.any isDigit then dropUnderscores? isDigit false rest else none
    else (dropUnderscores? isDigit (isDigit c) rest).map (c :: ·)

/-- The integer of a base other than ten, after its mark. No digit at all is allowed, and gives an
    integer without a value. -/
def basedInteger? (base : Nat) (isDigit : Char → Bool) (cs : List Char) : Option (Option Int) :=
  match dropUnderscores? isDigit false cs with
  | some [] => some none
  | some digits => if digits.all isDigit then some (some (ofBase base digits)) else none
  | none => none

def isFloatMark (c : Char) : Bool := c == '.' || c == 'e' || c == 'E'

def signedInteger (negative : Bool) (digits : List Char) : Int :=
  if negative then -(Decimal.ofDigits digits : Int) else Decimal.ofDigits digits

/-- A decimal integer. It does not start with a zero, unless it is zero. The digits up to the first
    underscore give it its form; what follows that underscore may leave it without a value. Of
    that part the form asks only that it holds no space (a tab may pass), and that digits stand
    beside an underscore; it takes those of any base, as in an integer with a mark. -/
def decimalInteger? (cs : List Char) : Option (Option Int) :=
  let (negative, body) := Decimal.sign cs
  let more := body.dropWhile Char.isDigit
  if body.isEmpty || (body.head? == some '0' && body.length != 1) then none
  else if more.isEmpty then some (some (signedInteger negative body))
  else if more.head? == some '_' && !more.any fun c => isFloatMark c || c == ' ' then
    (dropUnderscores? isHexDigit false body).map fun digits =>
      if digits.all Char.isDigit then some (signedInteger negative digits) else none
  else none

def integer? : List Char → Option (Option Int)
  | '0' :: 'x' :: rest => basedInteger? 16 isHexDigit rest
  | '0' :: 'o' :: rest => basedInteger? 8 isOctalDigit rest
  | '0' :: 'b' :: rest => basedInteger? 2 isBinaryDigit rest
  | cs => decimalInteger? cs

/-- Digits come first, and something follows them; if that is a point, a digit stands behind it. -/
def isFloatForm (cs : List Char) : Bool :=
  let whole := cs.takeWhile Char.isDigit
  !whole.isEmpty && match cs.drop whole.length with
    | '.' :: rest => rest.head?.any Char.isDigit
    | rest => !rest.isEmpty

/-- A float. Its whole part does not start with a zero, unless it is zero. -/
def float? (cs : List Char) : Option Decimal.Literal :=
  let (negative, body) := Decimal.sign cs
  if body = ['i', 'n', 'f'] then some (.infinite negative)
  else if body = ['n', 'a', 'n'] then some .notANumber
  else (dropUnderscores? Char.isDigit false body).bind fun digits =>
    let whole := digits.takeWhile Char.isDigit
    if body.head? == some '0' && whole.length != 1 then none
    else if isFloatForm digits then Decimal.digits? negative digits
    else none

def fixedNumber (width low high : Nat) (cs : List Char) : Reading Nat :=
  let digits := cs.take width
  let n := Decimal.ofDigits digits
  if digits.length = width ∧ digits.all Char.isDigit ∧ low ≤ n ∧ n ≤ high then
    some (n, cs.drop width)
  else none

def mark? (expected : Char) : List Char → Option (List Char)
  | c :: rest => if c = expected then some rest else none
  | [] => none

def isLeapYear (year : Nat) : Bool := year % 4 == 0 && (year % 100 != 0 || year % 400 == 0)

def daysIn (year month : Nat) : Nat :=
  if month = 2 then (if isLeapYear year then 29 else 28)
  else if month = 4 ∨ month = 6 ∨ month = 9 ∨ month = 11 then 30
  else 31

def date? (cs : List Char) : Option (List Char) := do
  let (year, cs) ← fixedNumber 4 0 9999 cs
  let (month, cs) ← mark? '-' cs >>= fixedNumber 2 1 12
  let (_, cs) ← mark? '-' cs >>= fixedNumber 2 1 (daysIn year month)
  some cs

/-- Takes the seconds of a time, if there are any. They may be a leap second and have a fraction. -/
def seconds? : List Char → Option (List Char)
  | ':' :: rest => do
    let (_, cs) ← fixedNumber 2 0 60 rest
    match cs with
    | '.' :: rest =>
      let fraction := rest.takeWhile Char.isDigit
      if fraction.isEmpty then none else some (rest.drop fraction.length)
    | cs => some cs
  | cs => some cs

def time? (cs : List Char) : Option (List Char) := do
  let (_, cs) ← fixedNumber 2 0 23 cs
  let (_, cs) ← mark? ':' cs >>= fixedNumber 2 0 59
  seconds? cs

def offset? : List Char → Option (List Char)
  | [] => some []
  | c :: rest =>
    if c = 'Z' ∨ c = 'z' then some rest
    else if c = '+' ∨ c = '-' then do
      let (_, cs) ← fixedNumber 2 0 23 rest
      let (_, cs) ← mark? ':' cs >>= fixedNumber 2 0 59
      some cs
    else none

def isMoment (cs : List Char) : Bool :=
  match date? cs with
  | some [] => true
  | some (sep :: rest) =>
    (sep == 'T' || sep == 't' || sep == ' ') && ((time? rest).bind offset?) == some []
  | none => time? cs == some []

def plain? (cs : List Char) : Option Value :=
  if cs = ['t', 'r', 'u', 'e'] then some (.bool true)
  else if cs = ['f', 'a', 'l', 's', 'e'] then some (.bool false)
  else if isMoment cs then some (.moment (String.ofList cs))
  else (integer? cs).map .integer <|> (float? cs).map .float

def isPlainChar (c : Char) : Bool :=
  !(isSpace c || ['\n', '\r', '#', '=', ',', '[', ']', '\x7b', '\x7d'].contains c)

def isQuote (c : Char) : Bool := c == '"' || c == '\''

/-- The runs of plain characters with the white space between and behind them. A quote opens a
    string only after white space, and ends the runs there; `afterSpace` tells whether white space
    came before. -/
def plainRuns (afterSpace : Bool) : List Char → List Char
  | [] => []
  | c :: rest =>
    if isSpace c then c :: plainRuns true rest
    else if isPlainChar c && !(afterSpace && isQuote c) then c :: plainRuns false rest
    else []

/-- Takes a plain value. White space inside it belongs to it, as between a date and its time. -/
def plain (cs : List Char) : Reading Value :=
  let run := (skipSpaces (plainRuns false cs).reverse).reverse
  (plain? run).map fun value => (value, cs.drop run.length)

def literalBody : List Char → Reading (List Char)
  | [] => none
  | '\'' :: rest => some ([], rest)
  | c :: rest =>
    if isControl c then none else (literalBody rest).map fun (body, rest) => (c :: body, rest)

def scalar? (width : Nat) (cs : List Char) : Reading Char :=
  let digits := cs.take width
  let n := ofBase 16 digits
  if digits.length = width ∧ digits.all isHexDigit ∧ n.isValidChar then
    some (Char.ofNat n, cs.drop width)
  else none

def letterEscape? (c : Char) : Option Char :=
  if c = 'b' then some '\x08'
  else if c = 'e' then some '\x1b'
  else if c = 't' then some '\t'
  else if c = 'n' then some '\n'
  else if c = 'f' then some '\x0c'
  else if c = 'r' then some '\r'
  else if c = '"' then some '"'
  else if c = '\\' then some '\\'
  else none

def escape? : List Char → Reading Char
  | 'x' :: rest => scalar? 2 rest
  | 'u' :: rest => scalar? 4 rest
  | 'U' :: rest => scalar? 8 rest
  | c :: rest => (letterEscape? c).map fun d => (d, rest)
  | [] => none

def basicBody : Nat → List Char → Reading (List Char)
  | 0, _ => none
  | _, [] => none
  | _, '"' :: rest => some ([], rest)
  | fuel + 1, '\\' :: rest =>
    (escape? rest).bind fun (c, rest) =>
      (basicBody fuel rest).map fun (body, rest) => (c :: body, rest)
  | fuel + 1, c :: rest =>
    if isControl c then none
    else (basicBody fuel rest).map fun (body, rest) => (c :: body, rest)

/-- What three or more quotes close: up to two of them still belong to the string. -/
def closingRun (quote : Char) (cs : List Char) : Option (List Char × List Char) :=
  let run := (cs.takeWhile (· == quote)).length
  if run < 3 then none
  else
    let extra := min (run - 3) 2
    some (List.replicate extra quote, cs.drop (extra + 3))

def skipBlankLines : List Char → List Char
  | [] => []
  | '\n' :: rest => skipBlankLines rest
  | '\r' :: '\n' :: rest => skipBlankLines rest
  | c :: rest => if isSpace c then skipBlankLines rest else c :: rest

def lineJoin? (cs : List Char) : Option (List Char) :=
  (lineEnd? (skipSpaces cs)).map skipBlankLines

/-- Takes a string of several lines; `escapes` tells a basic from a literal one. -/
def longBody (quote : Char) (escapes : Bool) : Nat → List Char → Reading (List Char)
  | 0, _ => none
  | _, [] => none
  | fuel + 1, c :: rest =>
    match closingRun quote (c :: rest) with
    | some closed => some closed
    | none =>
      if escapes && c == '\\' then
        match lineJoin? rest with
        | some rest => longBody quote escapes fuel rest
        | none =>
          (escape? rest).bind fun (d, rest) =>
            (longBody quote escapes fuel rest).map fun (body, rest) => (d :: body, rest)
      else if isControl c && (lineEnd? (c :: rest)).isNone then none
      else (longBody quote escapes fuel rest).map fun (body, rest) => (c :: body, rest)

/-- A line end right after the opening quotes is no part of the string. -/
def longString (quote : Char) (escapes : Bool) (cs : List Char) : Reading (List Char) :=
  longBody quote escapes (cs.length + 1) ((lineEnd? cs).getD cs)

def shortString : List Char → Reading String
  | '"' :: rest => (basicBody (rest.length + 1) rest).map fun (body, rest) =>
    (String.ofList body, rest)
  | '\'' :: rest => (literalBody rest).map fun (body, rest) => (String.ofList body, rest)
  | _ => none

def string : List Char → Reading String
  | '"' :: '"' :: '"' :: rest => (longString '"' true rest).map fun (body, rest) =>
    (String.ofList body, rest)
  | '\'' :: '\'' :: '\'' :: rest => (longString '\'' false rest).map fun (body, rest) =>
    (String.ofList body, rest)
  | cs => shortString cs

end InteractiveMarkov.Toml
