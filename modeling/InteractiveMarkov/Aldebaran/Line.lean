import InteractiveMarkov.Error
import InteractiveMarkov.Automaton

/-!
The two kinds of line of an Aldebaran file.

* The header is `des (I, T, S)`: initial state, number of transitions, number of states.
* A transition is `(S, L, T)`. Its label is either quoted, where a backslash takes the character
  after it literally, or bare, and then it holds neither a quote nor a comma and loses the white
  space around it.

White space is free between the parts. A numeral is a run of decimal digits of any script, but
only ASCII digits below the bound of the field denote a number.
-/

set_option autoImplicit false

namespace InteractiveMarkov.Aldebaran

open Text

abbrev Reading (α : Type) := Option (α × List Char)

def symbol (c : Char) (cs : List Char) : Option (List Char) :=
  match skipBlanks cs with
  | d :: rest => if d = c then some rest else none
  | [] => none

def word (expected : List Char) (cs : List Char) : Option (List Char) :=
  let cs := skipBlanks cs
  if expected.isPrefixOf cs then some (cs.drop expected.length) else none

def numeral (cs : List Char) : Reading (List Char) :=
  let cs := skipBlanks cs
  let digits := cs.takeWhile isDecimal
  if digits.isEmpty then none else some (digits, cs.drop digits.length)

/-- Takes a quoted body up to and with its closing quote. The label is the body less the
    backslashes that take the next character literally; a line feed cannot be taken so. -/
def quotedBody : List Char → Reading (List Char)
  | [] => none
  | '"' :: rest => some ([], rest)
  | '\\' :: c :: rest =>
    if c = '\n' then none else (quotedBody rest).map fun (label, rest) => (c :: label, rest)
  | c :: rest =>
    if c = '\\' then none else (quotedBody rest).map fun (label, rest) => (c :: label, rest)

def bareLabel (cs : List Char) : List Char × List Char :=
  let run := cs.takeWhile fun c => c != '"' && c != ','
  (trim run, cs.drop run.length)

def label (cs : List Char) : Reading (List Char) :=
  match skipBlanks cs with
  | '"' :: rest => quotedBody rest
  | cs => some (bareLabel cs)

def headerParts (line : List Char) : Option (List Char × List Char × List Char) := do
  let cs ← word ['d', 'e', 's'] line
  let (initial, cs) ← (symbol '(' cs).bind numeral
  let (transitions, cs) ← (symbol ',' cs).bind numeral
  let (states, cs) ← (symbol ',' cs).bind numeral
  let cs ← symbol ')' cs
  if allBlank cs then some (initial, transitions, states) else none

def transitionParts (line : List Char) : Option (List Char × List Char × List Char) := do
  let (source, cs) ← (symbol '(' line).bind numeral
  let (label, cs) ← (symbol ',' cs).bind label
  let (target, cs) ← (symbol ',' cs).bind numeral
  let cs ← symbol ')' cs
  if allBlank cs then some (source, label, target) else none

def value? (digits : List Char) : Option Nat :=
  if digits.all Char.isDigit then
    some (digits.foldl (fun n c => 10 * n + (c.toNat - '0'.toNat)) 0)
  else none

def number (bound line : Nat) (digits : List Char) : Except Error Nat :=
  match (value? digits).filter (· < bound) with
  | some n => .ok n
  | none => .error (.malformed line (.numberRange (String.ofList digits)))

structure Header where
  initial : StateId
  transitions : Nat
  states : Nat
  deriving DecidableEq, Repr

def parseHeader (text : String) (line : Nat) : Except Error Header :=
  match headerParts text.toList with
  | none => .error (.malformed line (.noHeader text))
  | some (initial, transitions, states) => do
    let header : Header := {
      initial := ← number stateBound line initial
      transitions := ← number countBound line transitions
      states := ← number stateBound line states }
    if header.initial < header.states then .ok header
    else .error (.malformed line (.initialRange header.initial header.states))

def parseTransition (text : String) (line : Nat) : Except Error Edge :=
  match transitionParts text.toList with
  | none => .error (.malformed line (.noTransition text))
  | some (source, label, target) => do
    let source ← number stateBound line source
    let target ← number stateBound line target
    .ok ⟨source, String.ofList label, target⟩

/-- A label as the writer puts it: between quotes, with a backslash before each quote and each
    backslash. -/
def quoteLabel (label : String) : String :=
  String.ofList (['"'] ++ label.toList.flatMap
    (fun c => if c = '"' ∨ c = '\\' then ['\\', c] else [c]) ++ ['"'])

end InteractiveMarkov.Aldebaran
