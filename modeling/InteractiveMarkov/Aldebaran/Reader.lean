import InteractiveMarkov.Aldebaran.Line
import InteractiveMarkov.Text.Line

set_option autoImplicit false

namespace InteractiveMarkov.Aldebaran

def decoded (line : Option String) : Except Error String :=
  match line with
  | some text => .ok text
  | none => .error (.access .notUnicode)

def isBlankLine (text : String) : Bool := Text.allBlank text.toList

def findHeader : List (Option String) → Nat → Except Error (Header × List (Option String) × Nat)
  | [], _ => .error (.malformed 1 .empty)
  | line :: rest, number => do
    let text ← decoded line
    if isBlankLine text then findHeader rest (number + 1)
    else
      let header ← parseHeader text number
      .ok (header, rest, number)

def inRange (states : Nat) (edge : Edge) (line : Nat) : Except Error Unit :=
  if states ≤ edge.source then .error (.malformed line (.stateRange edge.source states))
  else if states ≤ edge.target then .error (.malformed line (.stateRange edge.target states))
  else .ok ()

/-- What the lines after the header gave so far, and the number of the last of them. The number
    starts as 1, whatever the line of the header is. -/
structure Body where
  automaton : Automaton
  last : Nat

/-- Reads the lines after the header, the first of which has the given number. Blank lines are
    skipped, but noted as last lines like the others. -/
def readTransitions (states : Nat) :
    List (Option String) → Nat → Body → Except Error Body
  | [], _, body => .ok body
  | line :: rest, number, body => do
    let text ← decoded line
    let body := { body with last := number }
    if isBlankLine text then readTransitions states rest (number + 1) body
    else
      let edge ← parseTransition text number
      inRange states edge number
      readTransitions states rest (number + 1)
        { body with automaton := body.automaton.extend edge }

/-- Reads a file given by its lines. A wrong count is reported at the last line. -/
def readLines (lines : List (Option String)) : Except Error Automaton := do
  let (header, rest, number) ← findHeader lines 1
  let ⟨a, last⟩ ← readTransitions header.states rest (number + 1)
    ⟨Automaton.withDeclared header.initial header.states, 1⟩
  if a.edgeCount = header.transitions then .ok a
  else .error (.malformed last (.count header.transitions a.edgeCount))

def readStored (bytes : ByteArray) : Except Error Automaton := readLines (Text.storedLines bytes)

end InteractiveMarkov.Aldebaran
