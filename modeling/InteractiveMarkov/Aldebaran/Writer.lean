import InteractiveMarkov.Aldebaran.Line
import InteractiveMarkov.Chain
import InteractiveMarkov.Stream

set_option autoImplicit false

namespace InteractiveMarkov.Aldebaran

/-- States are numbered from 0 in the file. -/
def fileNumber : Nat → Except Error Nat
  | 0 => .error .unnumbered
  | n + 1 => .ok n

def transitionLine (transition : Transition) : Except Error String := do
  let source ← fileNumber transition.source
  let target ← fileNumber transition.target
  .ok ("(" ++ source.repr ++ ", " ++ quoteLabel transition.label.text ++ ", " ++ target.repr
    ++ ")\n")

def writeTransitions (transitions : List Transition) (stream : Stream) :
    Except Error (Stream × Nat) :=
  stream.putRecords transitionLine transitions

def write (chain : Chain) (stream : Stream) : Except Error (Stream × Nat) := do
  let initial ← fileNumber chain.initial
  let stream ← stream.put ("des (" ++ initial.repr ++ ", ")
  let (stream, place) ← stream.reserve
  let stream ← stream.put (", " ++ chain.stateCount.repr ++ ")\n")
  let (stream, written) ← writeTransitions chain.transitions stream
  let stream ← stream.patch place written
  .ok (stream, written)

end InteractiveMarkov.Aldebaran
