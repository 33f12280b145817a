import InteractiveMarkov.Chain
import InteractiveMarkov.Decimal.Binary64
import InteractiveMarkov.Stream

set_option autoImplicit false

namespace InteractiveMarkov.RateMatrix

/-- Rows with one source and one target keep the order of their transitions. -/
def rows (chain : Chain) : List Transition :=
  chain.transitions.mergeSort fun a b =>
    (compare (a.source, a.target) (b.source, b.target)).isLE

/-- The text of a rate, trimmed, if it denotes a finite positive number. -/
def rateText? : KeptLabel → Option String
  | .rate expr =>
    let cs := Text.trim expr.toList
    if (Decimal.Binary64.parse? cs).any (·.isPositive) then some (String.ofList cs) else none
  | _ => none

def row (transition : Transition) : Except Error String :=
  match rateText? transition.label with
  | some rate =>
    .ok (transition.source.repr ++ " " ++ transition.target.repr ++ " " ++ rate ++ "\n")
  | none => .error (.unsupportedLabel .rateMatrix transition.label.text)

def writeRows (transitions : List Transition) (stream : Stream) : Except Error (Stream × Nat) :=
  stream.putRecords row transitions

def write (chain : Chain) (stream : Stream) : Except Error (Stream × Nat) := do
  let stream ← stream.put ("STATES " ++ chain.stateCount.repr ++ "\n")
  let stream ← stream.put "TRANSITIONS "
  let (stream, place) ← stream.reserve
  let stream ← stream.put "\n"
  let (stream, written) ← writeRows (rows chain) stream
  let stream ← stream.patch place written
  .ok (stream, written)

def propositions (chain : Chain) (n : Nat) : List String :=
  (if n = chain.initial then ["init"] else []) ++ (if chain.isFailed n then ["failed"] else [])

def labelLine? (chain : Chain) (n : Nat) : Option String :=
  match propositions chain n with
  | [] => none
  | names => some (n.repr ++ " " ++ " ".intercalate names ++ "\n")

def writeLabels (chain : Chain) (stream : Stream) : Except Error Stream :=
  (["#DECLARATION\n", "init failed\n", "#END\n"]
    ++ chain.states.filterMap (labelLine? chain)).foldlM Stream.put stream

end InteractiveMarkov.RateMatrix
