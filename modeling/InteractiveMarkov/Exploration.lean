import InteractiveMarkov.Automaton
import InteractiveMarkov.Redirect

/-!
Exploring the states that can be reached under maximal progress. A state with an immediate edge
cannot let time pass: its delays are preempted, and it is redirected to the target of the edge. A
state without one keeps all its delays. Two immediate edges that are not copies of each other are
a choice that nothing resolves, which is an error.

States are explored in the order of a breadth-first search; the first error in that order counts.
-/

set_option autoImplicit false

namespace InteractiveMarkov

structure Step where
  label : String
  kind : LabelClass
  target : StateId
  deriving DecidableEq, Repr

namespace Step

def ofEdge (names : Vocabulary) (edge : Edge) : Step :=
  ⟨edge.label, names.classify edge.label, edge.target⟩

def isImmediate (step : Step) : Bool := step.kind.isImmediate

def isDelay (step : Step) : Bool := step.kind.isDelay

def keep? (step : Step) : Option KeptLabel := step.kind.keep? step.label

def keptEdge? (source : StateId) (step : Step) : Option KeptEdge :=
  step.keep?.map fun label => ⟨source, label, step.target⟩

def status? (step : Step) : Option Status :=
  match step.kind with
  | .interactive .failure => some .failed
  | .interactive .repair => some .operational
  | _ => none

/-- Another choice than the given one, and not a copy of it. -/
def differs (first other : Step) : Bool :=
  other.label != first.label || other.target != first.target

def successors (steps : List Step) : List StateId :=
  match steps.find? isImmediate with
  | some step => [step.target]
  | none => steps.map (·.target)

end Step

/-- An interactive action with no known effect; the run goes on. -/
structure Warning where
  state : StateId
  label : String
  deriving DecidableEq, Repr

def Warning.message (warning : Warning) : String :=
  "unknown transition label \"" ++ warning.label ++ "\" in state " ++ warning.state.repr
    ++ ", assuming no special effect"

def Automaton.steps (a : Automaton) (names : Vocabulary) : StateMap (List Step) :=
  a.adjacency.map fun _ edges => edges.map (Step.ofEdge names)

/-- What exploring learned. Delays keep the targets they have in the automaton; they and the
    warnings stand in the order of exploration. -/
structure Exploration where
  visited : StateSet
  redirects : RedirectMap
  statuses : StatusTable
  edges : Array KeptEdge
  warnings : Array Warning
  preempted : Nat

namespace Exploration

def start (visited : StateSet) : Exploration := ⟨visited, ∅, ∅, #[], #[], 0⟩

def redirect (x : Exploration) (s : StateId) (step : Step) : Except Error Exploration := do
  let statuses ← match step.status? with
    | none => pure x.statuses
    | some status =>
      (x.statuses.assign ⟨step.target, status, .action step.label s⟩).map (·.1)
  let warnings := match step.kind.unknownAction? with
    | none => x.warnings
    | some label => x.warnings.push ⟨s, label⟩
  .ok { x with
    statuses := statuses
    warnings := warnings
    redirects := x.redirects.insert s ⟨step.target, step.label⟩ }

def visit (x : Exploration) (s : StateId) (steps : List Step) : Except Error Exploration :=
  match steps.filter Step.isImmediate with
  | [] => .ok { x with edges := x.edges ++ steps.filterMap (Step.keptEdge? s) }
  | first :: others =>
    match others.find? first.differs with
    | some second => .error (.nondeterminism s first.label second.label)
    | none => do
      let x ← x.redirect s first
      .ok { x with preempted := x.preempted + steps.countP Step.isDelay }

def live (x : Exploration) : StateSet := x.visited.filter fun s => !x.redirects.contains s

end Exploration

def Automaton.reached (a : Automaton) (names : Vocabulary) : List StateId :=
  breadthFirst ((a.steps names).map fun _ steps => Step.successors steps) [a.initial]

def Automaton.explore (a : Automaton) (names : Vocabulary) : Except Error Exploration :=
  let steps := a.steps names
  let order := a.reached names
  order.foldlM (fun x s => x.visit s (steps.getD s []))
    (Exploration.start (Std.ExtTreeSet.ofList order))

end InteractiveMarkov
