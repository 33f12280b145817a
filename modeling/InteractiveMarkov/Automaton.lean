import InteractiveMarkov.State
import InteractiveMarkov.Text.Quoted

set_option autoImplicit false

namespace InteractiveMarkov

structure Edge where
  source : StateId
  label : String
  target : StateId
  deriving DecidableEq, Repr

def Edge.describe (edge : Edge) : String :=
  "(" ++ edge.source.repr ++ ", " ++ Text.quoted edge.label ++ ", " ++ edge.target.repr ++ ")"

/-- A labelled transition system, whose labels are kept as text. Nodes stand in the order in which
    their states were first named, edges in the order in which they were added; `position` finds
    the node of a state. The count of declared states may exceed the states that have nodes. -/
structure Automaton where
  initial : StateId
  declared : Nat
  nodes : Array StateId
  position : StateMap Nat
  edges : Array Edge

namespace Automaton

/-- The automaton with one node, for its initial state. -/
def withDeclared (initial : StateId) (declared : Nat) : Automaton where
  initial := initial
  declared := declared
  nodes := #[initial]
  position := (∅ : StateMap Nat).insert initial 0
  edges := #[]

def new (initial : StateId) : Automaton := withDeclared initial 0

def addState (a : Automaton) (s : StateId) : Automaton × Nat :=
  match a.position[s]? with
  | some node => (a, node)
  | none =>
    ({ a with nodes := a.nodes.push s, position := a.position.insert s a.nodes.size },
      a.nodes.size)

def addEdge (a : Automaton) (edge : Edge) : Automaton × Option Nat :=
  if edge.source ∈ a.position ∧ edge.target ∈ a.position then
    ({ a with edges := a.edges.push edge }, some a.edges.size)
  else (a, none)

def extend (a : Automaton) (edge : Edge) : Automaton :=
  (((a.addState edge.source).1.addState edge.target).1.addEdge edge).1

def ofEdges (initial : StateId) (edges : List Edge) : Automaton :=
  edges.foldl extend (new initial)

def outgoing (a : Automaton) (s : StateId) : List Edge := a.edges.toList.filter (·.source = s)

def adjacency (a : Automaton) : StateMap (List Edge) :=
  StateMap.group (a.edges.toList.map fun edge => (edge.source, edge))

theorem getD_adjacency (a : Automaton) (s : StateId) :
    a.adjacency.getD s [] = a.outgoing s := by
  simp [adjacency, outgoing, StateMap.getD_group, List.filter_map, Function.comp_def]

def stateCount (a : Automaton) : Nat := max a.nodes.size a.declared

def edgeCount (a : Automaton) : Nat := a.edges.size

def deadlocks (a : Automaton) : List StateId :=
  let leaving := a.adjacency
  (a.nodes.toList.filter fun s => !leaving.contains s).mergeSort

/-- The shape of an automaton as read. A declared state without a node is a deadlock. -/
structure Shape where
  states : Nat
  edges : Nat
  deadlocks : Nat
  initial : StateId
  deriving DecidableEq, Repr

def shape (a : Automaton) : Shape where
  states := a.stateCount
  edges := a.edgeCount
  deadlocks := a.deadlocks.length + (a.declared - a.nodes.size)
  initial := a.initial

end Automaton

end InteractiveMarkov
