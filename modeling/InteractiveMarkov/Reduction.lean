import InteractiveMarkov.Chain
import InteractiveMarkov.MaximalProgress
import InteractiveMarkov.Merging

set_option autoImplicit false

namespace InteractiveMarkov

structure ReductionOptions where
  names : Vocabulary := {}
  merge : Bool := false
  deriving DecidableEq, Repr

structure Statistics where
  inputStates : Nat
  inputEdges : Nat
  reachable : Nat
  redirected : Nat
  merged : Nat
  preempted : Nat
  unknown : Nat
  outputStates : Nat
  outputTransitions : Nat
  failed : Nat
  deriving DecidableEq, Repr

/-- The outcome of a run. `silentOnly` counts the states that can only take silent steps and so
    end without edges. -/
structure Reduction where
  chain : Chain
  statistics : Statistics
  warnings : List Warning
  silentOnly : Nat
  deriving DecidableEq, Repr

namespace Automaton

/-- Reduces an automaton to its delays. -/
def reduce (a : Automaton) (options : ReductionOptions) : Except Error Reduction := do
  let found ← a.explore options.names
  let collapsed := found.redirects.collapse a.initial found.statuses
  if let some fault := collapsed.fault then throw fault
  let live := found.live
  let edges := found.edges.toList
  let resolve := collapsed.redirects.resolve
  let (statuses, unknown) := collapsed.statuses.propagate live edges resolve
  let unknown ← unknown
  let merge := if options.merge then mergeIdentical live edges resolve statuses
    else Merge.trivial live
  let chain ← emit a.initial merge.live edges (fun s => merge.representative (resolve s)) statuses
  return {
    chain := chain
    statistics := {
      inputStates := a.stateCount
      inputEdges := a.edgeCount
      reachable := found.visited.size
      redirected := found.redirects.size
      merged := merge.mergedCount
      preempted := found.preempted
      unknown := unknown
      outputStates := chain.stateCount
      outputTransitions := chain.transitions.length
      failed := chain.failedStates.length }
    warnings := found.warnings.toList
    silentOnly := 0 }

/-- Applies maximal progress and numbers the states; all count as operational. -/
def progress (a : Automaton) (options : ReductionOptions) : Except Error Reduction := do
  let left := a.maximalProgress options.names
  let chain ← emit a.initial left.visited left.edges id ∅
  return {
    chain := chain
    statistics := {
      inputStates := a.stateCount
      inputEdges := a.edgeCount
      reachable := left.visited.size
      redirected := 0
      merged := 0
      preempted := left.preempted
      unknown := 0
      outputStates := chain.stateCount
      outputTransitions := chain.transitions.length
      failed := chain.failedStates.length }
    warnings := left.warnings
    silentOnly := left.silentOnly.size }

end Automaton

end InteractiveMarkov
