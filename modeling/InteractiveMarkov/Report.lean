import InteractiveMarkov.Json
import InteractiveMarkov.Reduction

set_option autoImplicit false

namespace InteractiveMarkov

inductive ReportFormat where
  | table
  | json
  deriving DecidableEq, Repr

namespace Report

def shapeJson (shape : Automaton.Shape) : Json :=
  .object [
    ("total_states", .natural shape.states),
    ("total_edges", .natural shape.edges),
    ("deadlock_states", .natural shape.deadlocks),
    ("initial_state", .natural shape.initial)]

def statisticsJson (s : Statistics) : Json :=
  .object [
    ("input_states", .natural s.inputStates),
    ("input_edges", .natural s.inputEdges),
    ("reachable_states", .natural s.reachable),
    ("redirected_states", .natural s.redirected),
    ("merged_states", .natural s.merged),
    ("preempted_delays", .natural s.preempted),
    ("unknown_annotations", .natural s.unknown),
    ("output_states", .natural s.outputStates),
    ("output_transitions", .natural s.outputTransitions),
    ("failed_states", .natural s.failed)]

def json (shape : Automaton.Shape) (reduction : Reduction) : Json :=
  .object [
    ("automaton", shapeJson shape),
    ("reduction", statisticsJson reduction.statistics),
    ("failed_states", .array (reduction.chain.failedStates.map .natural)),
    ("rates_only", .bool reduction.chain.isRatesOnly),
    ("warnings", .array (reduction.warnings.map fun warning => .text warning.message))]

def labelWidth : Nat := 20

def ruler (c : Char) : String := String.ofList (List.replicate 60 c)

def tableLine (name : String) (value : Nat) : String :=
  "  " ++ name ++ String.ofList (List.replicate (labelWidth - name.length) ' ') ++ value.repr

def tableSection (title : String) (entries : List (String × Nat)) : List String :=
  [title ++ ":"] ++ entries.map (fun entry => tableLine (entry.1 ++ ":") entry.2) ++ [""]

def tableWarnings (warnings : List Warning) : List String :=
  if warnings.isEmpty then []
  else ["Warnings:", ruler '-'] ++ warnings.map (fun warning => "  " ++ warning.message) ++ [""]

def tableLines (shape : Automaton.Shape) (reduction : Reduction) : List String :=
  let s := reduction.statistics
  ["LTS Reduction - Analysis Results", ruler '=', ""]
    ++ tableSection "Input" [
      ("Initial State", shape.initial),
      ("States", shape.states),
      ("Transitions", shape.edges),
      ("Deadlock States", shape.deadlocks)]
    ++ tableSection "Reduction" [
      ("Reachable States", s.reachable),
      ("Redirected States", s.redirected),
      ("Merged States", s.merged),
      ("Preempted Delays", s.preempted),
      ("Unannotated States", s.unknown)]
    ++ tableSection "Output" [
      ("States", s.outputStates),
      ("Transitions", s.outputTransitions),
      ("Failed States", s.failed)]
    ++ tableWarnings reduction.warnings

def render (format : ReportFormat) (shape : Automaton.Shape) (reduction : Reduction) : String :=
  match format with
  | .json => (json shape reduction).render true ++ "\n"
  | .table => String.join ((tableLines shape reduction).map (· ++ "\n"))

end Report

end InteractiveMarkov
