import InteractiveMarkov.Error
import InteractiveMarkov.Traversal

/-!
The known failure statuses of states. A status once known is not changed: demanding the other one
is a conflict, and what was written before a conflict stays. States whose status is not known
count as operational in the end.

Statuses spread along delays. A state that had a status before the spreading, an explicit state,
keeps it and receives none; from there on every state that has a status passes it to the states
its delays lead to.
-/

set_option autoImplicit false

namespace InteractiveMarkov

/-- An edge that survived a reduction, in the numbers of the input. -/
structure KeptEdge where
  source : StateId
  label : KeptLabel
  target : StateId
  deriving DecidableEq, Repr

abbrev StatusTable := StateMap Status

structure Demand where
  state : StateId
  status : Status
  cause : Cause
  deriving DecidableEq, Repr

namespace StatusTable

/-- Meets a demand, and tells whether the state had no status before. -/
def assign (table : StatusTable) (demand : Demand) : Except Error (StatusTable × Bool) :=
  match table[demand.state]? with
  | none => .ok (table.insert demand.state demand.status, true)
  | some existing =>
    if existing = demand.status then .ok (table, false)
    else .error (.conflict demand.state existing demand.status demand.cause)

/-- Meets demands in order up to the first conflict. -/
def assignAll : StatusTable → List Demand → StatusTable × Option Error
  | table, [] => (table, none)
  | table, demand :: rest =>
    match table.assign demand with
    | .ok (table, _) => assignAll table rest
    | .error e => (table, some e)

def resolved (table : StatusTable) (s : StateId) : Status := table.getD s .operational

/-- The delays along which a status can spread: from a live state to a state that is not
    explicit. The targets are resolved. -/
def channels (explicit : StatusTable) (live : StateSet) (edges : List KeptEdge)
    (resolve : StateId → StateId) : StateMap (List (KeptLabel × StateId)) :=
  StateMap.group ((edges.filter fun edge =>
      edge.label.isDelay && live.contains edge.source
        && !explicit.contains (resolve edge.target)).map
    fun edge => (edge.source, edge.label, resolve edge.target))

def passedOn (channels : StateMap (List (KeptLabel × StateId))) (s : StateId) (status : Status) :
    List Demand :=
  (channels.getD s []).map fun (label, target) => ⟨target, status, .delay label status s⟩

def spread (channels : StateMap (List (KeptLabel × StateId))) :
    List StateId → StatusTable → StatusTable × Option Error
  | [], table => (table, none)
  | s :: rest, table =>
    match table[s]? with
    | none => spread channels rest table
    | some status =>
      match table.assignAll (passedOn channels s status) with
      | (table, none) => spread channels rest table
      | (table, some e) => (table, some e)

/-- Spreads the statuses of live states along delays. Tells how many live states have no status
    in the end, or the first conflict; the order is that of a breadth-first search from the
    explicit live states. -/
def propagate (table : StatusTable) (live : StateSet) (edges : List KeptEdge)
    (resolve : StateId → StateId) : StatusTable × Except Error Nat :=
  let channels := table.channels live edges resolve
  let order := breadthFirst (channels.map fun _ delays => delays.map (·.2))
    (live.toList.filter table.contains)
  match spread channels order table with
  | (table, none) => (table, .ok (live.toList.countP fun s => !table.contains s))
  | (table, some e) => (table, .error e)

end StatusTable

end InteractiveMarkov
