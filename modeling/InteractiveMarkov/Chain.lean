import InteractiveMarkov.Statuses

set_option autoImplicit false

namespace InteractiveMarkov

structure Transition where
  source : Nat
  label : KeptLabel
  target : Nat
  deriving DecidableEq, Repr

/-- The states are `1` to `stateCount`; the status of state `n` stands at place `n - 1`. -/
structure Chain where
  initial : Nat
  stateCount : Nat
  transitions : List Transition
  statuses : List Status
  deriving DecidableEq, Repr

namespace Chain

/-- The status of a state; the number 0 belongs to no state. -/
def status? (chain : Chain) : Nat → Option Status
  | 0 => none
  | place + 1 => chain.statuses[place]?

def isFailed (chain : Chain) (n : Nat) : Bool := (chain.status? n).any Status.isFailed

theorem isFailed_iff {chain : Chain} {n : Nat} :
    chain.isFailed n = true ↔ chain.status? n = some .failed := by
  unfold isFailed
  cases chain.status? n with
  | none => simp
  | some status => cases status <;> simp [Status.isFailed]

def states (chain : Chain) : List Nat := List.range' 1 chain.stateCount

def failedStates (chain : Chain) : List Nat := chain.states.filter chain.isFailed

theorem mem_failedStates {chain : Chain} {n : Nat} : n ∈ chain.failedStates ↔
    (1 ≤ n ∧ n ≤ chain.stateCount) ∧ chain.status? n = some .failed := by
  rw [failedStates, List.mem_filter, isFailed_iff, states, List.mem_range'_1]
  refine and_congr_left fun _ => and_congr_right fun _ => ?_
  omega

theorem bounds_of_status? {chain : Chain} (h : chain.statuses.length = chain.stateCount) {n : Nat}
    {status : Status} (hstatus : chain.status? n = some status) :
    1 ≤ n ∧ n ≤ chain.stateCount := by
  cases n with
  | zero => cases hstatus
  | succ place =>
    obtain ⟨hplace, -⟩ := List.getElem?_eq_some_iff.1 hstatus
    omega

def isRatesOnly (chain : Chain) : Bool := chain.transitions.all (·.label.isRate)

end Chain

def numbering (live : StateSet) : StateMap Nat :=
  Std.ExtTreeMap.ofList (live.toList.zip (List.range' 1 live.size))

def numberOf (numbers : StateMap Nat) (source s : StateId) : Except Error Nat :=
  match numbers[s]? with
  | some n => .ok n
  | none => .error (.dangling source s)

/-- The transition that an edge becomes; an edge of a state that does not remain becomes none. -/
def renumber? (numbers : StateMap Nat) (resolve : StateId → StateId) (edge : KeptEdge) :
    Except Error (Option Transition) :=
  match numbers[edge.source]? with
  | none => .ok none
  | some source => do
    let target ← numberOf numbers edge.source (resolve edge.target)
    .ok (some ⟨source, edge.label, target⟩)

/-- Numbers the states that remain and rewrites their edges. -/
def emit (initial : StateId) (live : StateSet) (edges : List KeptEdge)
    (resolve : StateId → StateId) (statuses : StatusTable) : Except Error Chain := do
  let numbers := numbering live
  let first ← numberOf numbers initial (resolve initial)
  let transitions ← edges.mapM (renumber? numbers resolve)
  .ok {
    initial := first
    stateCount := live.size
    transitions := transitions.filterMap id
    statuses := live.toList.map statuses.resolved }

end InteractiveMarkov
