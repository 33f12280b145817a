import InteractiveMarkov.Exploration

/-!
Maximal progress without redirects. States keep their identity and interactive edges stay. A state
with an immediate edge is urgent and loses its exponential delays; its timed delays survive only
if the state can be entered at the instant a timed delay ends, directly or through immediate edges
(it is then timed). Silent edges are followed but never kept, so a state that can only take silent
steps ends without edges.

Being timed may be learned after a state was explored; the state is then explored again, and the
later exploration replaces the earlier one. A state is queued when it is first reached and when it
becomes timed, so at most twice.
-/

set_option autoImplicit false

namespace InteractiveMarkov

def isUrgent (steps : List Step) : Bool := steps.any Step.isImmediate

/-- The delay does not survive in a state that is urgent or not, timed or not. -/
def Step.isPreempted (urgent timed : Bool) (step : Step) : Bool :=
  match step.kind with
  | .rate _ => urgent
  | .timed => urgent && !timed
  | _ => false

/-- The target is entered at the instant a timed delay ends. -/
def Step.entersTimed (timed : Bool) (step : Step) : Bool :=
  match step.kind with
  | .timed => true
  | .rate _ => false
  | _ => timed

def followed (timed : Bool) (steps : List Step) : List Step :=
  steps.filter fun step => !step.isPreempted (isUrgent steps) timed

def survivors (s : StateId) (timed : Bool) (steps : List Step) : List KeptEdge :=
  (followed timed steps).filterMap (Step.keptEdge? s)

def preempted (timed : Bool) (steps : List Step) : List Step :=
  steps.filter (Step.isPreempted (isUrgent steps) timed)

/-- All that a state does is a silent step. -/
def isSilentOnly (s : StateId) (timed : Bool) (steps : List Step) : Bool :=
  (survivors s timed steps).isEmpty && steps.any fun step => step.kind == .silent

def unknownActions (s : StateId) (steps : List Step) : List Warning :=
  steps.filterMap fun step => step.kind.unknownAction?.map fun label => ⟨s, label⟩

/-- One exploration of a state: whether it was timed then, and whether it was the first. -/
structure Visit where
  state : StateId
  timed : Bool
  first : Bool
  deriving DecidableEq, Repr

/-- The queue holds every state that was ever queued. `explored` tells whether a state was timed
    when it was last explored; `visits` lists the explorations in order. -/
structure Sweep where
  queue : Array StateId
  visited : StateSet
  timed : StateSet
  explored : StateMap Bool
  visits : Array Visit

namespace Sweep

def start (initial : StateId) : Sweep :=
  ⟨#[initial], (∅ : StateSet).insert initial, ∅, ∅, #[]⟩

/-- Enters a state, which is queued if it is new or newly timed. -/
def enter (sweep : Sweep) (entry : StateId × Bool) : Sweep :=
  if entry.2 = true ∧ entry.1 ∉ sweep.timed then
    { sweep with
      queue := sweep.queue.push entry.1
      visited := sweep.visited.insert entry.1
      timed := sweep.timed.insert entry.1 }
  else if entry.1 ∉ sweep.visited then
    { sweep with
      queue := sweep.queue.push entry.1
      visited := sweep.visited.insert entry.1 }
  else sweep

def enterAll (sweep : Sweep) (entries : List (StateId × Bool)) : Sweep :=
  entries.foldl enter sweep

def entries (timed : Bool) (steps : List Step) : List (StateId × Bool) :=
  (followed timed steps).map fun step => (step.target, step.entersTimed timed)

def note (sweep : Sweep) (s : StateId) (timed : Bool) : Sweep :=
  { sweep with
    explored := sweep.explored.insert s timed
    visits := sweep.visits.push ⟨s, timed, !sweep.explored.contains s⟩ }

def explore (sweep : Sweep) (s : StateId) (timed : Bool) (steps : List Step) : Sweep :=
  (sweep.note s timed).enterAll (entries timed steps)

/-- Explores the next state of the queue, unless that was done with the same knowledge. -/
def advance (steps : StateMap (List Step)) (sweep : Sweep) (s : StateId) : Sweep :=
  let timed := sweep.timed.contains s
  if sweep.explored[s]? = some timed then sweep
  else sweep.explore s timed (steps.getD s [])

def unknown (targets : List StateId) (sweep : Sweep) : Nat :=
  missing targets sweep.visited + missing targets sweep.timed

theorem enter_bound {targets : List StateId} (sweep : Sweep) {entry : StateId × Bool}
    (h : entry.1 ∈ targets) :
    sweep.queue.size ≤ (sweep.enter entry).queue.size ∧
    unknown targets (sweep.enter entry) + (sweep.enter entry).queue.size
      ≤ unknown targets sweep + sweep.queue.size := by
  unfold enter
  split
  · rename_i hs
    have hv := missing_insert_le targets sweep.visited entry.1
    have ht := missing_insert_lt h hs.2
    simp only [unknown, Array.size_push]
    omega
  · split
    · rename_i hs
      have hv := missing_insert_lt h hs
      simp only [unknown, Array.size_push]
      omega
    · exact ⟨Nat.le_refl _, Nat.le_refl _⟩

theorem enterAll_bound {targets : List StateId} (sweep : Sweep) (entries : List (StateId × Bool))
    (h : ∀ entry ∈ entries, entry.1 ∈ targets) :
    sweep.queue.size ≤ (sweep.enterAll entries).queue.size ∧
    unknown targets (sweep.enterAll entries) + (sweep.enterAll entries).queue.size
      ≤ unknown targets sweep + sweep.queue.size := by
  induction entries generalizing sweep with
  | nil => exact ⟨Nat.le_refl _, Nat.le_refl _⟩
  | cons entry rest ih =>
    have hstep := enter_bound sweep (h entry (List.mem_cons_self ..))
    have hrest := ih (sweep.enter entry) fun e he => h e (List.mem_cons_of_mem _ he)
    exact ⟨Nat.le_trans hstep.1 hrest.1, Nat.le_trans hrest.2 hstep.2⟩

end Sweep

def stepTargets (steps : StateMap (List Step)) : List StateId :=
  steps.toList.flatMap fun entry => entry.2.map (·.target)

theorem mem_stepTargets {steps : StateMap (List Step)} {s : StateId} {step : Step}
    (h : step ∈ steps.getD s []) : step.target ∈ stepTargets steps := by
  rw [Std.ExtTreeMap.getD_eq_getD_getElem?] at h
  cases hs : steps[s]? with
  | none => simp [hs] at h
  | some found =>
    rw [hs] at h
    exact List.mem_flatMap.2 ⟨(s, found), Std.ExtTreeMap.mem_toList_iff_getElem?_eq_some.2 hs,
      List.mem_map_of_mem h⟩

theorem Sweep.advance_bound (steps : StateMap (List Step)) (sweep : Sweep) (s : StateId) :
    sweep.queue.size ≤ (sweep.advance steps s).queue.size ∧
    unknown (stepTargets steps) (sweep.advance steps s) + (sweep.advance steps s).queue.size
      ≤ unknown (stepTargets steps) sweep + sweep.queue.size := by
  unfold advance
  dsimp only
  split
  · exact ⟨Nat.le_refl _, Nat.le_refl _⟩
  · refine enterAll_bound (sweep.note s (sweep.timed.contains s)) _ fun entry he => ?_
    obtain ⟨step, hstep, rfl⟩ := List.mem_map.1 he
    exact mem_stepTargets (List.mem_filter.1 hstep).1

def Sweep.run (steps : StateMap (List Step)) (sweep : Sweep) (place : Nat) : Sweep :=
  if h : place < sweep.queue.size then
    run steps (sweep.advance steps sweep.queue[place]) (place + 1)
  else sweep
termination_by sweep.unknown (stepTargets steps) + (sweep.queue.size - place)
decreasing_by
  have hbound := sweep.advance_bound steps sweep.queue[place]
  omega

structure Progress where
  visited : StateSet
  timed : StateSet
  edges : List KeptEdge
  warnings : List Warning
  preempted : Nat
  silentOnly : StateSet

/-- Reads the result off a finished sweep. The edges stand in ascending order of their states; a
    state counts as silent if any of its explorations left it without edges. -/
def Sweep.result (steps : StateMap (List Step)) (sweep : Sweep) : Progress where
  visited := sweep.visited
  timed := sweep.timed
  edges := sweep.explored.toList.flatMap fun (s, timed) => survivors s timed (steps.getD s [])
  warnings := (sweep.visits.toList.filter (·.first)).flatMap fun visit =>
    unknownActions visit.state (steps.getD visit.state [])
  preempted := (sweep.explored.toList.flatMap fun (s, timed) =>
    preempted timed (steps.getD s [])).length
  silentOnly := Std.ExtTreeSet.ofList ((sweep.visits.toList.filter fun visit =>
    isSilentOnly visit.state visit.timed (steps.getD visit.state [])).map (·.state))

def Automaton.maximalProgress (a : Automaton) (names : Vocabulary) : Progress :=
  ((Sweep.start a.initial).run (a.steps names) 0).result (a.steps names)

namespace Progress

def labelsFrom (p : Progress) (s : StateId) : List KeptLabel :=
  (p.edges.filter (·.source = s)).map (·.label)

end Progress

end InteractiveMarkov
