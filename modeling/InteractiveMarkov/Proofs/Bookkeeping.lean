import InteractiveMarkov.Proofs.Sweep
import InteractiveMarkov.Proofs.Traversal

/-!
# The books of a sweep

The result of a sweep is read off what it knows of the states in the end. The loop itself keeps
books instead: a turn takes the edges of its state one by one and enters what survived and how many
delays were dropped for the state, in place of what an earlier turn entered for it; warnings and
silent states are added as they come. At each head of the loop the books say what the sweep implies.
-/

set_option autoImplicit false

namespace InteractiveMarkov

structure Harvest where
  edges : List KeptEdge
  dropped : Nat
  entered : List (StateId × Bool)
  warnings : List Warning

/-- A loop over a queue with its books. -/
structure Tour where
  queue : List StateId
  visited : StateSet
  timed : StateSet
  explored : StateMap Bool
  kept : StateMap (List KeptEdge × Nat)
  warnings : List Warning
  silentOnly : StateSet

/-- Takes one edge of a state. Only the first visit of a state warns of its edges. -/
def Harvest.take (s : StateId) (urgent timed first : Bool) (harvest : Harvest) (step : Step) :
    Harvest :=
  if step.isPreempted urgent timed then { harvest with dropped := harvest.dropped + 1 }
  else {
    edges := harvest.edges ++ (step.keptEdge? s).toList
    dropped := harvest.dropped
    entered := harvest.entered ++ [(step.target, step.entersTimed timed)]
    warnings := match step.kind.unknownAction? with
      | some label => if first then harvest.warnings ++ [⟨s, label⟩] else harvest.warnings
      | none => harvest.warnings }

def harvest (s : StateId) (timed first : Bool) (steps : List Step) : Harvest :=
  steps.foldl (Harvest.take s (isUrgent steps) timed first) ⟨[], 0, [], []⟩

namespace Tour

def start (initial : StateId) : Tour :=
  ⟨[initial], (∅ : StateSet).insert initial, ∅, ∅, ∅, [], ∅⟩

def enter (tour : Tour) (entry : StateId × Bool) : Tour :=
  { tour with
    queue := if entry.1 ∉ tour.visited ∨ entry.2 = true ∧ entry.1 ∉ tour.timed
      then tour.queue ++ [entry.1] else tour.queue
    visited := tour.visited.insert entry.1
    timed := if entry.2 = true then tour.timed.insert entry.1 else tour.timed }

def record (tour : Tour) (s : StateId) (timed : Bool) (steps : List Step) (found : Harvest) :
    Tour :=
  { tour with
    explored := tour.explored.insert s timed
    kept := tour.kept.insert s (found.edges, found.dropped)
    warnings := tour.warnings ++ found.warnings
    silentOnly := if found.edges.isEmpty && steps.any (fun step => step.kind == .silent)
      then tour.silentOnly.insert s else tour.silentOnly }

def result (tour : Tour) : Progress where
  visited := tour.visited
  timed := tour.timed
  edges := tour.kept.toList.flatMap (·.2.1)
  warnings := tour.warnings
  preempted := (tour.kept.toList.map (·.2.2)).sum
  silentOnly := tour.silentOnly

def turn (steps : StateMap (List Step)) (tour : Tour) : Progress ⊕ Tour :=
  match tour.queue with
  | [] => .inl tour.result
  | s :: rest =>
    let popped := { tour with queue := rest }
    let timed := tour.timed.contains s
    if tour.explored[s]? = some timed then .inr popped
    else
      let found := harvest s timed (!tour.explored.contains s) (steps.getD s [])
      .inr (found.entered.foldl enter (popped.record s timed (steps.getD s []) found))

def run (steps : StateMap (List Step)) : Tour →. Progress := loop (turn steps)

/-- The books that a sweep implies when the states before a place of its queue were taken. -/
def ofSweep (steps : StateMap (List Step)) (sweep : Sweep) (place : Nat) : Tour where
  queue := sweep.queue.toList.drop place
  visited := sweep.visited
  timed := sweep.timed
  explored := sweep.explored
  kept := sweep.explored.map fun s timed =>
    (survivors s timed (steps.getD s []), (preempted timed (steps.getD s [])).length)
  warnings := (sweep.result steps).warnings
  silentOnly := (sweep.result steps).silentOnly

end Tour

section

variable {steps : StateMap (List Step)} {sweep : Sweep} {place : Nat} {s : StateId}
  {timed first : Bool}

theorem unknownAction?_of_isPreempted {step : Step} {urgent : Bool}
    (h : step.isPreempted urgent timed = true) : step.kind.unknownAction? = none := by
  unfold Step.isPreempted at h
  split at h
  · rename_i hkind
    rw [hkind]
    rfl
  · rename_i hkind
    rw [hkind]
    rfl
  · cases h

theorem foldl_take (urgent : Bool) (found : Harvest) (steps : List Step) :
    steps.foldl (Harvest.take s urgent timed first) found = {
      edges := found.edges ++ (steps.filter fun step =>
        !step.isPreempted urgent timed).filterMap (Step.keptEdge? s)
      dropped := found.dropped + (steps.filter (Step.isPreempted urgent timed)).length
      entered := found.entered ++ (steps.filter fun step =>
        !step.isPreempted urgent timed).map fun step => (step.target, step.entersTimed timed)
      warnings := found.warnings ++ if first then unknownActions s steps else [] } := by
  induction steps generalizing found with
  | nil => simp [unknownActions]
  | cons step rest ih =>
    rw [List.foldl_cons, ih]
    by_cases hdrop : step.isPreempted urgent timed = true
    · simp [Harvest.take, hdrop, unknownActions, unknownAction?_of_isPreempted hdrop]
      omega
    · rw [Bool.not_eq_true] at hdrop
      cases hkept : step.keptEdge? s <;> cases hlabel : step.kind.unknownAction? <;> cases first <;>
        simp [Harvest.take, hdrop, unknownActions, hkept, hlabel]

theorem harvest_eq (s : StateId) (timed first : Bool) (steps : List Step) :
    harvest s timed first steps = ⟨survivors s timed steps, (preempted timed steps).length,
      Sweep.entries timed steps, if first then unknownActions s steps else []⟩ := by
  rw [harvest, foldl_take, List.nil_append, Nat.zero_add, List.nil_append, List.nil_append]
  rfl

namespace Tour

theorem insert_of_mem {seen : StateSet} (h : s ∈ seen) : seen.insert s = seen := by
  apply Std.ExtTreeSet.ext_mem
  intro t
  rw [Std.ExtTreeSet.mem_insert, Std.LawfulEqCmp.compare_eq_iff_eq, or_iff_right_iff_imp]
  rintro rfl
  exact h

theorem enter_eq (sweep : Sweep) (entry : StateId × Bool) : sweep.enter entry = { sweep with
    queue := if entry.1 ∉ sweep.visited ∨ entry.2 = true ∧ entry.1 ∉ sweep.timed
      then sweep.queue.push entry.1 else sweep.queue
    visited := sweep.visited.insert entry.1
    timed := if entry.2 = true then sweep.timed.insert entry.1 else sweep.timed } := by
  unfold Sweep.enter
  -- a state that is newly timed is entered as such even if it was visited before
  by_cases hflag : entry.2 = true ∧ entry.1 ∉ sweep.timed
  · rw [if_pos hflag, if_pos (Or.inr hflag), if_pos hflag.1]
  · have htimed : (if entry.2 = true then sweep.timed.insert entry.1 else sweep.timed) =
        sweep.timed := by
      split
      · rename_i h
        exact insert_of_mem (not_not.1 fun hnew => hflag ⟨h, hnew⟩)
      · rfl
    rw [if_neg hflag, htimed]
    by_cases hnew : entry.1 ∉ sweep.visited
    · rw [if_pos hnew, if_pos (Or.inl hnew)]
    · rw [if_neg hnew, if_neg (not_or.2 ⟨hnew, hflag⟩), insert_of_mem (not_not.1 hnew)]

theorem enter_ofSweep (steps : StateMap (List Step)) (hplace : place ≤ sweep.queue.size)
    (entry : StateId × Bool) :
    (ofSweep steps sweep place).enter entry = ofSweep steps (sweep.enter entry) place := by
  have hlength : place ≤ sweep.queue.toList.length := by simpa using hplace
  have hqueue : (sweep.enter entry).queue.toList.drop place =
      if entry.1 ∉ sweep.visited ∨ entry.2 = true ∧ entry.1 ∉ sweep.timed
      then sweep.queue.toList.drop place ++ [entry.1] else sweep.queue.toList.drop place := by
    rw [enter_eq]
    dsimp only
    split
    · rw [Array.toList_push, List.drop_append_of_le_length hlength]
    · rfl
  rw [enter, ofSweep, ofSweep, hqueue, enter_eq]
  rfl

theorem enterAll_ofSweep (steps : StateMap (List Step)) (hplace : place ≤ sweep.queue.size)
    (entered : List (StateId × Bool)) : entered.foldl enter (ofSweep steps sweep place) =
      ofSweep steps (sweep.enterAll entered) place := by
  induction entered generalizing sweep with
  | nil => rfl
  | cons entry rest ih =>
    have hgrows : sweep.queue.size ≤ (sweep.enter entry).queue.size :=
      (sweep.enter_bound (List.mem_singleton_self entry.1)).1
    rw [List.foldl_cons, enter_ofSweep steps hplace]
    exact ih (Nat.le_trans hplace hgrows)

theorem map_insert (explored : StateMap Bool) (f : StateId → Bool → List KeptEdge × Nat) :
    (explored.insert s timed).map f = (explored.map f).insert s (f s timed) := by
  apply Std.ExtTreeMap.ext_getElem?
  intro t
  rw [Std.ExtTreeMap.getElem?_map, Std.ExtTreeMap.getElem?_insert, Std.ExtTreeMap.getElem?_insert,
    Std.ExtTreeMap.getElem?_map]
  by_cases h : compare s t = .eq
  · obtain rfl := Std.LawfulEqCmp.compare_eq_iff_eq.1 h
    simp
  · simp [h]

theorem warnings_note (steps : StateMap (List Step)) (sweep : Sweep) (s : StateId) (timed : Bool) :
    ((sweep.note s timed).result steps).warnings = (sweep.result steps).warnings ++
      if !sweep.explored.contains s then unknownActions s (steps.getD s []) else [] := by
  simp only [Sweep.result, Sweep.note, Array.toList_push, List.filter_append, List.flatMap_append]
  cases sweep.explored.contains s <;> simp

theorem silentOnly_note (steps : StateMap (List Step)) (sweep : Sweep) (s : StateId)
    (timed : Bool) : ((sweep.note s timed).result steps).silentOnly =
      if isSilentOnly s timed (steps.getD s []) then (sweep.result steps).silentOnly.insert s
      else (sweep.result steps).silentOnly := by
  simp only [Sweep.result, Sweep.note, Array.toList_push, List.filter_append, List.map_append]
  by_cases hsilent : isSilentOnly s timed (steps.getD s []) = true
  · rw [if_pos hsilent]
    apply Std.ExtTreeSet.ext_mem
    intro t
    rw [Std.ExtTreeSet.mem_insert, Std.LawfulEqCmp.compare_eq_iff_eq, or_comm, eq_comm (a := s)]
    simp [hsilent]
  · simp [hsilent]

/-- What a turn writes down is what the sweep implies after it: an earlier entry of the state is
    replaced. -/
theorem record_ofSweep (steps : StateMap (List Step)) (sweep : Sweep) (place : Nat) (s : StateId)
    (timed : Bool) : (ofSweep steps sweep place).record s timed (steps.getD s [])
        (harvest s timed (!sweep.explored.contains s) (steps.getD s [])) =
      ofSweep steps (sweep.note s timed) place := by
  rw [harvest_eq, record, ofSweep, ofSweep, warnings_note, silentOnly_note]
  dsimp only
  rw [← map_insert]
  rfl

theorem result_ofSweep (steps : StateMap (List Step)) (sweep : Sweep) (place : Nat) :
    (ofSweep steps sweep place).result = sweep.result steps := by
  have hkept : (ofSweep steps sweep place).kept.toList = sweep.explored.toList.map fun entry =>
      (entry.1, survivors entry.1 entry.2 (steps.getD entry.1 []),
        (preempted entry.2 (steps.getD entry.1 [])).length) := Std.ExtTreeMap.toList_map
  rw [result, hkept, List.flatMap_map, List.map_map, Sweep.result, List.length_flatMap]
  rfl

theorem turn_ofSweep (steps : StateMap (List Step)) (hplace : place < sweep.queue.size) :
    (ofSweep steps sweep place).turn steps =
      .inr (ofSweep steps (sweep.advance steps sweep.queue[place]) (place + 1)) := by
  have hqueue : (ofSweep steps sweep place).queue =
      sweep.queue[place] :: sweep.queue.toList.drop (place + 1) := Sweep.drop_place hplace
  generalize sweep.queue[place] = s at hqueue ⊢
  have hpopped : { ofSweep steps sweep place with queue := sweep.queue.toList.drop (place + 1) } =
      ofSweep steps sweep (place + 1) := rfl
  simp only [turn, hqueue, hpopped]
  -- the books are written before the states after this one are entered
  rcases Sweep.advance_cases steps sweep s with ⟨hdone, hsame⟩ | ⟨hnew, hsame⟩
  · rw [hsame]
    exact if_pos hdone
  · have hrecord := record_ofSweep steps sweep (place + 1) s (sweep.timed.contains s)
    have hnoted : place + 1 ≤ (sweep.note s (sweep.timed.contains s)).queue.size := hplace
    have hentered := enterAll_ofSweep steps hnoted
      (Sweep.entries (sweep.timed.contains s) (steps.getD s []))
    rw [hsame, Sweep.explore, ← hentered, ← hrecord]
    refine (if_neg hnew).trans ?_
    rw [harvest_eq, harvest_eq]
    rfl

theorem run_ofSweep (steps : StateMap (List Step)) (sweep : Sweep) (place : Nat) :
    run steps (ofSweep steps sweep place) = .some ((sweep.run steps place).result steps) := by
  fun_induction Sweep.run steps sweep place with
  | case1 sweep place hplace ih => exact (loop_of_inr (turn_ofSweep steps hplace)).trans ih
  | case2 sweep place hplace =>
    have hqueue : (ofSweep steps sweep place).queue = [] :=
      List.drop_of_length_le (by simpa using hplace)
    apply loop_of_inl
    rw [turn, hqueue, ← result_ofSweep steps sweep place]

end Tour

end

/-- The loop that keeps books ends with the result of maximal progress. -/
theorem Automaton.maximalProgress_run (a : Automaton) (names : Vocabulary) :
    Tour.run (a.steps names) (.start a.initial) = .some (a.maximalProgress names) := by
  have hstart : Tour.ofSweep (a.steps names) (.start a.initial) 0 = .start a.initial := by
    simp [Tour.ofSweep, Tour.start, Sweep.start, Sweep.result]
  rw [← hstart]
  exact Tour.run_ofSweep _ _ _

end InteractiveMarkov
