import InteractiveMarkov.Proofs.Classes
import InteractiveMarkov.Proofs.MaximalProgress

set_option autoImplicit false

namespace InteractiveMarkov.Automaton

variable {a : Automaton} {names : Vocabulary} {s t : StateId} {edge : Edge} {kept : KeptEdge}
  {timed : Bool}

theorem remnant?_some (hedge : edge ∈ a.outgoing s)
    (h : a.remnant? names timed edge = some kept) :
    (Step.ofEdge names edge).isPreempted (a.urgentEdge? names s).isSome timed = false ∧
      ∃ label, (names.classify edge.label).keep? edge.label = some label ∧
        kept = ⟨s, label, edge.target⟩ := by
  rw [remnant?_eq hedge] at h
  split at h
  · cases h
  · rename_i hkept
    obtain ⟨label, hlabel, rfl⟩ := Option.map_eq_some_iff.1 h
    exact ⟨by simpa using hkept, label, hlabel, rfl⟩

theorem remnant?_none (hedge : edge ∈ a.outgoing s) (h : a.remnant? names timed edge = none) :
    names.classify edge.label = .silent ∨
      (names.classify edge.label).isImmediate = false ∧ a.urgentEdge? names s ≠ none := by
  obtain rfl := source_of_mem_outgoing hedge
  unfold remnant? at h
  cases hkind : names.classify edge.label with
  | silent => exact .inl rfl
  | interactive action =>
    rw [hkind] at h
    cases h
  | rate expr =>
    refine .inr ⟨rfl, fun hstable => ?_⟩
    simp only [hkind, hstable] at h
    cases h
  | timed =>
    refine .inr ⟨rfl, fun hstable => ?_⟩
    simp only [hkind, hstable] at h
    cases h

theorem mem_edges_maximalProgress : kept ∈ (a.maximalProgress names).edges ↔
    ∃ s ∈ (a.swept names).visited, ∃ edge ∈ a.outgoing s,
      a.remnant? names ((a.swept names).timed.contains s) edge = some kept := by
  rw [edges_maximalProgress, List.mem_flatMap]
  simp only [Std.ExtTreeSet.mem_toList, List.mem_filterMap]

theorem target_visited (hs : s ∈ (a.swept names).visited) (hedge : edge ∈ a.outgoing s)
    (h : a.remnant? names ((a.swept names).timed.contains s) edge = some kept) :
    edge.target ∈ (a.swept names).visited :=
  ((finds_swept a names).closed s hs _
    (mem_entries.2 ⟨edge, hedge, (remnant?_some hedge h).1, rfl⟩)).1

def progressChain (a : Automaton) (names : Vocabulary) : Chain where
  initial := rank (a.swept names).visited a.initial
  stateCount := (a.swept names).visited.size
  transitions := (a.maximalProgress names).edges.map (rankedEdge (a.swept names).visited id)
  statuses := (a.swept names).visited.toList.map (StatusTable.resolved ∅)

theorem mem_progressChain {transition : Transition}
    (h : transition ∈ (a.progressChain names).transitions) : ∃ s ∈ (a.swept names).visited,
      ∃ edge ∈ a.outgoing s, ∃ label, edge.target ∈ (a.swept names).visited ∧
        (names.classify edge.label).keep? edge.label = some label ∧ transition =
          ⟨rank (a.swept names).visited s, label, rank (a.swept names).visited edge.target⟩ := by
  obtain ⟨kept, hkept, rfl⟩ := List.mem_map.1 h
  obtain ⟨s, hs, edge, hedge, hsome⟩ := mem_edges_maximalProgress.1 hkept
  obtain ⟨-, label, hlabel, rfl⟩ := remnant?_some hedge hsome
  exact ⟨s, hs, edge, hedge, label, target_visited hs hedge hsome, hlabel, rfl⟩

theorem outgoing_progressChain (hs : s ∈ (a.swept names).visited) :
    (a.progressChain names).outgoing (rank (a.swept names).visited s) =
      ((a.outgoing s).filterMap (a.remnant? names ((a.swept names).timed.contains s))).map
        (rankedEdge (a.swept names).visited id) := by
  rw [Chain.outgoing, progressChain, edges_maximalProgress, List.map_flatMap]
  apply filter_flatMap_eq (nodup_toList _) (Std.ExtTreeSet.mem_toList.2 hs)
  · intro r _ transition hmem
    obtain ⟨kept, hkept, rfl⟩ := List.mem_map.1 hmem
    obtain ⟨edge, hedge, hsome⟩ := List.mem_filterMap.1 hkept
    obtain ⟨-, label, -, rfl⟩ := remnant?_some hedge hsome
    rfl
  · intro r hr hsame
    exact (rank_inj (Std.ExtTreeSet.mem_toList.1 hr) hs).1 hsame

def progressed (a : Automaton) (names : Vocabulary) : Reduction where
  chain := a.progressChain names
  statistics := {
    inputStates := a.stateCount
    inputEdges := a.edgeCount
    reachable := (a.swept names).visited.size
    redirected := 0
    merged := 0
    preempted := (a.maximalProgress names).preempted
    unknown := 0
    outputStates := (a.swept names).visited.size
    outputTransitions := (a.progressChain names).transitions.length
    failed := (a.progressChain names).failedStates.length }
  warnings := (a.maximalProgress names).warnings
  silentOnly := (a.maximalProgress names).silentOnly.size

/-- Applying maximal progress never fails. -/
theorem progress_eq (a : Automaton) (options : ReductionOptions) :
    a.progress options = .ok (a.progressed options.names) := by
  have hends : ∀ kept ∈ (a.maximalProgress options.names).edges,
      kept.source ∈ (a.swept options.names).visited ∧
        kept.target ∈ (a.swept options.names).visited := by
    intro kept hkept
    obtain ⟨s, hs, edge, hedge, hsome⟩ := mem_edges_maximalProgress.1 hkept
    obtain ⟨-, label, -, rfl⟩ := remnant?_some hedge hsome
    exact ⟨hs, target_visited hs hedge hsome⟩
  have hemit : emit a.initial (a.maximalProgress options.names).visited
      (a.maximalProgress options.names).edges id ∅ = .ok (a.progressChain options.names) := by
    rw [show (a.maximalProgress options.names).visited = (a.swept options.names).visited from rfl,
      @emit_eq _ _ id _ ∅ (finds_swept a options.names).start
        fun kept hkept _ => (hends kept hkept).2]
    have hall : ((a.maximalProgress options.names).edges.filter fun kept =>
        kept.source ∈ (a.swept options.names).visited) =
        (a.maximalProgress options.names).edges :=
      List.filter_eq_self.2 fun kept hkept => decide_eq_true (hends kept hkept).1
    rw [hall]
    rfl
  unfold progress
  simp only [hemit, bind, Except.bind]
  rfl

theorem progress_ok (a : Automaton) (options : ReductionOptions) :
    ∃ r, a.progress options = .ok r ∧ r.chain = a.progressChain options.names :=
  ⟨_, progress_eq a options, rfl⟩

end InteractiveMarkov.Automaton
