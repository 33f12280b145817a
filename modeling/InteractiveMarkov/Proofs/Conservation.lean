import InteractiveMarkov.Proofs.Confluence
import InteractiveMarkov.Proofs.Progress

set_option autoImplicit false

namespace InteractiveMarkov.Automaton

def edgesFrom (a : Automaton) (states : StateSet) : List Edge :=
  a.edges.toList.filter fun edge => states.contains edge.source

variable {a : Automaton} {names : Vocabulary} {s : StateId} {states : StateSet} {p : Prepared}

theorem perm_edgesFrom (a : Automaton) {order : List StateId} (hnodup : order.Nodup)
    (hmem : ∀ s, s ∈ order ↔ s ∈ states) :
    (a.edgesFrom states).Perm (order.flatMap a.outgoing) := by
  have hsource : ∀ edge ∈ a.edgesFrom states, edge.source ∈ order := by
    intro edge hedge
    rw [hmem]
    exact Std.ExtTreeSet.contains_iff_mem.1 (List.mem_filter.1 hedge).2
  apply (perm_flatMap_filter Edge.source hnodup hsource).trans
  apply List.Perm.of_eq
  apply List.flatMap_congr
  intro s hs
  have hin : states.contains s = true := Std.ExtTreeSet.contains_iff_mem.2 ((hmem s).1 hs)
  rw [edgesFrom, List.filter_filter, outgoing]
  apply List.filter_congr
  intro edge _
  by_cases hedge : edge.source = s <;> simp [hedge, hin]

theorem countP_edgesFrom (a : Automaton) {order : List StateId} (hnodup : order.Nodup)
    (hmem : ∀ s, s ∈ order ↔ s ∈ states) (q : Edge → Bool) :
    (a.edgesFrom states).countP q = (order.map fun s => (a.outgoing s).countP q).sum := by
  rw [(a.perm_edgesFrom hnodup hmem).countP_eq, List.countP_flatMap]
  rfl

theorem length_edgesFrom (a : Automaton) {order : List StateId} (hnodup : order.Nodup)
    (hmem : ∀ s, s ∈ order ↔ s ∈ states) :
    (a.edgesFrom states).length = (order.map fun s => (a.outgoing s).length).sum := by
  rw [(a.perm_edgesFrom hnodup hmem).length_eq, List.length_flatMap]

theorem length_delays (a : Automaton) (names : Vocabulary) (s : StateId) :
    (a.delays names s).length +
      (a.outgoing s).countP (fun edge => (names.classify edge.label).isImmediate) =
    (a.outgoing s).length := by
  rw [delays, ← List.countP_eq_length_filter]
  simp only [LabelClass.isDelay_eq]
  exact countP_not_add _ _

theorem length_outgoing_steps (a : Automaton) (names : Vocabulary) (s : StateId) :
    (a.outgoing s).length = (Step.kept s ((a.steps names).getD s [])).length +
      Step.lost ((a.steps names).getD s []) +
      (a.outgoing s).countP fun edge => (names.classify edge.label).isImmediate := by
  rw [← a.length_delays names s, kept_steps, lost_steps]
  split <;> simp

theorem Explored.size_visited {found : Exploration} (h : a.Explored names found) :
    found.visited.size = found.redirects.size + found.live.size := by
  have hredirected : found.redirects.keys.Perm
      (found.visited.toList.filter fun s => found.redirects.contains s) := by
    apply (List.perm_ext_iff_of_nodup Std.ExtTreeMap.nodup_keys ((nodup_toList _).filter _)).2
    intro s
    rw [Std.ExtTreeMap.mem_keys, List.mem_filter, Std.ExtTreeSet.mem_toList,
      Std.ExtTreeMap.contains_iff_mem, h.visited]
    exact ⟨fun hs => ⟨(h.mem_redirects.1 hs).1, hs⟩, And.right⟩
  rw [← Std.ExtTreeMap.length_keys, hredirected.length_eq, ← Std.ExtTreeSet.length_toList,
    ← Std.ExtTreeSet.length_toList, Exploration.live, Std.ExtTreeSet.toList_filter,
    ← List.countP_eq_length_filter, ← List.countP_eq_length_filter, Nat.add_comm]
  exact (countP_not_add _ _).symm

theorem Prepares.size_reached (h : a.Prepares names p) (identical : Bool) :
    p.found.visited.size = p.found.redirects.size + (p.merge identical).mergedCount +
      (p.merge identical).live.size := by
  have hsplit := h.explored.size_visited
  have hle := (represents_merge p identical).size_le
  rw [(represents_merge p identical).mergedCount_eq]
  omega

theorem Prepares.length_transitions (h : a.Prepares names p) (initial : StateId) :
    (p.chain initial false).transitions.length = p.found.edges.toList.length := by
  have hall : (p.found.edges.toList.filter fun edge => edge.source ∈ (p.merge false).live) =
      p.found.edges.toList := by
    apply List.filter_eq_self.2
    intro kept hkept
    obtain ⟨s, hs, edge, hedge, rfl⟩ := (h.explored.mem_edges kept).1 hkept
    obtain rfl := source_of_mem_outgoing (List.mem_filter.1 hedge).1
    exact decide_eq_true (h.explored.mem_live.2 hs)
  rw [Prepared.chain, List.length_map, hall]

/-- The edges that leave visited states were kept, preempted or immediate. -/
theorem explore_balance {found : Exploration} (h : a.explore names = .ok found) :
    (a.edgesFrom found.visited).length = found.edges.toList.length + found.preempted +
      (a.edgesFrom found.visited).countP
        fun edge => (names.classify edge.label).isImmediate := by
  obtain ⟨hlearned, hvisited, -⟩ := explore_learned h
  have hnodup : (a.reached names).Nodup := nodup_breadthFirst _ _
  have hmem : ∀ s, s ∈ a.reached names ↔ s ∈ found.visited := by
    intro s
    rw [hvisited]
    simp [Std.ExtTreeSet.mem_ofList]
  rw [a.length_edgesFrom hnodup hmem, a.countP_edgesFrom hnodup hmem, hlearned.edges,
    hlearned.preempted, List.length_flatMap, ← List.sum_map_add, ← List.sum_map_add]
  congr 1
  apply List.map_congr_left
  intro s _
  exact a.length_outgoing_steps names s

theorem isNone_remnant? (a : Automaton) (names : Vocabulary) (timed : Bool) (edge : Edge) :
    ((a.remnant? names timed edge).isNone && !(names.classify edge.label).isDelay) =
      decide (names.classify edge.label = .silent) := by
  unfold remnant?
  cases names.classify edge.label <;> simp [LabelClass.isDelay]

theorem length_outgoing_remnants (a : Automaton) (names : Vocabulary) (timed : Bool)
    (s : StateId) : (a.outgoing s).length =
      ((a.outgoing s).filterMap (a.remnant? names timed)).length +
      ((a.delays names s).filter fun edge => (a.remnant? names timed edge).isNone).length +
      (a.outgoing s).countP fun edge => names.classify edge.label = .silent := by
  have hgone : (a.outgoing s).countP (fun edge => (a.remnant? names timed edge).isNone) =
      ((a.delays names s).filter fun edge => (a.remnant? names timed edge).isNone).length +
      (a.outgoing s).countP (fun edge => names.classify edge.label = .silent) := by
    rw [List.countP_eq_countP_filter_add _ _ fun edge => (names.classify edge.label).isDelay,
      ← List.countP_eq_length_filter, delays]
    congr 1
    rw [List.countP_filter]
    apply List.countP_congr
    intro edge _
    rw [isNone_remnant?]
  have hall := countP_not_add (fun edge => (a.remnant? names timed edge).isSome) (a.outgoing s)
  simp only [Option.not_isSome] at hall
  rw [List.length_filterMap_eq_countP]
  omega

theorem maximalProgress_balance (a : Automaton) (names : Vocabulary) :
    (a.edgesFrom (a.maximalProgress names).visited).length =
      (a.maximalProgress names).edges.length + (a.maximalProgress names).preempted +
      (a.edgesFrom (a.maximalProgress names).visited).countP
        fun edge => names.classify edge.label = .silent := by
  have hvisited : (a.maximalProgress names).visited = (a.swept names).visited := rfl
  have hnodup := nodup_toList (a.swept names).visited
  have hmem : ∀ s, s ∈ (a.swept names).visited.toList ↔ s ∈ (a.swept names).visited :=
    fun s => Std.ExtTreeSet.mem_toList
  rw [hvisited, a.length_edgesFrom hnodup hmem, a.countP_edgesFrom hnodup hmem,
    edges_maximalProgress, preempted_maximalProgress, List.length_flatMap, List.length_flatMap,
    ← List.sum_map_add, ← List.sum_map_add]
  congr 1
  apply List.map_congr_left
  intro s _
  exact a.length_outgoing_remnants names _ s

/-- The counters of a run account for all visited states and, unless states are merged, for all
    edges that leave them. Merging never leaves more classes than states. -/
theorem statistics_balance (a : Automaton) (options : ReductionOptions) :
    (∀ r, a.reduce options = .ok r → ∃ found, a.explore options.names = .ok found ∧
      r.statistics.reachable = found.visited.size ∧
      r.statistics.reachable =
        r.statistics.redirected + r.statistics.merged + r.statistics.outputStates ∧
      (options.merge = false → (a.edgesFrom found.visited).length =
        r.statistics.outputTransitions + r.statistics.preempted +
          (a.edgesFrom found.visited).countP
            fun edge => (options.names.classify edge.label).isImmediate)) ∧
    (∃ r, a.progress options = .ok r ∧
      r.statistics.reachable = (a.maximalProgress options.names).visited.size ∧
      r.statistics.outputStates = r.statistics.reachable ∧
      (a.edgesFrom (a.maximalProgress options.names).visited).length =
        r.statistics.outputTransitions + r.statistics.preempted +
          (a.edgesFrom (a.maximalProgress options.names).visited).countP
            fun edge => options.names.classify edge.label = .silent) ∧
    ∀ live edges resolve statuses, (mergeIdentical live edges resolve statuses).live.size ≤
      (mergeIdentical live edges resolve statuses).representatives.size := by
  refine ⟨fun r hr => ?_, ⟨_, progress_eq a options, rfl, rfl, ?_⟩, fun live edges resolve statuses => ?_⟩
  · rw [reduce_eq] at hr
    cases hprepare : a.prepare options.names with
    | error e =>
      simp only [hprepare] at hr
      cases hr
    | ok p =>
      simp only [hprepare] at hr
      cases hr
      have hp := (prepare_ok hprepare).1
      refine ⟨p.found, prepare_found hprepare, rfl, hp.size_reached options.merge, fun hmerge => ?_⟩
      have hkept : (p.outcome a options.merge).statistics.outputTransitions =
          p.found.edges.toList.length := by
        rw [hmerge]
        exact hp.length_transitions a.initial
      rw [hkept]
      exact explore_balance (prepare_found hprepare)
  · have hkept : (a.progressed options.names).statistics.outputTransitions =
        (a.maximalProgress options.names).edges.length := List.length_map _
    rw [hkept]
    exact a.maximalProgress_balance options.names
  · have hrep := represents_mergeIdentical live edges resolve statuses
    rw [size_eq_of_mem_iff hrep.covers]
    exact hrep.size_le

theorem relay_balance : ∃ r found, relay.reduce ⟨relayNames, false⟩ = .ok r ∧
    relay.explore relayNames = .ok found ∧ r.statistics.reachable = 4 + r.statistics.merged + 5 ∧
    (relay.edgesFrom found.visited).length = 7 + 1 + (relay.edgesFrom found.visited).countP
      fun edge => (relayNames.classify edge.label).isImmediate := by
  have hcounts : (relay.reduce ⟨relayNames, false⟩).toOption.map (fun r =>
      (r.statistics.redirected, r.statistics.preempted, r.statistics.outputStates,
        r.statistics.outputTransitions)) = some (4, 1, 5, 7) := by
    decide +kernel
  obtain ⟨r, hr, -⟩ := relay_unmerged
  rw [hr] at hcounts
  simp only [Except.toOption, Option.map_some, Option.some.injEq, Prod.mk.injEq] at hcounts
  obtain ⟨hredirected, hpreempted, hstates, htransitions⟩ := hcounts
  obtain ⟨found, hfound, -, hbalance, hedges⟩ :=
    (statistics_balance relay ⟨relayNames, false⟩).1 r hr
  rw [hredirected, hstates] at hbalance
  rw [hpreempted, htransitions] at hedges
  exact ⟨r, found, hr, hfound, hbalance, hedges rfl⟩

end InteractiveMarkov.Automaton
