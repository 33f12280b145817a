import InteractiveMarkov.Proofs.Building
import InteractiveMarkov.Proofs.Isomorphism
import Mathlib

set_option autoImplicit false

namespace InteractiveMarkov

def Edge.rename (p : StateId → StateId) (edge : Edge) : Edge :=
  ⟨p edge.source, edge.label, p edge.target⟩

def Warning.rename (p : StateId → StateId) (warning : Warning) : Warning :=
  ⟨p warning.state, warning.label⟩

/-- The results are the same up to the numbers of states: those of the automata under the first
    map, those of the chains under the second. -/
structure Reduction.Isomorphism (p : StateId → StateId) (f : Nat → Nat) (r q : Reduction) :
    Prop where
  chain : r.chain.Isomorphism f q.chain
  statistics : q.statistics = r.statistics
  warnings : (r.warnings.map (Warning.rename p)).Perm q.warnings

namespace Automaton

/-- The second automaton is the first with its states renamed and its edges reordered. -/
structure Relabels (p : StateId → StateId) (a b : Automaton) : Prop where
  injective : Function.Injective p
  initial : b.initial = p a.initial
  declared : b.declared = a.declared
  nodes : (a.nodes.toList.map p).Perm b.nodes.toList
  edges : (a.edges.toList.map (Edge.rename p)).Perm b.edges.toList

variable {a b : Automaton} {names : Vocabulary} {p : StateId → StateId} {x y : Prepared}
  {s t initial : StateId} {edges edges' : List Edge} {identical : Bool}

namespace Relabels

theorem outgoing (h : Relabels p a b) (s : StateId) :
    ((a.outgoing s).map (Edge.rename p)).Perm (b.outgoing (p s)) := by
  have hperm := h.edges.filter fun edge => edge.source = p s
  rw [List.filter_map] at hperm
  refine (List.Perm.of_eq (congrArg _ (List.filter_congr fun edge _ => ?_))).trans hperm
  rw [Function.comp_apply, Edge.rename]
  simp only [h.injective.eq_iff]

theorem perm_filter (h : Relabels p a b) (q : String → Bool) (s : StateId) :
    (((a.outgoing s).filter fun edge => q edge.label).map (Edge.rename p)).Perm
      ((b.outgoing (p s)).filter fun edge => q edge.label) := by
  have hperm := (h.outgoing s).filter fun edge => q edge.label
  rwa [List.filter_map] at hperm

theorem renames (h : Relabels p a b) (names : Vocabulary) : Renames names p a b := by
  refine ⟨h.injective, h.initial, fun s => ?_, fun s _ => ?_⟩
  · have hperm := (h.perm_filter (fun label => (names.classify label).isImmediate) s).map
      fun edge => (edge.label, edge.target)
    rwa [List.map_map] at hperm
  · have hperm := (h.perm_filter (fun label => (names.classify label).isDelay) s).map
      fun edge => (delayLabel edge.label, edge.target)
    rwa [List.map_map] at hperm

end Relabels

theorem warned_steps (s : StateId) : Step.warned s ((a.steps names).getD s []) =
    ((a.urgentEdge? names s).bind fun edge =>
      (names.classify edge.label).unknownAction?).toList.map fun label => ⟨s, label⟩ := by
  unfold Step.warned
  rw [find?_steps, Option.bind_map]
  rfl

theorem prepare_found (h : a.prepare names = .ok x) : a.explore names = .ok x.found := by
  unfold prepare at h
  split at h
  · cases h
  · rename_i found hfound
    split at h
    · cases h
    · split at h
      · cases h
      · cases h
        exact hfound

namespace Relabels

section Counters

variable (h : Relabels p a b) (hx : a.Prepares names x) (hy : b.Prepares names y)

include h hx

theorem perm_reached : (b.reached names).Perm ((a.reached names).map p) := by
  apply perm_map_of_injective h.injective (nodup_breadthFirst _ _) (nodup_breadthFirst _ _)
  intro t
  change t ∈ b.reached names ↔ ∃ s ∈ a.reached names, p s = t
  simp only [mem_reached]
  exact (h.renames names).reached_iff hx.explored.uniform

include hy

theorem size_visited : y.found.visited.size = x.found.visited.size := by
  have hperm : y.found.visited.toList.Perm (x.found.visited.toList.map p) := by
    apply perm_map_of_injective h.injective (nodup_toList _) (nodup_toList _)
    intro t
    simp only [Std.ExtTreeSet.mem_toList, hx.explored.visited, hy.explored.visited]
    exact (h.renames names).reached_iff hx.explored.uniform
  have hlen := hperm.length_eq
  rwa [List.length_map, Std.ExtTreeSet.length_toList, Std.ExtTreeSet.length_toList] at hlen

theorem size_redirects : y.found.redirects.size = x.found.redirects.size := by
  have hperm : y.found.redirects.keys.Perm (x.found.redirects.keys.map p) := by
    apply perm_map_of_injective h.injective Std.ExtTreeMap.nodup_keys Std.ExtTreeMap.nodup_keys
    intro t
    simp only [Std.ExtTreeMap.mem_keys]
    exact (h.renames names).mem_redirects hx.explored.uniform hx.explored hy.explored
  have hlen := hperm.length_eq
  rwa [List.length_map, Std.ExtTreeMap.length_keys, Std.ExtTreeMap.length_keys] at hlen

theorem perm_found_live : y.found.live.toList.Perm (x.found.live.toList.map p) := by
  apply perm_map_of_injective h.injective (nodup_toList _) (nodup_toList _)
  intro t
  simp only [Std.ExtTreeSet.mem_toList]
  exact (h.renames names).mem_live hx hy

theorem unknown_eq : y.unknown = x.unknown := by
  rw [hx.unknown, hy.unknown, (h.perm_found_live hx hy).countP_eq, List.countP_map]
  apply List.countP_congr
  intro s hs
  have hlive := hx.explored.mem_live.1 (Std.ExtTreeSet.mem_toList.1 hs)
  rw [Function.comp_apply, StateMap.not_contains, StateMap.not_contains,
    Std.ExtTreeMap.mem_iff_isSome_getElem?, Std.ExtTreeMap.mem_iff_isSome_getElem?,
    (h.renames names).statuses_eq hx hy hlive]

theorem size_live (identical : Bool) :
    (y.merge identical).live.size = (x.merge identical).live.size := by
  have hlen := ((h.renames names).perm_live hx hy identical).length_eq
  rwa [List.length_map, Std.ExtTreeSet.length_toList, Std.ExtTreeSet.length_toList] at hlen

theorem mergedCount_eq (identical : Bool) :
    (y.merge identical).mergedCount = (x.merge identical).mergedCount := by
  have hlen := (h.perm_found_live hx hy).length_eq
  rw [List.length_map, Std.ExtTreeSet.length_toList, Std.ExtTreeSet.length_toList] at hlen
  rw [(represents_merge x identical).mergedCount_eq, (represents_merge y identical).mergedCount_eq,
    h.size_live hx hy, hlen]

end Counters

theorem lost_eq (h : Relabels p a b) (s : StateId) :
    Step.lost ((b.steps names).getD (p s) []) = Step.lost ((a.steps names).getD s []) := by
  have hlen := (h.perm_filter (fun label => (names.classify label).isDelay) s).length_eq
  rw [List.length_map] at hlen
  rw [lost_steps, lost_steps, delays, delays, hlen]
  simp only [(h.renames names).urgentEdge?_none]

theorem warned_eq (h : Relabels p a b) (hu : a.Uniform names s) :
    Step.warned (p s) ((b.steps names).getD (p s) []) =
      (Step.warned s ((a.steps names).getD s [])).map (Warning.rename p) := by
  rw [warned_steps, warned_steps, List.map_map]
  cases hedge : a.urgentEdge? names s with
  | none =>
    rw [(h.renames names).urgentEdge?_none.2 hedge]
    rfl
  | some edge =>
    obtain ⟨image, himage, hlabel, -⟩ := (h.renames names).urgent_map hu hedge
    rw [himage, Option.bind_some, Option.bind_some, hlabel]
    rfl

section Learned

variable (h : Relabels p a b) (hx : a.prepare names = .ok x) (hy : b.prepare names = .ok y)

include h hx hy

theorem preempted_eq : y.found.preempted = x.found.preempted := by
  have hperm := (h.perm_reached (prepare_ok hx).1).map
    fun t => Step.lost ((b.steps names).getD t [])
  rw [(explore_learned (prepare_found hx)).1.preempted,
    (explore_learned (prepare_found hy)).1.preempted, hperm.sum_eq, List.map_map]
  congr 1
  apply List.map_congr_left
  intro s _
  exact h.lost_eq s

theorem perm_warnings : (x.found.warnings.toList.map (Warning.rename p)).Perm
    y.found.warnings.toList := by
  have hperm := (h.perm_reached (prepare_ok hx).1).flatMap_right
    fun t => Step.warned t ((b.steps names).getD t [])
  rw [(explore_learned (prepare_found hx)).1.warnings,
    (explore_learned (prepare_found hy)).1.warnings]
  refine List.Perm.trans (List.Perm.of_eq ?_) hperm.symm
  rw [List.map_flatMap, List.flatMap_map]
  apply List.flatMap_congr
  intro s hs
  exact (h.warned_eq ((prepare_ok hx).1.explored.uniform s (mem_reached.1 hs))).symm

end Learned

theorem outcome_isomorphism (h : Relabels p a b) (hx : a.prepare names = .ok x)
    (hy : b.prepare names = .ok y) (identical : Bool) :
    ∃ f, (x.outcome a identical).Isomorphism p f (y.outcome b identical) ∧
      (StrictMonoOn p {s | a.Reached names s} →
        ∀ n ∈ Set.Icc 1 (x.outcome a identical).chain.stateCount, f n = n) := by
  have hnames := h.renames names
  have hx' := (prepare_ok hx).1
  have hy' := (prepare_ok hy).1
  obtain ⟨f, hf⟩ := exists_renumbering (x.merge identical).live fun s =>
    rank (y.merge identical).live (Renames.image p y identical s)
  have hchain : Chain.Isomorphism f (x.chain a.initial identical) (y.chain b.initial identical) :=
    hnames.isomorphism hx' hy' hf
  refine ⟨f, ⟨hchain, ?_, h.perm_warnings hx hy⟩, fun hp n hn => ?_⟩
  · have hnodes := h.nodes.length_eq
    have hedges := h.edges.length_eq
    have htransitions := hchain.transitions.length_eq
    simp only [List.length_map, Array.length_toList] at hnodes hedges htransitions
    unfold Prepared.outcome
    simp only [stateCount, edgeCount, hnodes, hedges, h.declared, htransitions,
      h.size_visited hx' hy', h.size_redirects hx' hy', h.mergedCount_eq hx' hy',
      h.preempted_eq hx hy, h.unknown_eq hx' hy', h.size_live hx' hy',
      hchain.length_failedStates]
  · obtain ⟨s, hs, rfl⟩ := exists_rank hn.1 hn.2
    rw [hf s hs]
    exact hnames.rank_image hx' hy' (StrictMonoOn.mono hp fun t ht => ht.1) hs

theorem reduce_isomorphism (h : Relabels p a b) (options : ReductionOptions) :
    ((∃ r, a.reduce options = .ok r) ↔ ∃ q, b.reduce options = .ok q) ∧
    ∀ r q, a.reduce options = .ok r → b.reduce options = .ok q →
      ∃ f, r.Isomorphism p f q ∧ (StrictMonoOn p {s | a.Reached options.names s} →
        ∀ n ∈ Set.Icc 1 r.chain.stateCount, f n = n) := by
  rw [reduce_eq, reduce_eq]
  rcases (h.renames options.names).prepare_cases with ⟨x, y, hx, hy⟩ | ⟨e, f, hx, hy⟩
  · simp only [hx, hy]
    refine ⟨by simp, fun r q hr hq => ?_⟩
    cases hr
    cases hq
    exact h.outcome_isomorphism hx hy options.merge
  · simp [hx, hy]

end Relabels

def Named (initial : StateId) (edges : List Edge) : Set StateId :=
  {s | s = initial ∨ ∃ edge ∈ edges, s = edge.source ∨ s = edge.target}

theorem extended_ofEdges (initial : StateId) (edges : List Edge) :
    (new initial).Extended edges (ofEdges initial edges) :=
  extended_withDeclared initial 0 edges

theorem edges_ofEdges (initial : StateId) (edges : List Edge) :
    (ofEdges initial edges).edges.toList = edges :=
  (extended_ofEdges initial edges).edges

theorem mem_nodes_ofEdges : s ∈ (ofEdges initial edges).nodes.toList ↔ s ∈ Named initial edges := by
  rw [(extended_ofEdges initial edges).nodes]
  exact or_congr_left List.mem_singleton

theorem Reached.named (h : (ofEdges initial edges).Reached names s) : s ∈ Named initial edges := by
  have htarget : ∀ {r edge}, edge ∈ (ofEdges initial edges).outgoing r →
      edge.target ∈ Named initial edges := by
    intro r edge hedge
    have hmem := (List.mem_filter.1 hedge).1
    rw [edges_ofEdges] at hmem
    exact .inr ⟨edge, hmem, .inr rfl⟩
  cases h with
  | initial => exact .inl (extended_ofEdges initial edges).initial
  | urgent _ hedge => exact htarget (urgentEdge?_some hedge).1
  | patient _ _ hedge => exact htarget (List.mem_filter.1 hedge).1

theorem mem_named_rename (hedges : edges'.Perm edges) :
    t ∈ Named (p initial) (edges'.map (Edge.rename p)) ↔ ∃ s ∈ Named initial edges, p s = t := by
  constructor
  · rintro (rfl | ⟨_, hmem, hends⟩)
    · exact ⟨initial, .inl rfl, rfl⟩
    · obtain ⟨edge, hedge, rfl⟩ := List.mem_map.1 hmem
      have hnamed := hedges.mem_iff.1 hedge
      rcases hends with rfl | rfl
      · exact ⟨edge.source, .inr ⟨edge, hnamed, .inl rfl⟩, rfl⟩
      · exact ⟨edge.target, .inr ⟨edge, hnamed, .inr rfl⟩, rfl⟩
  · rintro ⟨s, rfl | ⟨edge, hedge, hends⟩, rfl⟩
    · exact .inl rfl
    · have hmem : edge.rename p ∈ edges'.map (Edge.rename p) :=
        List.mem_map_of_mem (hedges.mem_iff.2 hedge)
      rcases hends with rfl | rfl
      · exact .inr ⟨_, hmem, .inl rfl⟩
      · exact .inr ⟨_, hmem, .inr rfl⟩

theorem relabels_ofEdges (hp : Function.Injective p) (hedges : edges'.Perm edges) :
    Relabels p (ofEdges initial edges) (ofEdges (p initial) (edges'.map (Edge.rename p))) := by
  have ha := extended_ofEdges initial edges
  have hb := extended_ofEdges (p initial) (edges'.map (Edge.rename p))
  refine ⟨hp, ?_, hb.declared.trans ha.declared.symm, ?_, ?_⟩
  · rw [hb.initial, ha.initial]
    rfl
  · apply List.Perm.symm
    apply perm_map_of_injective hp ha.indexed.nodup hb.indexed.nodup
    intro t
    simp only [mem_nodes_ofEdges]
    exact mem_named_rename hedges
  · rw [edges_ofEdges, edges_ofEdges]
    exact (hedges.map _).symm

theorem finite_named (initial : StateId) (edges : List Edge) : (Named initial edges).Finite := by
  apply (List.finite_toSet (ofEdges initial edges).nodes.toList).subset
  intro s hs
  exact mem_nodes_ofEdges.2 hs

/-- A renaming of finitely many states is one of all states: the others get numbers above. -/
theorem exists_injective_eqOn {S : Set Nat} {p : Nat → Nat} (hfinite : S.Finite)
    (hp : Set.InjOn p S) : ∃ q : Nat → Nat, Function.Injective q ∧ Set.EqOn q p S := by
  classical
  obtain ⟨bound, hbound⟩ := (hfinite.image p).bddAbove
  have hle : ∀ s ∈ S, p s ≤ bound := fun s hs => hbound (Set.mem_image_of_mem p hs)
  refine ⟨fun s => if s ∈ S then p s else bound + 1 + s, fun s t heq => ?_, fun s hs => if_pos hs⟩
  by_cases hs : s ∈ S <;> by_cases ht : t ∈ S <;> simp only [hs, ht, if_true, if_false] at heq
  · exact hp hs ht heq
  · have := hle s hs
    omega
  · have := hle t ht
    omega
  · omega

theorem map_rename_eq {q : StateId → StateId} (h : Set.EqOn q p (Named initial edges))
    (hedges : edges'.Perm edges) : edges'.map (Edge.rename q) = edges'.map (Edge.rename p) := by
  apply List.map_congr_left
  intro edge hedge
  have hmem := hedges.mem_iff.1 hedge
  rw [Edge.rename, Edge.rename, h (.inr ⟨edge, hmem, .inl rfl⟩), h (.inr ⟨edge, hmem, .inr rfl⟩)]

theorem warning_named {options : ReductionOptions} {r : Reduction}
    (h : (ofEdges initial edges).reduce options = .ok r) {warning : Warning}
    (hmem : warning ∈ r.warnings) : warning.state ∈ Named initial edges := by
  obtain ⟨x, hx, rfl⟩ := exists_prepared h
  change warning ∈ x.found.warnings.toList at hmem
  rw [(explore_learned (prepare_found hx)).1.warnings, List.mem_flatMap] at hmem
  obtain ⟨s, hs, hwarned⟩ := hmem
  obtain ⟨label, -, rfl⟩ := List.mem_map.1 hwarned
  exact (mem_reached.1 hs).named

/-- Reordering edges and renaming states, each to a number of its own, changes neither whether a
    reduction succeeds nor, up to the numbers of states, its result. If the renaming keeps the
    order of the states, the numbers stay as well. -/
theorem reduce_confluent (options : ReductionOptions) (initial : StateId) (edges edges' : List Edge)
    (p : StateId → StateId) (hedges : edges'.Perm edges) (hp : Set.InjOn p (Named initial edges)) :
    ((∃ r, (ofEdges initial edges).reduce options = .ok r) ↔
      ∃ q, (ofEdges (p initial) (edges'.map (Edge.rename p))).reduce options = .ok q) ∧
    ∀ r q, (ofEdges initial edges).reduce options = .ok r →
      (ofEdges (p initial) (edges'.map (Edge.rename p))).reduce options = .ok q →
      ∃ f, r.Isomorphism p f q ∧ (StrictMonoOn p (Named initial edges) →
        ∀ n ∈ Set.Icc 1 r.chain.stateCount, f n = n) := by
  -- the renaming may join states that the automaton does not know, so another one takes its place
  obtain ⟨g, hg, heq⟩ := exists_injective_eqOn (finite_named initial edges) hp
  have hrelabels : Relabels g (ofEdges initial edges)
      (ofEdges (g initial) (edges'.map (Edge.rename g))) := relabels_ofEdges hg hedges
  rw [heq (.inl rfl), map_rename_eq heq hedges] at hrelabels
  obtain ⟨hiff, hall⟩ := hrelabels.reduce_isomorphism options
  refine ⟨hiff, fun r q hr hq => ?_⟩
  obtain ⟨f, hiso, hmono⟩ := hall r q hr hq
  refine ⟨f, ⟨hiso.chain, hiso.statistics, ?_⟩, fun hstrict => hmono ?_⟩
  · have hsame : r.warnings.map (Warning.rename g) = r.warnings.map (Warning.rename p) := by
      apply List.map_congr_left
      intro warning hmem
      rw [Warning.rename, Warning.rename, heq (warning_named hr hmem)]
    rw [← hsame]
    exact hiso.warnings
  · intro s hs t ht hlt
    have hs' := Reached.named hs
    have ht' := Reached.named ht
    rw [heq hs', heq ht']
    exact hstrict hs' ht' hlt

/-- Two delays end, by a failure and by an unknown action, in states that wait for the same. -/
def fork : List Edge :=
  [⟨0, "rate 1", 1⟩, ⟨0, "rate 1", 2⟩, ⟨1, "FAIL", 3⟩, ⟨2, "beep", 4⟩, ⟨3, "rate 2", 0⟩,
    ⟨4, "rate 2", 0⟩]

/-- Counting the states down moves the initial state to the end, and counting them up leaves all
    numbers as they are. -/
theorem fork_confluent : ∃ r q f, (ofEdges 0 fork).reduce ⟨{}, true⟩ = .ok r ∧
    (ofEdges 9 (fork.reverse.map (Edge.rename (9 - ·)))).reduce ⟨{}, true⟩ = .ok q ∧
    r.Isomorphism (9 - ·) f q ∧ f 1 = 2 ∧ f 2 = 1 ∧
    r.chain = ⟨1, 2, [⟨1, .rate "1", 2⟩, ⟨1, .rate "1", 2⟩, ⟨2, .rate "2", 1⟩],
      [.failed, .failed]⟩ ∧
    q.chain = ⟨2, 2, [⟨2, .rate "1", 1⟩, ⟨2, .rate "1", 1⟩, ⟨1, .rate "2", 2⟩],
      [.failed, .failed]⟩ ∧
    r.warnings = [⟨2, "beep"⟩] ∧ q.warnings = [⟨7, "beep"⟩] ∧
    ∃ t g, (ofEdges 9 (fork.reverse.map (Edge.rename (9 + ·)))).reduce ⟨{}, true⟩ = .ok t ∧
      r.Isomorphism (9 + ·) g t ∧ g 1 = 1 ∧ g 2 = 2 ∧ t.warnings = [⟨11, "beep"⟩] := by
  have hnodes : ∀ s ∈ (ofEdges 0 fork).nodes.toList, s ≤ 4 := by decide +kernel
  have hdown : Set.InjOn (fun s => 9 - s) (Named 0 fork) := by
    intro (s : Nat) hs (t : Nat) ht (heq : 9 - s = 9 - t)
    have hs' : s ≤ 4 := hnodes s (mem_nodes_ofEdges.2 hs)
    have ht' : t ≤ 4 := hnodes t (mem_nodes_ofEdges.2 ht)
    have hsame : s = t := by omega
    exact hsame
  have hup : StrictMono fun s : StateId => 9 + s := fun s t hlt => Nat.add_lt_add_left hlt 9
  obtain ⟨r, hr, hchain, hbeep⟩ : ∃ r, (ofEdges 0 fork).reduce ⟨{}, true⟩ = .ok r ∧
      r.chain = ⟨1, 2, [⟨1, .rate "1", 2⟩, ⟨1, .rate "1", 2⟩, ⟨2, .rate "2", 1⟩],
        [.failed, .failed]⟩ ∧ r.warnings = [⟨2, "beep"⟩] := ⟨_, by cbv, rfl, rfl⟩
  obtain ⟨q, hq, hother⟩ : ∃ q,
      (ofEdges 9 (fork.reverse.map (Edge.rename (9 - ·)))).reduce ⟨{}, true⟩ = .ok q ∧
        q.chain = ⟨2, 2, [⟨2, .rate "1", 1⟩, ⟨2, .rate "1", 1⟩, ⟨1, .rate "2", 2⟩],
          [.failed, .failed]⟩ := ⟨_, by cbv, rfl⟩
  have hnumbers : Set.Icc 1 r.chain.stateCount = Set.Icc 1 2 := by rw [hchain]
  obtain ⟨f, hf, -⟩ := (reduce_confluent ⟨{}, true⟩ 0 fork fork.reverse (9 - ·)
    (List.reverse_perm fork) hdown).2 r q hr hq
  obtain ⟨hiff, hall⟩ := reduce_confluent ⟨{}, true⟩ 0 fork fork.reverse (9 + ·)
    (List.reverse_perm fork) hup.injective.injOn
  obtain ⟨t, ht⟩ := hiff.1 ⟨r, hr⟩
  obtain ⟨g, hg, hsame⟩ := hall r t hr ht
  have hstay : ∀ n ∈ Set.Icc 1 2, g n = n := hnumbers ▸ hsame (hup.strictMonoOn _)
  have hfirst : f 1 = 2 := by
    have hinitial := hf.chain.initial
    rwa [hchain, hother] at hinitial
  have hsecond : f 2 = 1 := by
    -- the one number that is left
    have hstates := hf.chain.states
    rw [hchain, hother] at hstates
    obtain ⟨hlow, hhigh⟩ : 1 ≤ f 2 ∧ f 2 ≤ 2 := hstates.mapsTo ⟨by decide, by decide⟩
    have hne : f 2 ≠ f 1 := fun heq => absurd
      (hstates.injOn ⟨by decide, by decide⟩ ⟨by decide, by decide⟩ heq) (by decide)
    omega
  have hdownward := hf.warnings
  have hupward := hg.warnings
  rw [hbeep] at hdownward hupward
  exact ⟨r, q, f, hr, hq, hf, hfirst, hsecond, hchain, hother, hbeep,
    (List.singleton_perm.1 hdownward).symm, t, g, ht, hg, hstay 1 ⟨by decide, by decide⟩,
    hstay 2 ⟨by decide, by decide⟩, (List.singleton_perm.1 hupward).symm⟩

end Automaton

end InteractiveMarkov
