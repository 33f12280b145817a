import InteractiveMarkov.Proofs.Classes
import InteractiveMarkov.Proofs.Patience
import InteractiveMarkov.Proofs.Progress

set_option autoImplicit false

namespace InteractiveMarkov

/-- The runs have one and the same graph, and neither preempted a delay or warned of anything. -/
structure Reduction.SameGraph (r q : Reduction) : Prop where
  initial : r.chain.initial = q.chain.initial
  stateCount : r.chain.stateCount = q.chain.stateCount
  statuses : r.chain.statuses = q.chain.statuses
  outgoing : ∀ n, r.chain.outgoing n = q.chain.outgoing n
  preempted : r.statistics.preempted = 0 ∧ q.statistics.preempted = 0
  warnings : r.warnings = [] ∧ q.warnings = []

namespace Automaton

/-- States that edges of any kind lead to from the initial one. -/
def Accessible (a : Automaton) : StateId → Prop :=
  Relation.ReflTransGen (fun s t => ∃ edge ∈ a.outgoing s, edge.target = t) a.initial

def OnlyDelays (a : Automaton) (names : Vocabulary) : Prop :=
  ∀ s, a.Accessible s → ∀ edge ∈ a.outgoing s, (names.classify edge.label).isImmediate = false

/-- The states of the chain are the accessible ones, numbered from 1 in their order, none is failed,
    and each has all its edges in their order, parallel ones included. -/
structure AccessiblePart (a : Automaton) (chain : Chain) : Prop where
  states : Set.BijOn (numberAmong a.Accessible) {s | a.Accessible s} (Set.Icc 1 chain.stateCount)
  ordered : StrictMonoOn (numberAmong a.Accessible) {s | a.Accessible s}
  initial : chain.initial = numberAmong a.Accessible a.initial
  statuses : chain.statuses = List.replicate chain.stateCount .operational
  sources : ∀ transition ∈ chain.transitions, transition.source ∈ Set.Icc 1 chain.stateCount
  outgoing : ∀ s, a.Accessible s → chain.outgoing (numberAmong a.Accessible s) =
    (a.outgoing s).map fun edge => ⟨numberAmong a.Accessible s, delayLabel edge.label,
      numberAmong a.Accessible edge.target⟩

variable {a : Automaton} {names : Vocabulary} {s t : StateId} {edge : Edge} {chain other : Chain}

theorem AccessiblePart.stateCount_le (h : a.AccessiblePart chain) (h' : a.AccessiblePart other) :
    chain.stateCount ≤ other.stateCount := by
  have hsame : Set.Icc 1 chain.stateCount = Set.Icc 1 other.stateCount := by
    rw [← h.states.image_eq, h'.states.image_eq]
  have hpos := h.states.mapsTo (show a.Accessible a.initial from .refl)
  have hlast : chain.stateCount ∈ Set.Icc 1 other.stateCount := by
    rw [← hsame]
    exact ⟨le_trans hpos.1 hpos.2, le_refl _⟩
  exact hlast.2

theorem AccessiblePart.stateCount_eq (h : a.AccessiblePart chain) (h' : a.AccessiblePart other) :
    chain.stateCount = other.stateCount :=
  Nat.le_antisymm (h.stateCount_le h') (h'.stateCount_le h)

theorem AccessiblePart.outgoing_eq (h : a.AccessiblePart chain) (h' : a.AccessiblePart other)
    (n : Nat) : chain.outgoing n = other.outgoing n := by
  by_cases hn : n ∈ Set.Icc 1 chain.stateCount
  · obtain ⟨s, hs, rfl⟩ := h.states.surjOn hn
    rw [h.outgoing s hs, h'.outgoing s hs]
  · rw [Chain.outgoing_nil h.sources hn, Chain.outgoing_nil h'.sources]
    rwa [← h.stateCount_eq h']

theorem accessiblePart_of_live {live : StateSet} (hlive : ∀ s, s ∈ live ↔ a.Accessible s)
    (hinitial : chain.initial = rank live a.initial) (hcount : chain.stateCount = live.size)
    (hstatuses : chain.statuses = List.replicate chain.stateCount .operational)
    (hsources : ∀ transition ∈ chain.transitions, ∃ s ∈ live, transition.source = rank live s)
    (houtgoing : ∀ s ∈ live, chain.outgoing (rank live s) = (a.outgoing s).map fun edge =>
      ⟨rank live s, delayLabel edge.label, rank live edge.target⟩) : a.AccessiblePart chain := by
  have hmembers : {s | a.Accessible s} = {s | s ∈ live} := Set.ext fun s => (hlive s).symm
  refine ⟨?_, ?_, ?_, hstatuses, fun transition hmem => ?_, fun s hs => ?_⟩
  · rw [← rank_eq_numberAmong hlive, hmembers, hcount]
    exact bijOn_rank live
  · rw [← rank_eq_numberAmong hlive, hmembers]
    exact fun s hs t _ hlt => rank_lt_rank hs hlt
  · rw [← rank_eq_numberAmong hlive]
    exact hinitial
  · obtain ⟨s, hs, hsource⟩ := hsources transition hmem
    rw [hsource, hcount]
    exact rank_mem hs
  · rw [← rank_eq_numberAmong hlive]
    exact houtgoing s ((hlive s).2 hs)

theorem closedPair_accessible (a : Automaton) (names : Vocabulary) :
    a.ClosedPair names {s | a.Accessible s} Set.univ := by
  have htarget : ∀ s, a.Accessible s → ∀ edge ∈ a.outgoing s, a.Accessible edge.target :=
    fun s hs edge hedge => hs.tail ⟨edge, hedge, rfl⟩
  exact ⟨.refl, fun s hs edge hedge _ => ⟨htarget s hs edge hedge, fun _ => trivial⟩,
    fun s hs edge hedge _ _ => ⟨htarget s hs edge hedge, trivial⟩,
    fun s hs edge hedge _ _ _ => htarget s hs edge hedge⟩

theorem accessible_of_visit {visit : Visit} (h : visit ∈ (a.swept names).visits.toList) :
    a.Accessible visit.state :=
  (closedPair_accessible a names).within.1 _ (visited_of_visit h)

theorem Reached.accessible (h : a.Reached names s) : a.Accessible s := by
  induction h with
  | initial => exact .refl
  | urgent _ hedge ih => exact ih.tail ⟨_, (urgentEdge?_some hedge).1, rfl⟩
  | patient _ _ hedge ih => exact ih.tail ⟨_, (List.mem_filter.1 hedge).1, rfl⟩

namespace OnlyDelays

variable (h : a.OnlyDelays names)

include h

theorem stable (hs : a.Accessible s) : a.urgentEdge? names s = none := by
  apply urgentEdge?_none.2
  intro edge hedge
  rw [h s hs edge hedge]
  exact Bool.false_ne_true

theorem delays_eq (hs : a.Accessible s) : a.delays names s = a.outgoing s :=
  delays_of_stable (h.stable hs)

theorem reached_iff : a.Reached names s ↔ a.Accessible s := by
  refine ⟨Reached.accessible, fun hs => ?_⟩
  induction hs with
  | refl => exact .initial
  | tail hpath hstep ih =>
    obtain ⟨edge, hedge, rfl⟩ := hstep
    exact ih.patient (h.stable hpath) (by rwa [h.delays_eq hpath])

theorem patient : a.Patient names := fun _ hs => h.stable hs.accessible

theorem accessiblePart_chain {p : Prepared} (hp : a.Prepares names p) :
    a.AccessiblePart (p.chain a.initial false) := by
  have hlive : ∀ s, s ∈ p.found.live ↔ a.Accessible s := fun s =>
    (h.patient.mem_live hp).trans h.reached_iff
  have htarget : ∀ s, a.Accessible s → p.target false s = s := by
    intro s hs
    rw [target_false]
    exact h.patient.resolve_eq hp (h.reached_iff.2 hs)
  apply accessiblePart_of_live hlive
  · exact congrArg (rank p.found.live) (htarget a.initial .refl)
  · rfl
  · exact h.patient.statuses_chain hp a.initial
  · intro transition hmem
    obtain ⟨kept, hkept, rfl⟩ := List.mem_map.1 hmem
    exact ⟨kept.source, of_decide_eq_true (List.mem_filter.1 hkept).2, rfl⟩
  · intro s hs
    have haccessible := (hlive s).1 hs
    refine (hp.outgoing_eq false hs).trans ?_
    rw [h.delays_eq haccessible]
    apply List.map_congr_left
    intro edge hedge
    rw [htarget edge.target (haccessible.tail ⟨edge, hedge, rfl⟩)]
    rfl

theorem mem_swept : s ∈ (a.swept names).visited ↔ a.Accessible s := by
  refine ⟨(closedPair_accessible a names).within.1 s, fun hs => ?_⟩
  have hclosed := closedPair_swept a names
  induction hs with
  | refl => exact hclosed.initial
  | @tail s _ hpath hstep ih =>
    obtain ⟨edge, hedge, rfl⟩ := hstep
    have hstable : a.Stable names s := stable_iff.2 (h.stable hpath)
    have hdelay := h s hpath edge hedge
    -- both kinds of delays are followed from a stable state
    cases hkind : names.classify edge.label with
    | silent => rw [hkind] at hdelay; cases hdelay
    | interactive action => rw [hkind] at hdelay; cases hdelay
    | rate expr => exact hclosed.rate s ih edge hedge expr hkind hstable
    | timed => exact (hclosed.timed s ih edge hedge hkind (.inr hstable)).1

theorem remnant?_eq (hs : a.Accessible s) (hedge : edge ∈ a.outgoing s) (timed : Bool) :
    a.remnant? names timed edge = some (keptDelay edge) := by
  cases hremnant : a.remnant? names timed edge with
  | none =>
    rcases remnant?_none hedge hremnant with hsilent | ⟨-, hurgent⟩
    · have hdelay := h s hs edge hedge
      rw [hsilent] at hdelay
      cases hdelay
    · exact absurd (h.stable hs) hurgent
  | some kept =>
    obtain ⟨-, label, hlabel, rfl⟩ := remnant?_some hedge hremnant
    have hdelay : (names.classify edge.label).isDelay = true := by
      rw [LabelClass.isDelay_eq, h s hs edge hedge]
      rfl
    rw [keep?_of_isDelay hdelay] at hlabel
    cases hlabel
    rw [keptDelay, source_of_mem_outgoing hedge]

theorem accessiblePart_progressChain : a.AccessiblePart (a.progressChain names) := by
  apply accessiblePart_of_live fun s => h.mem_swept
  · rfl
  · rfl
  · apply List.eq_replicate_iff.2
    refine ⟨(List.length_map _).trans Std.ExtTreeSet.length_toList, fun status hstatus => ?_⟩
    obtain ⟨s, -, rfl⟩ := List.mem_map.1 hstatus
    rfl
  · intro transition hmem
    obtain ⟨s, hs, edge, -, label, -, -, rfl⟩ := mem_progressChain hmem
    exact ⟨s, hs, rfl⟩
  · intro s hs
    have hkept : (a.outgoing s).filterMap
        (a.remnant? names ((a.swept names).timed.contains s)) = (a.outgoing s).map keptDelay := by
      rw [← List.filterMap_eq_map]
      apply List.filterMap_congr
      intro edge hedge
      exact h.remnant?_eq (h.mem_swept.1 hs) hedge _
    rw [outgoing_progressChain hs, hkept, List.map_map]
    apply List.map_congr_left
    intro edge hedge
    obtain rfl := source_of_mem_outgoing hedge
    rfl

theorem preempted_eq_zero : (a.maximalProgress names).preempted = 0 := by
  rw [preempted_maximalProgress, List.length_eq_zero_iff, List.flatMap_eq_nil_iff]
  intro s hs
  have haccessible := h.mem_swept.1 (Std.ExtTreeSet.mem_toList.1 hs)
  rw [List.filter_eq_nil_iff]
  intro edge hedge
  rw [h.remnant?_eq haccessible (List.mem_filter.1 hedge).1]
  exact Bool.false_ne_true

theorem unknownActions_eq_nil (hs : a.Accessible s) :
    unknownActions s ((a.steps names).getD s []) = [] := by
  rw [unknownActions, getD_steps, List.filterMap_eq_nil_iff]
  intro step hstep
  obtain ⟨edge, hedge, rfl⟩ := List.mem_map.1 hstep
  have hdelay := h s hs edge hedge
  rw [kind_ofEdge]
  cases hkind : names.classify edge.label with
  | silent => rfl
  | rate expr => rfl
  | timed => rfl
  | interactive action => rw [hkind] at hdelay; cases hdelay

theorem warnings_eq_nil : (a.maximalProgress names).warnings = [] := by
  have hread : (a.maximalProgress names).warnings =
      ((a.swept names).visits.toList.filter (·.first)).flatMap fun visit =>
        unknownActions visit.state ((a.steps names).getD visit.state []) := rfl
  rw [hread, List.flatMap_eq_nil_iff]
  intro visit hvisit
  exact h.unknownActions_eq_nil (accessible_of_visit (List.mem_filter.1 hvisit).1)

end OnlyDelays

/-- If only delays leave the accessible states, then reducing an automaton and applying maximal
    progress to it both succeed, and both give its accessible part. -/
theorem reduce_eq_progress (merge : Bool) (h : a.OnlyDelays names) :
    ∃ r q, a.reduce ⟨names, false⟩ = .ok r ∧ a.progress ⟨names, merge⟩ = .ok q ∧
      a.AccessiblePart r.chain ∧ a.AccessiblePart q.chain ∧ r.SameGraph q := by
  obtain ⟨p, hprepare, hreduce⟩ := h.patient.reduces false
  have hleft := h.accessiblePart_chain (prepare_ok hprepare).1
  have hright := h.accessiblePart_progressChain
  have hcount := hleft.stateCount_eq hright
  have hstatuses : (p.chain a.initial false).statuses = (a.progressChain names).statuses := by
    rw [hleft.statuses, hright.statuses, hcount]
  have hlearned := h.patient.learned_nothing (prepare_found hprepare)
  refine ⟨_, _, hreduce, progress_eq a ⟨names, merge⟩, hleft, hright, ?_⟩
  exact {
    initial := hleft.initial.trans hright.initial.symm
    stateCount := hcount
    statuses := hstatuses
    outgoing := hleft.outgoing_eq hright
    preempted := ⟨hlearned.1, h.preempted_eq_zero⟩
    warnings := ⟨hlearned.2, h.warnings_eq_nil⟩ }

theorem onlyDelays_of_closed {states : List StateId} (hinitial : a.initial ∈ states)
    (hclosed : ∀ s ∈ states, ∀ edge ∈ a.outgoing s, edge.target ∈ states ∧
      (names.classify edge.label).isImmediate = false) : a.OnlyDelays names := by
  have hstates : ∀ s, a.Accessible s → s ∈ states := by
    intro s hs
    induction hs with
    | refl => exact hinitial
    | tail _ hstep ih =>
      obtain ⟨edge, hedge, rfl⟩ := hstep
      exact (hclosed _ ih edge hedge).1
  exact fun s hs edge hedge => (hclosed s (hstates s hs) edge hedge).2

/-- Only delays leave the states 3, 5 and 8, two of them parallel and one a loop. The states 2 and 9,
    which have the immediate edges, are not accessible. -/
def workshop : Automaton := .ofEdges 3
  [⟨2, "FAIL", 3⟩, ⟨3, "rate 1", 8⟩, ⟨8, "time 2", 3⟩, ⟨8, "rate 1", 5⟩, ⟨9, "", 2⟩,
    ⟨8, "rate 1", 5⟩, ⟨5, "time 4", 8⟩, ⟨5, "rate 2", 5⟩]

theorem workshop_agrees : workshop.OnlyDelays relayNames ∧ ∃ r q,
    workshop.reduce ⟨relayNames, false⟩ = .ok r ∧ workshop.progress ⟨relayNames, true⟩ = .ok q ∧
      workshop.AccessiblePart r.chain ∧ workshop.AccessiblePart q.chain ∧ r.SameGraph q ∧
      q.chain.outgoing 3 = [⟨3, .timed "time 2", 1⟩, ⟨3, .rate "1", 2⟩, ⟨3, .rate "1", 2⟩] := by
  have honly : workshop.OnlyDelays relayNames :=
    @onlyDelays_of_closed _ _ [3, 5, 8] (by decide +kernel) (by decide +kernel)
  have hchain : (workshop.reduce ⟨relayNames, false⟩).toOption.map (·.chain.outgoing 3) =
      some [⟨3, .timed "time 2", 1⟩, ⟨3, .rate "1", 2⟩, ⟨3, .rate "1", 2⟩] := by
    decide +kernel
  obtain ⟨r, q, hr, hq, hleft, hright, hsame⟩ := reduce_eq_progress true honly
  rw [hr, Except.toOption, Option.map_some, Option.some.injEq, hsame.outgoing] at hchain
  exact ⟨honly, r, q, hr, hq, hleft, hright, hsame, hchain⟩

end Automaton

end InteractiveMarkov
