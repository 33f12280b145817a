import InteractiveMarkov.Proofs.Reduction

set_option autoImplicit false

namespace InteractiveMarkov

namespace Chain

def Steps (chain : Chain) (m n : Nat) : Prop :=
  ∃ transition ∈ chain.transitions, transition.source = m ∧ transition.target = n

/-- One or more transitions lead from the first state to the second, and no state between them is
    closed. -/
inductive Path (chain : Chain) (closed : Nat → Prop) : Nat → Nat → Prop
  | step {m n : Nat} : chain.Steps m n → Path chain closed m n
  | extend {m n k : Nat} : Path chain closed m n → ¬ closed n → chain.Steps n k →
      Path chain closed m k

theorem failedStates_length (chain : Chain) : chain.failedStates.length =
    {n | n ∈ Set.Icc 1 chain.stateCount ∧ chain.status? n = some .failed}.ncard := by
  have hnodup : chain.failedStates.Nodup := List.Nodup.filter _ List.nodup_range'
  exact (ncard_eq_length hnodup fun _ => mem_failedStates.symm).symm

end Chain

namespace Automaton

def ExplicitAs (a : Automaton) (names : Vocabulary) (status : Status) (n : Nat) : Prop :=
  ∃ c, a.Live names c ∧ numberAmong (a.Live names) c = n ∧ a.Marked names status c

/-- A path of the chain through states that are not explicit leads to the state from one with the
    status. -/
def ReachedFrom (a : Automaton) (names : Vocabulary) (chain : Chain) (status : Status) (n : Nat) :
    Prop :=
  ∃ m, a.ExplicitAs names status m ∧ chain.Path (fun k => ∃ x, a.ExplicitAs names x k) m n

/-- The statuses that actions and paths give to the states of the chain, and their counts. -/
structure ReferenceStatuses (a : Automaton) (names : Vocabulary) (r : Reduction) : Prop where
  states : Set.BijOn (numberAmong (a.Live names)) {s | a.Live names s}
    (Set.Icc 1 r.chain.stateCount)
  explicit : ∀ n x, a.ExplicitAs names x n → r.chain.status? n = some x
  failed : ∀ n ∈ Set.Icc 1 r.chain.stateCount, (∀ x, ¬ a.ExplicitAs names x n) →
    (r.chain.status? n = some .failed ↔ a.ReachedFrom names r.chain .failed n)
  operational : ∀ n ∈ Set.Icc 1 r.chain.stateCount, (∀ x, ¬ a.ExplicitAs names x n) →
    ¬ a.ReachedFrom names r.chain .failed n → r.chain.status? n = some .operational
  unknown : r.statistics.unknown = {n | n ∈ Set.Icc 1 r.chain.stateCount ∧
    (∀ x, ¬ a.ExplicitAs names x n) ∧ ∀ x, ¬ a.ReachedFrom names r.chain x n}.ncard
  failures : r.statistics.failed =
    {n | n ∈ Set.Icc 1 r.chain.stateCount ∧ r.chain.status? n = some .failed}.ncard

variable {a : Automaton} {names : Vocabulary} {p : Prepared} {s t c : StateId} {n : Nat}
  {x : Status}

theorem Prepares.rank_eq (h : a.Prepares names p) :
    rank p.found.live = numberAmong (a.Live names) :=
  rank_eq_numberAmong fun _ => h.explored.mem_live

theorem Prepares.steps_iff (h : a.Prepares names p) (hs : a.Live names s) :
    (p.chain a.initial false).Steps (rank p.found.live s) n ↔
      ∃ t, a.Proceeds names s t ∧ rank p.found.live t = n := by
  have htransitions := h.transitions_eq a.initial false (h.explored.mem_live.2 hs)
  rw [merge_false_live, target_false] at htransitions
  constructor
  · rintro ⟨transition, hmem, hsource, rfl⟩
    have hfilter : transition ∈ (p.chain a.initial false).transitions.filter fun transition =>
        transition.source = rank p.found.live s :=
      List.mem_filter.2 ⟨hmem, decide_eq_true hsource⟩
    rw [htransitions] at hfilter
    obtain ⟨edge, hedge, rfl⟩ := List.mem_map.1 hfilter
    exact ⟨_, ⟨hs, edge, hedge, h.settles _ (hs.reached_target hedge)⟩, rfl⟩
  · rintro ⟨t, ⟨-, edge, hedge, hsettles⟩, rfl⟩
    obtain rfl := settles_unique hsettles (h.settles _ (hs.reached_target hedge))
    have hmap := List.mem_map_of_mem (f := fun edge : Edge => (⟨rank p.found.live s,
      delayLabel edge.label, rank p.found.live (p.resolve edge.target)⟩ : Transition)) hedge
    rw [← htransitions] at hmap
    obtain ⟨hmem, hsource⟩ := List.mem_filter.1 hmap
    exact ⟨_, hmem, of_decide_eq_true hsource, rfl⟩

theorem Prepares.explicitAs_iff (h : a.Prepares names p) (hs : a.Live names s) :
    a.ExplicitAs names x (rank p.found.live s) ↔ a.Marked names x s := by
  unfold ExplicitAs
  rw [h.rank_eq]
  constructor
  · rintro ⟨c, hc, heq, hmarked⟩
    rw [← h.rank_eq] at heq
    obtain rfl := (rank_inj (h.explored.mem_live.2 hc) (h.explored.mem_live.2 hs)).1 heq
    exact hmarked
  · intro hmarked
    exact ⟨s, hs, rfl, hmarked⟩

theorem Prepares.explicit_iff (h : a.Prepares names p) (hs : a.Live names s) :
    (∃ x, a.ExplicitAs names x (rank p.found.live s)) ↔ a.Explicit names s :=
  exists_congr fun _ => h.explicitAs_iff hs

theorem Prepares.path_sound (h : a.Prepares names p) (hs : a.Live names s)
    (hpath : (p.chain a.initial false).Path (fun k => ∃ x, a.ExplicitAs names x k)
      (rank p.found.live s) n) :
    ∃ r t, Relation.ReflTransGen (a.Flows names) s r ∧ a.Proceeds names r t ∧
      rank p.found.live t = n := by
  -- along the path, keeping a state whose number it has come to
  induction hpath with
  | step hstep =>
    obtain ⟨t, ht, hrank⟩ := (h.steps_iff hs).1 hstep
    exact ⟨s, t, .refl, ht, hrank⟩
  | extend _ hopen hstep ih =>
    obtain ⟨r, d, hlead, hd, rfl⟩ := ih
    rw [h.explicit_iff hd.live] at hopen
    obtain ⟨t, ht, hrank⟩ := (h.steps_iff hd.live).1 hstep
    exact ⟨d, t, hlead.tail ⟨hd, hopen⟩, ht, hrank⟩

theorem Prepares.path_complete (h : a.Prepares names p)
    (hpath : Relation.TransGen (a.Flows names) s t) :
    (p.chain a.initial false).Path (fun k => ∃ x, a.ExplicitAs names x k)
      (rank p.found.live s) (rank p.found.live t) := by
  induction hpath with
  | single hlast => exact .step ((h.steps_iff hlast.1.1).2 ⟨_, hlast.1, rfl⟩)
  | tail hpath hlast ih =>
    refine .extend ih ?_ ((h.steps_iff hlast.1.1).2 ⟨_, hlast.1, rfl⟩)
    rw [h.explicit_iff hlast.1.1]
    exact not_explicit_of_flows hpath

theorem Prepares.reachedFrom_iff (h : a.Prepares names p) (hs : a.Live names s)
    (hopen : ¬ a.Explicit names s) :
    a.ReachedFrom names (p.chain a.initial false) x (rank p.found.live s) ↔
      a.Inherits names x s := by
  constructor
  · rintro ⟨m, ⟨c, hc, rfl, hmarked⟩, hpath⟩
    rw [← h.rank_eq] at hpath
    obtain ⟨r, t, hlead, ht, hrank⟩ := h.path_sound hc hpath
    obtain rfl := (rank_inj (h.explored.mem_live.2 ht.live) (h.explored.mem_live.2 hs)).1 hrank
    exact ⟨c, hc, hmarked, .tail' hlead ⟨ht, hopen⟩⟩
  · rintro ⟨c, hc, hmarked, hpath⟩
    exact ⟨_, (h.explicitAs_iff hc).2 hmarked, h.path_complete hpath⟩

theorem Prepares.status?_eq (h : a.Prepares names p) (hs : a.Live names s) :
    (p.chain a.initial false).status? (rank p.found.live s) = some (p.statuses.resolved s) :=
  status?_rank rfl (h.explored.mem_live.2 hs)

theorem Prepares.resolved_eq (h : a.Prepares names p) (hs : a.Live names s)
    (hx : a.Marked names x s ∨ a.Inherits names x s) : p.statuses.resolved s = x := by
  rw [StatusTable.resolved, Std.ExtTreeMap.getD_eq_getD_getElem?, (h.statuses s hs x).2 hx]
  rfl

theorem Prepares.known_iff (h : a.Prepares names p) (hs : a.Live names s) :
    s ∈ p.statuses ↔ ∃ x, a.Marked names x s ∨ a.Inherits names x s := by
  rw [StateMap.mem_iff_exists]
  exact exists_congr fun x => h.statuses s hs x

theorem Prepares.resolved_of_unknown (h : a.Prepares names p) (hs : a.Live names s)
    (hnone : ∀ x, ¬ (a.Marked names x s ∨ a.Inherits names x s)) :
    p.statuses.resolved s = .operational := by
  have hnot : s ∉ p.statuses := fun hmem => by
    obtain ⟨x, hx⟩ := (h.known_iff hs).1 hmem
    exact hnone x hx
  rw [StatusTable.resolved, Std.ExtTreeMap.getD_eq_getD_getElem?,
    Std.ExtTreeMap.getElem?_eq_none hnot]
  rfl

theorem Prepares.resolved_failed_iff (h : a.Prepares names p) (hs : a.Live names s)
    (hopen : ¬ a.Explicit names s) :
    p.statuses.resolved s = .failed ↔ a.Inherits names .failed s := by
  refine ⟨fun hfailed => ?_, fun hfailed => h.resolved_eq hs (.inr hfailed)⟩
  by_contra hnot
  by_cases hother : a.Inherits names .operational s
  · rw [h.resolved_eq hs (.inr hother)] at hfailed
    cases hfailed
  · have hnone : ∀ x, ¬ (a.Marked names x s ∨ a.Inherits names x s) := by
      rintro x (hx | hx)
      · exact hopen ⟨x, hx⟩
      · cases x with
        | failed => exact hnot hx
        | operational => exact hother hx
    rw [h.resolved_of_unknown hs hnone] at hfailed
    cases hfailed

theorem Prepares.exists_live (h : a.Prepares names p)
    (hn : n ∈ Set.Icc 1 (p.chain a.initial false).stateCount) :
    ∃ s, a.Live names s ∧ rank p.found.live s = n := by
  obtain ⟨s, hs, hrank⟩ := exists_rank hn.1 hn.2
  exact ⟨s, h.explored.mem_live.1 hs, hrank⟩

theorem Prepares.not_explicit (h : a.Prepares names p) (hs : a.Live names s)
    (hnone : ∀ x, ¬ a.ExplicitAs names x (rank p.found.live s)) : ¬ a.Explicit names s := by
  intro hexplicit
  obtain ⟨x, hx⟩ := (h.explicit_iff hs).2 hexplicit
  exact hnone x hx

theorem Prepares.status_explicit (h : a.Prepares names p) (hx : a.ExplicitAs names x n) :
    (p.chain a.initial false).status? n = some x := by
  obtain ⟨c, hc, rfl, hmarked⟩ := hx
  rw [← h.rank_eq, h.status?_eq hc, h.resolved_eq hc (.inl hmarked)]

theorem Prepares.status_failed_iff (h : a.Prepares names p)
    (hn : n ∈ Set.Icc 1 (p.chain a.initial false).stateCount)
    (hnone : ∀ x, ¬ a.ExplicitAs names x n) :
    (p.chain a.initial false).status? n = some .failed ↔
      a.ReachedFrom names (p.chain a.initial false) .failed n := by
  obtain ⟨s, hs, rfl⟩ := h.exists_live hn
  have hopen := h.not_explicit hs hnone
  rw [h.status?_eq hs, Option.some_inj, h.resolved_failed_iff hs hopen,
    h.reachedFrom_iff hs hopen]

theorem Prepares.status_operational (h : a.Prepares names p)
    (hn : n ∈ Set.Icc 1 (p.chain a.initial false).stateCount)
    (hnot : ¬ (p.chain a.initial false).status? n = some .failed) :
    (p.chain a.initial false).status? n = some .operational := by
  obtain ⟨s, hs, rfl⟩ := h.exists_live hn
  rw [h.status?_eq hs] at hnot ⊢
  cases hx : p.statuses.resolved s with
  | failed => exact absurd (congrArg some hx) hnot
  | operational => rfl

theorem Prepares.unknown_iff (h : a.Prepares names p) (hs : a.Live names s) :
    s ∉ p.statuses ↔ (∀ x, ¬ a.ExplicitAs names x (rank p.found.live s)) ∧
      ∀ x, ¬ a.ReachedFrom names (p.chain a.initial false) x (rank p.found.live s) := by
  rw [h.known_iff hs]
  constructor
  · intro hnew
    have hnone : ∀ x, ¬ a.ExplicitAs names x (rank p.found.live s) := by
      intro x hx
      exact hnew ⟨x, .inl ((h.explicitAs_iff hs).1 hx)⟩
    refine ⟨hnone, fun x hx => hnew ⟨x, .inr ?_⟩⟩
    exact (h.reachedFrom_iff hs (h.not_explicit hs hnone)).1 hx
  · rintro ⟨hnone, hnot⟩ ⟨x, hx | hx⟩
    · exact hnone x ((h.explicitAs_iff hs).2 hx)
    · exact hnot x ((h.reachedFrom_iff hs (h.not_explicit hs hnone)).2 hx)

theorem Prepares.unknown_eq (h : a.Prepares names p) :
    p.unknown = {n | n ∈ Set.Icc 1 (p.chain a.initial false).stateCount ∧
      (∀ x, ¬ a.ExplicitAs names x n) ∧
      ∀ x, ¬ a.ReachedFrom names (p.chain a.initial false) x n}.ncard := by
  rw [h.unknown, countP_eq_ncard]
  refine congrArg Set.ncard (Set.ext fun n => ?_)
  constructor
  · rintro ⟨s, hs, rfl, hnew⟩
    rw [StateMap.not_contains] at hnew
    exact ⟨rank_mem hs, (h.unknown_iff (h.explored.mem_live.1 hs)).1 hnew⟩
  · rintro ⟨hn, hnew⟩
    obtain ⟨s, hs, rfl⟩ := h.exists_live hn
    refine ⟨s, h.explored.mem_live.2 hs, rfl, ?_⟩
    rw [StateMap.not_contains]
    exact (h.unknown_iff hs).2 hnew

/-- The statuses of an unmerged chain are those of the reference. -/
theorem reduce_statuses {r : Reduction} (h : a.reduce ⟨names, false⟩ = .ok r) :
    a.ReferenceStatuses names r := by
  obtain ⟨p, hp, -, rfl⟩ := reduce_ok h
  have hstates : {s | a.Live names s} = {s | s ∈ p.found.live} :=
    Set.ext fun s => hp.explored.mem_live.symm
  refine ⟨?_, fun n x hx => hp.status_explicit hx, fun n hn hnone => hp.status_failed_iff hn hnone,
    fun n hn hnone hnot => ?_, hp.unknown_eq, Chain.failedStates_length _⟩
  · rw [← hp.rank_eq, hstates]
    exact bijOn_rank p.found.live
  · exact hp.status_operational hn fun hfailed => hnot ((hp.status_failed_iff hn hnone).1 hfailed)

theorem relay_statuses : ∃ r, relay.reduce ⟨relayNames, false⟩ = .ok r ∧
    r.chain = relayChain ∧ relay.ReferenceStatuses relayNames r := by
  obtain ⟨r, hr, hchain⟩ := relay_unmerged
  exact ⟨r, hr, hchain, reduce_statuses hr⟩

end Automaton

end InteractiveMarkov
