import InteractiveMarkov.Proofs.Confluence
import InteractiveMarkov.Proofs.Labels
import InteractiveMarkov.Proofs.Patience
import InteractiveMarkov.Proofs.Transparency

set_option autoImplicit false

namespace InteractiveMarkov

/-- Every state can be reached and has a status, and only delays are left. -/
structure Chain.Trim (chain : Chain) : Prop where
  reachable : ∀ n ∈ Set.Icc 1 chain.stateCount, Relation.ReflTransGen chain.Steps chain.initial n
  statuses : chain.statuses.length = chain.stateCount
  delays : ∀ transition ∈ chain.transitions, transition.label.isDelay = true

/-- The result has the states and delays of the chain and no failed state, and nothing was
    redirected, preempted or warned of. -/
structure Reduction.Leaves (r : Reduction) (chain : Chain) : Prop where
  initial : r.chain.initial = chain.initial
  stateCount : r.chain.stateCount = chain.stateCount
  outgoing : ∀ n, r.chain.outgoing n = chain.outgoing n
  operational : ∀ n ∈ Set.Icc 1 r.chain.stateCount, r.chain.status? n = some .operational
  redirected : r.statistics.redirected = 0
  preempted : r.statistics.preempted = 0
  warnings : r.warnings = []

namespace Automaton

variable {a b : Automaton} {names : Vocabulary} {p q : Prepared} {s : StateId} {edge : Edge}
  {identical : Bool} {n : Nat}

section Trim

variable (h : a.Prepares names p)

include h

theorem Prepares.steps_target (hs : a.Live names s) (hedge : edge ∈ a.delays names s) :
    (p.chain a.initial identical).Steps (rank (p.merge identical).live (p.target identical s))
      (rank (p.merge identical).live (p.target identical edge.target)) := by
  have htarget : p.target identical s = (p.merge identical).representative s :=
    congrArg _ (settles_unique (h.settles s hs.1) hs.settles)
  have hout := h.outgoing_eq identical (h.target_mem identical hs.1)
  have hmem := List.mem_map_of_mem (f := fun edge : Edge =>
    (delayLabel edge.label, p.target identical edge.target)) hedge
  -- the representative has a copy of the delay, into the same class
  obtain ⟨copy, hcopy, hsame⟩ :=
    List.mem_map.1 ((h.representative_same identical hs).2.mem_iff.1 hmem)
  rw [← htarget] at hcopy
  have hstep := List.mem_map_of_mem (f := fun edge : Edge =>
    (⟨rank (p.merge identical).live (p.target identical s), delayLabel edge.label,
      rank (p.merge identical).live (p.target identical edge.target)⟩ : Transition)) hcopy
  rw [← hout] at hstep
  exact ⟨_, (List.mem_filter.1 hstep).1, rfl, congrArg (rank _) (Prod.mk.inj hsame).2⟩

theorem Prepares.reaches_target (hs : a.Reached names s) :
    Relation.ReflTransGen (p.chain a.initial identical).Steps (p.chain a.initial identical).initial
      (rank (p.merge identical).live (p.target identical s)) := by
  induction hs with
  | initial => exact .refl
  | @urgent s edge hs hedge ih =>
    have hsame : p.resolve s = p.resolve edge.target :=
      settles_unique (h.settles s hs) (.follow hedge (h.settles _ (hs.urgent hedge)))
    rwa [Prepared.target, ← hsame]
  | patient hs hnone hedge ih => exact ih.tail (h.steps_target ⟨hs, hnone⟩ hedge)

theorem Prepares.trim (identical : Bool) : (p.chain a.initial identical).Trim := by
  have hrep := represents_merge p identical
  refine ⟨fun n hn => ?_, ?_, fun transition hmem => ?_⟩
  · obtain ⟨s, hs, rfl⟩ : ∃ s ∈ (p.merge identical).live, rank (p.merge identical).live s = n :=
      exists_rank hn.1 hn.2
    obtain ⟨hfound, hself⟩ := hrep.fixed hs
    have hlive := h.explored.mem_live.1 hfound
    have htarget : p.target identical s = s := by
      rw [Prepared.target, settles_unique (h.settles s hlive.1) hlive.settles, hself]
    exact htarget ▸ h.reaches_target hlive.1
  · exact (List.length_map _).trans Std.ExtTreeSet.length_toList
  · obtain ⟨s, -, -, edge, -, rfl⟩ := h.transition_of_delay identical hmem
    exact isDelay_delayLabel edge.label

end Trim

/-- The automaton is the chain as it stands in its file, and all labels read as the delays that
    they are. -/
structure Holds (names : Vocabulary) (chain : Chain) (b : Automaton) : Prop where
  initial : b.initial = chain.initial - 1
  edges : b.edges.toList = chain.transitions.map Aldebaran.fileEdge
  labels : ∀ transition ∈ chain.transitions,
    (names.classify transition.label.text).isDelay = true ∧
      delayLabel transition.label.text = transition.label

theorem Prepares.labels_reread (h : a.Prepares names p) {transition : Transition}
    (hmem : transition ∈ (p.chain a.initial identical).transitions) :
    (names.classify transition.label.text).isDelay = true ∧
      delayLabel transition.label.text = transition.label := by
  obtain ⟨s, -, -, edge, hedge, rfl⟩ := h.transition_of_delay identical hmem
  have hdelay := (List.mem_filter.1 hedge).2
  obtain ⟨hclass, hlabel, -⟩ := classify_text (keep?_of_isDelay hdelay)
  exact ⟨hclass ▸ hdelay, hlabel⟩

section Holds

variable {chain : Chain} (h : Holds names chain b) (hchain : chain.Writable)

include h hchain

theorem Holds.outgoing_eq : b.outgoing n = (chain.outgoing (n + 1)).map Aldebaran.fileEdge :=
  outgoing_of_file h.edges (fun transition hmem => (hchain.ends transition hmem).1.1) n

theorem Holds.isDelay (hedge : edge ∈ b.outgoing n) :
    (names.classify edge.label).isDelay = true := by
  rw [h.outgoing_eq hchain] at hedge
  obtain ⟨transition, hmem, rfl⟩ := List.mem_map.1 hedge
  exact (h.labels transition (List.mem_filter.1 hmem).1).1

theorem Holds.stable (n : StateId) : b.urgentEdge? names n = none := by
  refine urgentEdge?_none.2 fun edge hedge himm => ?_
  have hdelay := h.isDelay hchain hedge
  rw [LabelClass.isDelay_eq, himm] at hdelay
  cases hdelay

theorem Holds.delays_eq : b.delays names n = (chain.outgoing (n + 1)).map Aldebaran.fileEdge := by
  rw [delays_of_stable (h.stable hchain n), h.outgoing_eq hchain]

theorem Holds.reached_lt (hn : b.Reached names n) : n < chain.stateCount := by
  cases hn with
  | initial => exact h.initial ▸ Aldebaran.lowered_lt hchain.initial
  | urgent _ hedge => rw [h.stable hchain] at hedge; cases hedge
  | patient _ _ hedge =>
    rw [h.delays_eq hchain] at hedge
    obtain ⟨transition, hmem, rfl⟩ := List.mem_map.1 hedge
    exact Aldebaran.lowered_lt (hchain.ends transition (List.mem_filter.1 hmem).1).2

theorem Holds.reached_of_path (hpath : Relation.ReflTransGen chain.Steps chain.initial n) :
    b.Reached names (n - 1) := by
  induction hpath with
  | refl => exact h.initial ▸ .initial
  | tail _ hstep ih =>
    obtain ⟨transition, hmem, rfl, rfl⟩ := hstep
    have hedge : Aldebaran.fileEdge transition ∈ b.delays names (transition.source - 1) := by
      rw [h.delays_eq hchain, Nat.sub_add_cancel (hchain.ends transition hmem).1.1]
      exact List.mem_map_of_mem (List.mem_filter.2 ⟨hmem, decide_eq_true rfl⟩)
    exact ih.patient (h.stable hchain _) hedge

theorem Holds.patient : b.Patient names := fun n _ => h.stable hchain n

variable (hq : b.Prepares names q)

include hq

theorem Holds.status?_operational (hn : n ∈ Set.Icc 1 (q.chain b.initial false).stateCount) :
    (q.chain b.initial false).status? n = some .operational := by
  obtain ⟨s, hs, rfl⟩ : ∃ s ∈ q.found.live, rank q.found.live s = n := exists_rank hn.1 hn.2
  have hstatus : (q.chain b.initial false).status? (rank q.found.live s) =
      some (q.statuses.resolved s) := status?_rank rfl hs
  have hpatient := h.patient hchain
  rw [hstatus, hpatient.resolved_eq hq ((hpatient.mem_live hq).1 hs)]

variable (htrim : chain.Trim)

include htrim

theorem Holds.mem_live : n ∈ q.found.live ↔ n < chain.stateCount := by
  rw [hq.explored.mem_live]
  refine ⟨fun hn => h.reached_lt hchain hn.1, fun hn => ⟨?_, h.stable hchain n⟩⟩
  exact h.reached_of_path hchain
    (htrim.reachable (n + 1) ⟨Nat.succ_pos n, Nat.succ_le_of_lt hn⟩)

theorem Holds.size_live : q.found.live.size = chain.stateCount := by
  rw [← Std.ExtTreeSet.length_toList, toList_eq_range fun k => h.mem_live hchain hq htrim,
    List.length_range]

theorem Holds.rank_lowered (hn : n ∈ Set.Icc 1 chain.stateCount) :
    rank q.found.live (n - 1) = n := by
  rw [rank_eq_succ (fun k => h.mem_live hchain hq htrim) (Aldebaran.lowered_lt hn),
    Nat.sub_add_cancel hn.1]

theorem Holds.rank_resolve (hn : n ∈ Set.Icc 1 chain.stateCount) :
    rank q.found.live (q.resolve (n - 1)) = n := by
  have hlive := hq.explored.mem_live.1
    ((h.mem_live hchain hq htrim).2 (Aldebaran.lowered_lt hn))
  rw [settles_unique (hq.settles _ hlive.1) hlive.settles, h.rank_lowered hchain hq htrim hn]

theorem Holds.outgoing_chain (n : Nat) :
    (q.chain b.initial false).outgoing n = chain.outgoing n := by
  by_cases hn : n ∈ Set.Icc 1 chain.stateCount
  · have hout := hq.outgoing_eq false ((h.mem_live hchain hq htrim).2 (Aldebaran.lowered_lt hn))
    rw [merge_false_live, target_false, h.rank_lowered hchain hq htrim hn, h.delays_eq hchain,
      Nat.sub_add_cancel hn.1, List.map_map] at hout
    rw [hout]
    refine (List.map_congr_left fun transition hmem => ?_).trans (List.map_id _)
    obtain ⟨hfound, hsource⟩ := List.mem_filter.1 hmem
    have hlabel := (h.labels transition hfound).2
    have htarget := h.rank_resolve hchain hq htrim (hchain.ends transition hfound).2
    simp only [Function.comp_apply, Aldebaran.fileEdge, hlabel, htarget,
      ← of_decide_eq_true hsource, id]
  · have hsources : ∀ transition ∈ (q.chain b.initial false).transitions,
        transition.source ∈ Set.Icc 1 chain.stateCount := by
      intro transition hmem
      obtain ⟨s, hs, -, edge, -, rfl⟩ := hq.transition_of_delay false hmem
      have hrank := rank_mem hs
      rwa [merge_false_live, h.size_live hchain hq htrim] at hrank
    rw [Chain.outgoing_nil hsources hn,
      Chain.outgoing_nil (fun transition hmem => (hchain.ends transition hmem).1) hn]

end Holds

theorem Holds.reduce_leaves {chain : Chain} (h : Holds names chain b) (hchain : chain.Writable)
    (htrim : chain.Trim) : ∃ r, b.reduce ⟨names, false⟩ = .ok r ∧ r.Leaves chain := by
  have hpatient := h.patient hchain
  obtain ⟨q, hprepare, hreduce⟩ := hpatient.reduces false
  have hq := (prepare_ok hprepare).1
  obtain ⟨hpreempted, hwarnings⟩ := hpatient.learned_nothing (prepare_found hprepare)
  have hinitial := h.rank_resolve hchain hq htrim hchain.initial
  rw [← h.initial, ← target_false] at hinitial
  exact ⟨_, hreduce, hinitial, h.size_live hchain hq htrim, h.outgoing_chain hchain hq htrim,
    fun n hn => h.status?_operational hchain hq hn, hpatient.size_redirects hq, hpreempted,
    hwarnings⟩

/-- A reduced chain is trim, and if it fits into a file, then what is read back from there reduces
    to it again, with nothing to redirect, to preempt or to warn of. -/
theorem reduce_trim (a : Automaton) (options : ReductionOptions) {r : Reduction}
    (hr : a.reduce options = .ok r) : r.chain.Trim ∧
    ((∀ edge ∈ a.edges.toList, '\n' ∉ edge.label.toList) → r.chain.stateCount < stateBound →
      a.edges.size < countBound → ∃ after b q,
        Aldebaran.write r.chain Stream.empty = .ok (after, r.chain.transitions.length) ∧
        Aldebaran.readStored after.bytes = .ok b ∧
        b.reduce ⟨options.names, false⟩ = .ok q ∧ q.Leaves r.chain) := by
  obtain ⟨p, hp, -, rfl⟩ := reduce_ok hr
  have htrim := hp.trim options.merge
  refine ⟨htrim, fun hfeed hstates hcount => ?_⟩
  have hwritable := hp.writable options.merge hfeed hstates hcount
  obtain ⟨after, b, hwrite, hread, hinitial, hedges⟩ := Aldebaran.exists_stored hwritable
  have hholds : Holds options.names (p.chain a.initial options.merge) b :=
    ⟨hinitial, hedges, fun transition hmem => hp.labels_reread hmem⟩
  obtain ⟨q, hq, hleaves⟩ := hholds.reduce_leaves hwritable htrim
  exact ⟨after, b, q, hwrite, hread, hq, hleaves⟩

theorem relay_trim : relayChain.Trim ∧ ∃ r after b q,
    relay.reduce ⟨relayNames, false⟩ = .ok r ∧ r.chain = relayChain ∧
      Aldebaran.write relayChain Stream.empty = .ok (after, 7) ∧
      Aldebaran.readStored after.bytes = .ok b ∧ b.reduce ⟨relayNames, false⟩ = .ok q ∧
      q.Leaves relayChain := by
  obtain ⟨r, hr, hchain⟩ := relay_unmerged
  have hfeed : ∀ edge ∈ relay.edges.toList, '\n' ∉ edge.label.toList := by decide +kernel
  obtain ⟨htrim, hagain⟩ := reduce_trim relay ⟨relayNames, false⟩ hr
  rw [hchain] at htrim hagain
  obtain ⟨after, b, q, hfile⟩ := hagain hfeed (by decide) (by decide +kernel)
  exact ⟨htrim, r, after, b, q, hr, hchain, hfile⟩

end Automaton

end InteractiveMarkov
