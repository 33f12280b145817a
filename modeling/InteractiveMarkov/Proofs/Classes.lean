import InteractiveMarkov.Proofs.Reduction

set_option autoImplicit false

namespace InteractiveMarkov

def Chain.outgoing (chain : Chain) (n : Nat) : List Transition :=
  chain.transitions.filter fun transition => transition.source = n

theorem Chain.outgoing_nil {chain : Chain} {states : Set Nat} {n : Nat}
    (h : ∀ transition ∈ chain.transitions, transition.source ∈ states) (hn : n ∉ states) :
    chain.outgoing n = [] :=
  List.filter_eq_nil_iff.2 fun transition hmem hsource =>
    hn (of_decide_eq_true hsource ▸ h transition hmem)

theorem exists_renumbering (live : StateSet) (g : StateId → Nat) :
    ∃ f : Nat → Nat, ∀ s ∈ live, f (rank live s) = g s := by
  refine ⟨fun n => g (live.toList.getD (n - 1) 0), fun s hs => ?_⟩
  obtain ⟨i, hi, hget, hrank⟩ := exists_place hs
  have hplace : live.toList.getD (1 + i - 1) 0 = s := by
    rw [Nat.add_sub_cancel_left, List.getD_eq_getElem?_getD, List.getElem?_eq_getElem hi, hget]
    rfl
  rw [hrank]
  exact congrArg g hplace

namespace Automaton

variable {a : Automaton} {names : Vocabulary} {p : Prepared} {s t : StateId}

theorem Prepares.getD_liveEdges (h : a.Prepares names p) (hs : a.Live names s) :
    (liveEdges p.found.live p.found.edges.toList p.resolve).getD s [] =
      (a.delays names s).map fun edge => (delayLabel edge.label, p.resolve edge.target) := by
  rw [InteractiveMarkov.getD_liveEdges _ _ (h.explored.mem_live.2 hs), h.explored.edges_of_live hs,
    List.map_map]
  rfl

theorem Prepares.mergeKey_eq (h : a.Prepares names p) (hs : a.Live names s) :
    mergeKey p.found.live p.found.edges.toList p.resolve p.statuses
        (p.merge true).representatives s =
      StateKey.of (p.statuses.resolved s) ((a.delays names s).map fun edge =>
        (delayLabel edge.label, p.target true edge.target)) := by
  unfold mergeKey
  rw [h.getD_liveEdges hs, (represents_merge p true).keyOver_eq, List.map_map]
  · rfl
  · intro edge hedge
    obtain ⟨delay, hdelay, rfl⟩ := List.mem_map.1 hedge
    exact h.live_resolve (hs.reached_target hdelay)

/-- States are merged exactly if they have one status and the same delays into merged states. -/
theorem Prepares.merged_iff (h : a.Prepares names p) (hs : a.Live names s)
    (ht : a.Live names t) :
    (p.merge true).representative s = (p.merge true).representative t ↔
      p.statuses.resolved s = p.statuses.resolved t ∧
      ((a.delays names s).map fun edge =>
        (delayLabel edge.label, p.target true edge.target)).Perm
      ((a.delays names t).map fun edge =>
        (delayLabel edge.label, p.target true edge.target)) := by
  rw [← StateKey.of_eq_iff, ← h.mergeKey_eq hs, ← h.mergeKey_eq ht]
  exact mergeIdentical_eq_iff _ _ _ (h.explored.mem_live.2 hs) (h.explored.mem_live.2 ht)

theorem Prepares.same_as_representative (h : a.Prepares names p) (hs : a.Live names s) :
    p.statuses.resolved s = p.statuses.resolved ((p.merge true).representative s) ∧
    ((a.delays names s).map fun edge =>
      (delayLabel edge.label, p.target true edge.target)).Perm
    ((a.delays names ((p.merge true).representative s)).map fun edge =>
      (delayLabel edge.label, p.target true edge.target)) := by
  have hrep := represents_merge p true
  have hlive := h.explored.mem_live.2 hs
  exact (h.merged_iff hs (h.explored.mem_live.1 (hrep.mem s hlive))).1 (hrep.idem s hlive).symm

theorem Prepares.outgoing_eq (h : a.Prepares names p) (identical : Bool)
    (hs : s ∈ (p.merge identical).live) :
    (p.chain a.initial identical).outgoing (rank (p.merge identical).live s) =
      (a.delays names s).map fun edge => ⟨rank (p.merge identical).live s,
        delayLabel edge.label, rank (p.merge identical).live (p.target identical edge.target)⟩ :=
  h.transitions_eq a.initial identical hs

end Automaton

end InteractiveMarkov
