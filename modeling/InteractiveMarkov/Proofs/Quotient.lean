import InteractiveMarkov.Proofs.Classes
import Mathlib

set_option autoImplicit false

namespace InteractiveMarkov

namespace Chain

/-- The map sends the states of the fine chain onto those of the coarse one, whose numbers follow
    the smallest states sent to them. -/
structure Quotient (f : Nat → Nat) (fine coarse : Chain) : Prop where
  maps : Set.MapsTo f (Set.Icc 1 fine.stateCount) (Set.Icc 1 coarse.stateCount)
  onto : Set.SurjOn f (Set.Icc 1 fine.stateCount) (Set.Icc 1 coarse.stateCount)
  initial : f fine.initial = coarse.initial
  status : ∀ n ∈ Set.Icc 1 fine.stateCount, coarse.status? (f n) = fine.status? n
  transitions : ∀ n ∈ Set.Icc 1 fine.stateCount,
    ((fine.outgoing n).map fun transition => (transition.label, f transition.target)).Perm
      ((coarse.outgoing (f n)).map fun transition => (transition.label, transition.target))
  order : ∀ i ∈ Set.Icc 1 coarse.stateCount, ∀ j ∈ Set.Icc 1 coarse.stateCount,
    i < j ↔ sInf {n | n ∈ Set.Icc 1 fine.stateCount ∧ f n = i} <
      sInf {n | n ∈ Set.Icc 1 fine.stateCount ∧ f n = j}

end Chain

namespace Automaton

variable {a : Automaton} {names : Vocabulary} {p : Prepared} {s t r : StateId}

theorem sInf_class {live : StateSet} {merge : Merge} (h : merge.Represents live) {f : Nat → Nat}
    (hf : ∀ s ∈ live, f (rank live s) = rank merge.live (merge.representative s))
    (hr : r ∈ merge.live) :
    sInf {n | n ∈ Set.Icc 1 live.size ∧ f n = rank merge.live r} = rank live r := by
  obtain ⟨hlive, hself⟩ := h.fixed hr
  refine IsLeast.csInf_eq ⟨⟨rank_mem hlive, ?_⟩, ?_⟩
  · rw [hf r hlive, hself]
  · rintro n ⟨hn, hclass⟩
    obtain ⟨s, hs, rfl⟩ := exists_rank hn.1 hn.2
    rw [hf s hs, rank_inj (h.mem_live hs) hr] at hclass
    -- a smaller state of the class would be below its own representative
    by_contra hlt
    have hless := (rank_lt_iff hs hlive).1 (Nat.lt_of_not_le hlt)
    exact absurd (hclass ▸ h.le s hs) (Nat.not_le_of_lt hless)

theorem Prepares.class_status (h : a.Prepares names p) (hs : s ∈ p.found.live) :
    (p.chain a.initial true).status?
        (rank (p.merge true).live ((p.merge true).representative s)) =
      (p.chain a.initial false).status? (rank p.found.live s) := by
  have hcoarse : (p.chain a.initial true).status?
      (rank (p.merge true).live ((p.merge true).representative s)) =
      some (p.statuses.resolved ((p.merge true).representative s)) :=
    status?_rank rfl ((represents_merge p true).mem_live hs)
  have hfine : (p.chain a.initial false).status? (rank p.found.live s) =
      some (p.statuses.resolved s) := status?_rank rfl hs
  rw [hcoarse, hfine, (h.same_as_representative (h.explored.mem_live.1 hs)).1]

theorem Prepares.class_outgoing (h : a.Prepares names p) {f : Nat → Nat}
    (hf : ∀ s ∈ p.found.live, f (rank p.found.live s) =
      rank (p.merge true).live ((p.merge true).representative s)) (hs : s ∈ p.found.live) :
    (((p.chain a.initial false).outgoing (rank p.found.live s)).map fun transition =>
      (transition.label, f transition.target)).Perm
    (((p.chain a.initial true).outgoing
      (rank (p.merge true).live ((p.merge true).representative s))).map fun transition =>
        (transition.label, transition.target)) := by
  have hlive := h.explored.mem_live.1 hs
  have hfine := h.outgoing_eq false hs
  rw [merge_false_live, target_false] at hfine
  rw [hfine, h.outgoing_eq true ((represents_merge p true).mem_live hs), List.map_map,
    List.map_map]
  -- merged states agree on representatives, hence on the numbers of representatives
  have hperm := (h.same_as_representative hlive).2.map fun entry =>
    (entry.1, rank (p.merge true).live entry.2)
  rw [List.map_map, List.map_map] at hperm
  refine List.Perm.trans (List.Perm.of_eq ?_) hperm
  refine List.map_congr_left fun edge hedge => ?_
  exact congrArg (Prod.mk _) (hf _ (h.live_resolve (hlive.reached_target hedge)))

theorem Prepares.quotient (h : a.Prepares names p) :
    ∃ f, Chain.Quotient f (p.chain a.initial false) (p.chain a.initial true) := by
  have hrep := represents_merge p true
  obtain ⟨f, hf⟩ := exists_renumbering p.found.live fun s =>
    rank (p.merge true).live ((p.merge true).representative s)
  have hplace : ∀ n ∈ Set.Icc 1 (p.chain a.initial false).stateCount,
      ∃ s ∈ p.found.live, rank p.found.live s = n := fun n hn => exists_rank hn.1 hn.2
  have hclass : ∀ n ∈ Set.Icc 1 (p.chain a.initial true).stateCount,
      ∃ r ∈ (p.merge true).live, rank (p.merge true).live r = n := fun n hn => exists_rank hn.1 hn.2
  refine ⟨f, fun n hn => ?_, fun n hn => ?_, ?_, fun n hn => ?_, fun n hn => ?_,
    fun i hi j hj => ?_⟩
  · obtain ⟨s, hs, rfl⟩ := hplace n hn
    rw [hf s hs]
    exact rank_mem (hrep.mem_live hs)
  · obtain ⟨r, hr, rfl⟩ := hclass n hn
    obtain ⟨hlive, hself⟩ := hrep.fixed hr
    exact ⟨rank p.found.live r, rank_mem hlive, by rw [hf r hlive, hself]⟩
  · have hinitial : (p.chain a.initial false).initial =
        rank p.found.live (p.resolve a.initial) := by
      rw [← target_false p]
      rfl
    rw [hinitial, hf _ (h.live_resolve .initial)]
    rfl
  · obtain ⟨s, hs, rfl⟩ := hplace n hn
    rw [hf s hs]
    exact h.class_status hs
  · obtain ⟨s, hs, rfl⟩ := hplace n hn
    rw [hf s hs]
    exact h.class_outgoing hf hs
  · obtain ⟨r, hr, rfl⟩ := hclass i hi
    obtain ⟨q, hq, rfl⟩ := hclass j hj
    have hleast : ∀ r ∈ (p.merge true).live, sInf {n |
        n ∈ Set.Icc 1 (p.chain a.initial false).stateCount ∧ f n = rank (p.merge true).live r} =
        rank p.found.live r := fun r hr => sInf_class hrep hf hr
    rw [hleast r hr, hleast q hq, rank_lt_iff hr hq,
      rank_lt_iff (hrep.fixed hr).1 (hrep.fixed hq).1]

/-- Reducing with merging fails exactly as without, and gives a quotient of the unmerged chain. -/
theorem reduce_merged (a : Automaton) (names : Vocabulary) :
    ((∃ m, a.reduce ⟨names, true⟩ = .ok m) ↔ ∃ u, a.reduce ⟨names, false⟩ = .ok u) ∧
    (∀ e, a.reduce ⟨names, true⟩ = .error e ↔ a.reduce ⟨names, false⟩ = .error e) ∧
    ∀ m u, a.reduce ⟨names, true⟩ = .ok m → a.reduce ⟨names, false⟩ = .ok u →
      (∃ f, Chain.Quotient f u.chain m.chain) ∧ m.chain.stateCount ≤ u.chain.stateCount ∧
        m.statistics.merged = u.chain.stateCount - m.chain.stateCount := by
  have hmerged := reduce_eq a ⟨names, true⟩
  have hunmerged := reduce_eq a ⟨names, false⟩
  cases hprepare : a.prepare names with
  | error e =>
    simp only [hprepare] at hmerged hunmerged
    rw [hmerged, hunmerged]
    exact ⟨by simp, fun _ => Iff.rfl, fun m u hm => by cases hm⟩
  | ok p =>
    simp only [hprepare] at hmerged hunmerged
    have hp := (prepare_ok hprepare).1
    have hrep := represents_merge p true
    rw [hmerged, hunmerged]
    refine ⟨by simp, by simp, fun m u hm hu => ?_⟩
    cases hm
    cases hu
    exact ⟨hp.quotient, hrep.size_le, hrep.mergedCount_eq⟩

def twins : Automaton :=
  .ofEdges 0 [⟨0, "rate 1", 1⟩, ⟨0, "rate 1", 2⟩, ⟨1, "rate 2", 0⟩, ⟨2, "rate 2", 0⟩]

theorem twins_quotient : ∃ m u, twins.reduce ⟨{}, true⟩ = .ok m ∧
    twins.reduce ⟨{}, false⟩ = .ok u ∧ (∃ f, Chain.Quotient f u.chain m.chain) ∧
    m.chain.stateCount = 2 ∧ u.chain.stateCount = 3 ∧ m.statistics.merged = 1 := by
  have hmerged : ∃ m, twins.reduce ⟨{}, true⟩ = .ok m ∧ m.chain.stateCount = 2 :=
    ⟨_, by cbv, rfl⟩
  have hunmerged : ∃ u, twins.reduce ⟨{}, false⟩ = .ok u ∧ u.chain.stateCount = 3 :=
    ⟨_, by cbv, rfl⟩
  obtain ⟨m, hm, hfew⟩ := hmerged
  obtain ⟨u, hu, hmany⟩ := hunmerged
  obtain ⟨hquotient, -, hcount⟩ := (reduce_merged twins {}).2.2 m u hm hu
  refine ⟨m, u, hm, hu, hquotient, hfew, hmany, ?_⟩
  rw [hcount, hfew, hmany]

end Automaton

end InteractiveMarkov
