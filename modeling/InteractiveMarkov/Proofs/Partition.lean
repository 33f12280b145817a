import InteractiveMarkov.Proofs.Merging
import Mathlib.Data.Setoid.Basic
import Mathlib.Order.Bounds.Defs
import Mathlib.Order.CompletePartialOrder

/-!
# The least stable partition

Two live states are alike over an equivalence if they have one status and the same transitions into
its classes. Merging gives the least equivalence that relates all states alike over it. This says
nothing of keys, numbers or rounds: an equivalence stands for every numbering of its classes.

The rounds are bounded by the number of live states, since each but the last leaves fewer classes
than it found. What is left after merging has no two states alike over equality, so merging it again
changes nothing.
-/

set_option autoImplicit false

namespace InteractiveMarkov

abbrev LiveState (live : StateSet) := {s : StateId // s ∈ live}

section Alike

variable (live : StateSet) (edges : List KeptEdge) (resolve : StateId → StateId)
  (statuses : StatusTable)

/-- The transitions of a state, with the class of the state each leads to. Transitions to states
    that are not live are left out. -/
def transitionsInto (classes : Setoid (LiveState live)) (s : StateId) :
    List (KeptLabel × Quotient classes) :=
  (edges.filter fun edge => edge.source = s).filterMap fun edge =>
    if h : resolve edge.target ∈ live then
      some (edge.label, Quotient.mk classes ⟨resolve edge.target, h⟩)
    else none

def AlikeOver (classes : Setoid (LiveState live)) (s t : LiveState live) : Prop :=
  statuses.resolved s = statuses.resolved t ∧
    (transitionsInto live edges resolve classes s).Perm
      (transitionsInto live edges resolve classes t)

end Alike

def Merge.classes (merge : Merge) (live : StateSet) : Setoid (LiveState live) :=
  Setoid.ker fun s => merge.representative s

/-- The merged states are the least classes closed under being alike over them, and each class is
    represented by its least state. -/
structure Merge.LeastStable (merge : Merge) (live : StateSet) (edges : List KeptEdge)
    (resolve : StateId → StateId) (statuses : StatusTable) : Prop where
  fixed : ∀ s t : LiveState live, merge.representative s = merge.representative t ↔
    AlikeOver live edges resolve statuses (merge.classes live) s t
  least : ∀ classes : Setoid (LiveState live),
    (∀ s t, AlikeOver live edges resolve statuses classes s t → classes s t) →
      merge.classes live ≤ classes
  smallest : ∀ s ∈ live, IsLeast
    {t | t ∈ live ∧ merge.representative t = merge.representative s} (merge.representative s)
  others : ∀ s ∉ live, merge.representative s = s
  remaining : ∀ r, r ∈ merge.live ↔ ∃ s ∈ live, merge.representative s = r
  size : merge.representatives.size = live.size ∧ merge.live.size ≤ merge.representatives.size

variable {live : StateSet} {edges : List KeptEdge} {resolve : StateId → StateId}
  {statuses : StatusTable} {merge : Merge}

structure Numbers (classes : Setoid (LiveState live)) (numbers : StateMap Nat) : Prop where
  covers : ∀ s, s ∈ numbers ↔ s ∈ live
  same : ∀ s t : LiveState live, numbers[s.1]? = numbers[t.1]? ↔ classes s t

theorem Numbers.exists_number {classes : Setoid (LiveState live)} {numbers : StateMap Nat}
    (h : Numbers classes numbers) : ∃ number : Quotient classes → Nat,
      Function.Injective number ∧
      ∀ s : LiveState live, numbers[s.1]? = some (number (Quotient.mk classes s)) := by
  have hvalue : ∀ s : LiveState live, numbers[s.1]? = some (numbers.getD s.1 0) := by
    intro s
    obtain ⟨n, hn⟩ := StateMap.mem_iff_exists.1 ((h.covers s.1).2 s.2)
    rw [Std.ExtTreeMap.getD_eq_getD_getElem?, hn]
    rfl
  refine ⟨Quotient.lift (fun s => numbers.getD s.1 0) fun s t hst => ?_, ?_, hvalue⟩
  · exact Option.some.inj ((hvalue s).symm.trans (((h.same s t).2 hst).trans (hvalue t)))
  · intro p q
    induction p, q using Quotient.inductionOn₂ with
    | h s t =>
      intro heq
      refine Quotient.sound ((h.same s t).1 ?_)
      rw [hvalue s, hvalue t]
      exact congrArg some heq

/-- Being alike over an equivalence is having one key over a numbering of its classes. -/
theorem Numbers.alikeOver_iff {classes : Setoid (LiveState live)} {numbers : StateMap Nat}
    (h : Numbers classes numbers) (s t : LiveState live) :
    AlikeOver live edges resolve statuses classes s t ↔
      mergeKey live edges resolve statuses numbers s =
        mergeKey live edges resolve statuses numbers t := by
  obtain ⟨number, hinjective, hnumber⟩ := h.exists_number
  have hentries : ∀ s : LiveState live,
      (((liveEdges live edges resolve).getD s.1 []).filterMap fun edge =>
        numbers[edge.2]?.map fun n => (edge.1, n)) =
      (transitionsInto live edges resolve classes s).map (Prod.map id number) := by
    intro s
    rw [getD_liveEdges _ _ s.2, List.filterMap_map, transitionsInto, List.map_filterMap]
    refine List.filterMap_congr fun edge _ => ?_
    by_cases hlive : resolve edge.target ∈ live
    · simp [hlive, hnumber ⟨_, hlive⟩]
    · have hnone : numbers[resolve edge.target]? = none :=
        StateMap.getElem?_eq_none_iff.2 fun hmem => hlive ((h.covers _).1 hmem)
      simp [hlive, hnone]
  unfold mergeKey keyOver AlikeOver
  rw [StateKey.of_eq_iff, hentries, hentries,
    List.map_perm_map_iff (Function.injective_id.prodMap hinjective)]

theorem exists_numbers (classes : Setoid (LiveState live)) :
    ∃ numbers : StateMap Nat, Numbers classes numbers := by
  have hvalue : ∃ value : StateId → Nat, ∀ s : LiveState live,
      value s = (Quotient.mk classes s).out.1 := by
    refine ⟨fun s => if h : s ∈ live then (Quotient.mk classes ⟨s, h⟩).out.1 else 0, fun s => ?_⟩
    exact dif_pos s.2
  obtain ⟨value, hvalue⟩ := hvalue
  have hget := getElem?_ofList_map live value
  refine ⟨Std.ExtTreeMap.ofList (live.toList.map fun s => (s, value s)), fun s => ?_,
    fun s t => ?_⟩
  · rw [Std.ExtTreeMap.mem_iff_isSome_getElem?, hget]
    by_cases hs : s ∈ live <;> simp [hs]
  · rw [hget, hget, if_pos s.2, if_pos t.2, Option.some_inj, hvalue, hvalue, Subtype.val_inj,
      Quotient.out_inj, Quotient.eq]

theorem Merge.Represents.numbers (h : merge.Represents live) :
    Numbers (merge.classes live) merge.representatives where
  covers := h.covers
  same s t := by
    rw [h.getElem?_eq s.2, h.getElem?_eq t.2, Option.some_inj]
    rfl

theorem leastStable_mergeIdentical (live : StateSet) (edges : List KeptEdge)
    (resolve : StateId → StateId) (statuses : StatusTable) :
    (mergeIdentical live edges resolve statuses).LeastStable live edges resolve statuses := by
  have hrep := represents_mergeIdentical live edges resolve statuses
  have hnumbers := hrep.numbers
  refine ⟨fun s t => ?_, fun classes hclosed s t hst => ?_, fun s hs => ⟨⟨hrep.mem s hs,
    hrep.idem s hs⟩, fun t ht => ?_⟩, fun s hs => ?_, hrep.live, ?_⟩
  · rw [hnumbers.alikeOver_iff]
    exact mergeIdentical_eq_iff edges resolve statuses s.2 t.2
  · obtain ⟨numbers, hcoarse⟩ := exists_numbers classes
    refine (hcoarse.same s t).1 (mergeIdentical_least edges resolve statuses hcoarse.covers ?_
      s.2 t.2 hst)
    intro u hu v hv hkey
    exact (hcoarse.same ⟨u, hu⟩ ⟨v, hv⟩).2 (hclosed _ _ ((hcoarse.alikeOver_iff _ _).2 hkey))
  · rw [← ht.2]
    exact hrep.le t ht.1
  · exact Std.ExtTreeMap.getD_eq_fallback fun hmem => hs ((hrep.covers s).1 hmem)
  · have hsize := size_eq_of_mem_iff hrep.covers
    exact ⟨hsize, hsize ▸ hrep.size_le⟩

/-- The rounds of merging, at most as many as given, up to the first that leaves as many classes as
    it found. -/
def roundsWithin (key : StateMap Nat → StateId → StateKey) (states : List StateId) :
    Nat → StateMap Nat → Nat → Option (StateStore × StateMap Nat)
  | 0, _, _ => none
  | rounds + 1, classes, count =>
    let round := internAll (key classes) states
    if round.1.size = count then some round
    else roundsWithin key states rounds round.2 round.1.size

section Rounds

variable {key : StateMap Nat → StateId → StateKey} {states : List StateId}
  {classes : StateMap Nat} {count : Nat}

theorem classCount_pos : 0 < classCount states classes ↔ states ≠ [] := by
  rw [classCount, Finset.card_pos, Finset.image_nonempty, List.toFinset_nonempty_iff]

theorem Refining.size_le (h : Refining key states classes count) :
    (internAll (key classes) states).1.size ≤ count := by
  obtain ⟨g, hg⟩ := h.factor
  rw [(interned_internAll (key classes) states).size_eq, image_of_factors hg, h.count]
  exact Finset.card_image_le

theorem Refining.size_pos (h : Refining key states classes count) (hcount : 0 < count) :
    0 < (internAll (key classes) states).1.size := by
  rw [(interned_internAll (key classes) states).size_eq]
  rw [h.count, classCount_pos] at hcount
  exact classCount_pos.2 hcount

/-- As each round but the last leaves fewer classes, and none leaves no class, there are no more
    rounds than classes at the start. -/
theorem roundsWithin_eq {rounds : Nat} (hkey : RespectsFactors key)
    (h : Refining key states classes count) (hcount : count ≤ rounds) (hrounds : 0 < rounds) :
    roundsWithin key states rounds classes count = some (mergeRounds key states classes count) := by
  induction rounds generalizing classes count with
  | zero => exact absurd hrounds (Nat.lt_irrefl 0)
  | succ rounds ih =>
    have hle := h.size_le
    rw [roundsWithin, mergeRounds]
    by_cases hsize : (internAll (key classes) states).1.size = count
    · rw [if_pos hsize, if_neg (by omega)]
    · have hlt : (internAll (key classes) states).1.size < count := by omega
      have hpos := h.size_pos (by omega)
      rw [if_neg hsize, if_pos hlt]
      exact ih (h.round hkey) (by omega) (by omega)

end Rounds

theorem exists_roundsWithin (live : StateSet) (edges : List KeptEdge)
    (resolve : StateId → StateId) (statuses : StatusTable) :
    ∃ round, roundsWithin (mergeKey live edges resolve statuses) live.toList (max 1 live.size)
        (singletons live) live.size = some round ∧
      (mergeIdentical live edges resolve statuses).representatives =
        round.2.filterMap fun _ number => round.1.origin? number := by
  refine ⟨_, roundsWithin_eq (respectsFactors_mergeKey live edges resolve statuses)
    (refining_start live edges resolve statuses) (Nat.le_max_right _ _) ?_, rfl⟩
  exact Nat.lt_of_lt_of_le Nat.one_pos (Nat.le_max_left _ _)

theorem Merge.LeastStable.alikeOver (h : merge.LeastStable live edges resolve statuses)
    (hrep : merge.Represents live) {s t : LiveState merge.live}
    (halike : AlikeOver merge.live edges (fun s => merge.representative (resolve s)) statuses
      ⊥ s t) :
    AlikeOver live edges resolve statuses (merge.classes live) ⟨s, (hrep.fixed s.2).1⟩
      ⟨t, (hrep.fixed t.2).1⟩ := by
  have hmem : ∀ r, merge.representative r ∈ merge.live ↔ r ∈ live := by
    refine fun r => ⟨fun hr => ?_, hrep.mem_live⟩
    by_contra hnot
    rw [h.others r hnot] at hr
    exact hnot (hrep.fixed hr).1
  let enlarge : Quotient (⊥ : Setoid (LiveState merge.live)) → Quotient (merge.classes live) :=
    Quotient.lift (fun r => Quotient.mk _ ⟨r.1, (hrep.fixed r.2).1⟩) fun r u hru => by
      obtain rfl : r = u := hru
      rfl
  have hentries : ∀ s : StateId, transitionsInto live edges resolve (merge.classes live) s =
      (transitionsInto merge.live edges (fun s => merge.representative (resolve s)) ⊥ s).map
        (Prod.map id enlarge) := by
    intro s
    rw [transitionsInto, transitionsInto, List.map_filterMap]
    refine List.filterMap_congr fun edge _ => ?_
    by_cases hlive : resolve edge.target ∈ live
    · rw [dif_pos hlive, dif_pos ((hmem _).2 hlive)]
      refine congrArg some (Prod.ext rfl (Quotient.sound ?_))
      exact (hrep.idem _ hlive).symm
    · rw [dif_neg hlive, dif_neg fun hr => hlive ((hmem _).1 hr)]
      rfl
  refine ⟨halike.1, ?_⟩
  rw [hentries, hentries]
  exact halike.2.map _

/-- Merging the representatives again, with targets sent to representatives. -/
def Merge.again (merge : Merge) (edges : List KeptEdge) (resolve : StateId → StateId)
    (statuses : StatusTable) : Merge :=
  mergeIdentical merge.live edges (fun s => merge.representative (resolve s)) statuses

theorem Merge.LeastStable.again_eq (h : merge.LeastStable live edges resolve statuses)
    (hrep : merge.Represents live) :
    (merge.again edges resolve statuses).live = merge.live ∧
      (merge.again edges resolve statuses).mergedCount = 0 ∧
      ∀ s, (merge.again edges resolve statuses).representative s = s := by
  have hstable := leastStable_mergeIdentical merge.live edges
    (fun s => merge.representative (resolve s)) statuses
  have hkeeps := represents_mergeIdentical merge.live edges
    (fun s => merge.representative (resolve s)) statuses
  rw [← Merge.again] at hstable hkeeps
  have hapart : (merge.again edges resolve statuses).classes merge.live ≤ ⊥ := by
    refine hstable.least ⊥ fun s t halike => Subtype.ext ?_
    have hsame := (h.fixed _ _).2 (h.alikeOver hrep halike)
    rwa [(hrep.fixed s.2).2, (hrep.fixed t.2).2] at hsame
  have hself : ∀ s, (merge.again edges resolve statuses).representative s = s := by
    intro s
    by_cases hs : s ∈ merge.live
    · have heq := @hapart ⟨_, hkeeps.mem s hs⟩ ⟨s, hs⟩ (hkeeps.idem s hs)
      exact congrArg Subtype.val heq
    · exact hstable.others s hs
  have hlive : (merge.again edges resolve statuses).live = merge.live := by
    refine Std.ExtTreeSet.ext_mem fun r => ?_
    rw [hstable.remaining]
    simp only [hself, exists_eq_right]
  refine ⟨hlive, ?_, hself⟩
  rw [hkeeps.mergedCount_eq, hlive, Nat.sub_self]

/-- Merging gives the least stable partition, by least representatives and within as many rounds as
    there are live states; and what it leaves, merged again, stays as it is. -/
theorem mergeIdentical_partition (live : StateSet) (edges : List KeptEdge)
    (resolve : StateId → StateId) (statuses : StatusTable) :
    (mergeIdentical live edges resolve statuses).LeastStable live edges resolve statuses ∧
    (∃ round, roundsWithin (mergeKey live edges resolve statuses) live.toList (max 1 live.size)
        (singletons live) live.size = some round ∧
      (mergeIdentical live edges resolve statuses).representatives =
        round.2.filterMap fun _ number => round.1.origin? number) ∧
    ((mergeIdentical live edges resolve statuses).again edges resolve statuses).live =
      (mergeIdentical live edges resolve statuses).live ∧
    ((mergeIdentical live edges resolve statuses).again edges resolve statuses).mergedCount = 0 ∧
    ∀ s, ((mergeIdentical live edges resolve statuses).again edges resolve statuses).representative
      s = s := by
  have hstable := leastStable_mergeIdentical live edges resolve statuses
  exact ⟨hstable, exists_roundsWithin live edges resolve statuses,
    hstable.again_eq (represents_mergeIdentical live edges resolve statuses)⟩

end InteractiveMarkov
