import InteractiveMarkov.Proofs.Interning
import InteractiveMarkov.Proofs.Numbering

set_option autoImplicit false

namespace InteractiveMarkov

variable {states : List StateId} {fine coarse classes last : StateMap Nat} {g : Nat → Nat}
  {s t : StateId}

/-- The coarser class of a state follows from the finer one. -/
def Factors (g : Nat → Nat) (fine coarse : StateMap Nat) : Prop :=
  ∀ s : StateId, coarse[s]? = fine[s]?.map g

theorem keyOver_factors (h : Factors g fine coarse) (edges : List (KeptLabel × StateId)) :
    (edges.filterMap fun edge => coarse[edge.2]?.map fun n => (edge.1, n)) =
      (edges.filterMap fun edge => fine[edge.2]?.map fun n => (edge.1, n)).map
        fun entry => (entry.1, g entry.2) := by
  rw [List.map_filterMap]
  refine List.filterMap_congr fun edge _ => ?_
  rw [h edge.2, Option.map_map, Option.map_map]
  rfl

theorem keyOver_eq_of_factors (h : Factors g fine coarse) {x y : Status}
    {ts us : List (KeptLabel × StateId)} (heq : keyOver fine x ts = keyOver fine y us) :
    keyOver coarse x ts = keyOver coarse y us := by
  obtain ⟨hstatus, hperm⟩ := StateKey.of_eq_iff.1 heq
  refine StateKey.of_eq_iff.2 ⟨hstatus, ?_⟩
  rw [keyOver_factors h, keyOver_factors h]
  exact hperm.map _

/-- States of the list that share a finer class share a coarser one. -/
def Coarsens (states : List StateId) (fine coarse : StateMap Nat) : Prop :=
  ∀ s ∈ states, ∀ t ∈ states, fine[s]? = fine[t]? → coarse[s]? = coarse[t]?

theorem Coarsens.exists_factors (h : Coarsens states fine coarse)
    (hfine : ∀ s, s ∈ fine ↔ s ∈ states) (hcoarse : ∀ s, s ∈ coarse ↔ s ∈ states) : ∃ g, Factors g fine coarse := by
  -- any state of a finer class tells the coarser one
  have hchoice : ∀ n : Nat, ∃ m : Nat, ∀ s : StateId, fine[s]? = some n → coarse[s]? = some m := by
    intro n
    by_cases hn : ∃ t : StateId, fine[t]? = some n
    · obtain ⟨t, ht⟩ := hn
      have hmem : t ∈ states := (hfine t).1 (StateMap.mem_of_getElem? ht)
      obtain ⟨m, hm⟩ := StateMap.mem_iff_exists.1 ((hcoarse t).2 hmem)
      refine ⟨m, fun s hs => ?_⟩
      have hin : s ∈ states := (hfine s).1 (StateMap.mem_of_getElem? hs)
      rw [h s hin t hmem (hs.trans ht.symm), hm]
    · exact ⟨0, fun s hs => absurd ⟨s, hs⟩ hn⟩
  choose g hg using hchoice
  refine ⟨g, fun s => ?_⟩
  cases hs : fine[s]? with
  | some n => exact hg n s hs
  | none =>
    have hnot : s ∉ coarse := by
      rw [hcoarse, ← hfine, Std.ExtTreeMap.mem_iff_isSome_getElem?, hs]
      simp
    exact Std.ExtTreeMap.getElem?_eq_none hnot

def classCount (states : List StateId) (classes : StateMap Nat) : Nat :=
  (states.toFinset.image fun s => classes[s]?).card

theorem image_of_factors (h : Factors g fine coarse) :
    (states.toFinset.image fun s => coarse[s]?) =
      (states.toFinset.image fun s => fine[s]?).image (Option.map g) := by
  rw [Finset.image_image]
  exact Finset.image_congr fun s _ => h s

theorem coarsens_of_classCount_le (h : Factors g fine coarse)
    (hcount : classCount states fine ≤ classCount states coarse) :
    Coarsens states coarse fine := by
  have hle : ((states.toFinset.image fun s => fine[s]?).image (Option.map g)).card ≤
      (states.toFinset.image fun s => fine[s]?).card := Finset.card_image_le
  have hcard : ((states.toFinset.image fun s => fine[s]?).image (Option.map g)).card =
      (states.toFinset.image fun s => fine[s]?).card := by
    unfold classCount at hcount
    rw [image_of_factors h] at hcount
    omega
  -- a map onto as many classes joins no two of them
  have hinj := Finset.card_image_iff.1 hcard
  intro s hs t ht heq
  have himage : ∀ u ∈ states, fine[u]? ∈
      ((states.toFinset.image fun s => fine[s]?) : Set (Option Nat)) := by
    intro u hu
    exact Finset.mem_coe.2 (Finset.mem_image_of_mem _ (List.mem_toFinset.2 hu))
  refine hinj (himage s hs) (himage t ht) ?_
  rw [← h s, ← h t, heq]

section Rounds

variable {key : StateMap Nat → StateId → StateKey} {count : Nat}

/-- The last round starts from classes that hold what every round preserves, and has at least as
    many classes as they are counted. -/
theorem mergeRounds_eq {P : StateMap Nat → Nat → Prop}
    (hstep : ∀ classes count, P classes count →
      P (internAll (key classes) states).2 (internAll (key classes) states).1.size)
    (hstart : P classes count) :
    ∃ last n, P last n ∧ mergeRounds key states classes count = internAll (key last) states ∧
      n ≤ (internAll (key last) states).1.size := by
  fun_induction mergeRounds key states classes count with
  | case1 classes count round hlt ih => exact ih (hstep classes count hstart)
  | case2 classes count round hge => exact ⟨classes, count, hstart, rfl, Nat.le_of_not_lt hge⟩

def RespectsFactors (key : StateMap Nat → StateId → StateKey) : Prop :=
  ∀ g fine coarse, Factors g fine coarse → ∀ s t, key fine s = key fine t →
    key coarse s = key coarse t

structure Refining (key : StateMap Nat → StateId → StateKey) (states : List StateId)
    (classes : StateMap Nat) (count : Nat) : Prop where
  covers : ∀ s, s ∈ classes ↔ s ∈ states
  count : count = classCount states classes
  keys : ∀ s ∈ states, ∀ t ∈ states, classes[s]? = classes[t]? → key classes s = key classes t

theorem Interned.mem_numbers {key : StateId → StateKey} {store : StateStore}
    {numbers : StateMap Nat} (h : Interned key states store numbers) (s : StateId) :
    s ∈ numbers ↔ s ∈ states := by
  rw [Std.ExtTreeMap.mem_iff_isSome_getElem?, h.isSome_iff]

theorem Refining.coarsens (h : Refining key states classes count) :
    Coarsens states classes (internAll (key classes) states).2 := by
  intro s hs t ht heq
  exact ((interned_internAll (key classes) states).number_eq_iff hs ht).2 (h.keys s hs t ht heq)

theorem Refining.factor (h : Refining key states classes count) :
    ∃ g, Factors g classes (internAll (key classes) states).2 :=
  h.coarsens.exists_factors h.covers (interned_internAll (key classes) states).mem_numbers

theorem Refining.round (hkey : RespectsFactors key) (h : Refining key states classes count) :
    Refining key states (internAll (key classes) states).2
      (internAll (key classes) states).1.size := by
  have hnew := interned_internAll (key classes) states
  refine ⟨hnew.mem_numbers, hnew.size_eq, fun s hs t ht heq => ?_⟩
  obtain ⟨g, hg⟩ := h.factor
  exact hkey g classes _ hg s t ((hnew.number_eq_iff hs ht).1 heq)

theorem mergeRounds_fixed (hkey : RespectsFactors key) (hstart : Refining key states classes count) :
    ∃ last n, Refining key states last n ∧
      mergeRounds key states classes count = internAll (key last) states ∧
      ∀ s ∈ states, ∀ t ∈ states, last[s]? = last[t]? ↔ key last s = key last t := by
  obtain ⟨last, n, hlast, hrun, hle⟩ :=
    mergeRounds_eq (fun classes count h => h.round hkey) hstart
  refine ⟨last, n, hlast, hrun, fun s hs t ht => ⟨hlast.keys s hs t ht, fun heq => ?_⟩⟩
  have hnew := interned_internAll (key last) states
  obtain ⟨g, hg⟩ := hlast.factor
  rw [hlast.count, hnew.size_eq] at hle
  exact coarsens_of_classCount_le hg hle s hs t ht ((hnew.number_eq_iff hs ht).2 heq)

end Rounds

/-- Every remaining state stands for itself and for the larger states merged into it. -/
structure Merge.Represents (merge : Merge) (live : StateSet) : Prop where
  covers : ∀ s, s ∈ merge.representatives ↔ s ∈ live
  mem : ∀ s ∈ live, merge.representative s ∈ live
  le : ∀ s ∈ live, merge.representative s ≤ s
  idem : ∀ s ∈ live, merge.representative (merge.representative s) = merge.representative s
  live : ∀ r, r ∈ merge.live ↔ ∃ s ∈ live, merge.representative s = r

section Representatives

variable {live : StateSet} {merge : Merge}

theorem Merge.Represents.mem_live (h : merge.Represents live) (hs : s ∈ live) :
    merge.representative s ∈ merge.live :=
  (h.live _).2 ⟨s, hs, rfl⟩

theorem Merge.Represents.fixed (h : merge.Represents live) (hs : s ∈ merge.live) :
    s ∈ live ∧ merge.representative s = s := by
  obtain ⟨r, hr, rfl⟩ := (h.live s).1 hs
  exact ⟨h.mem r hr, h.idem r hr⟩

theorem Merge.Represents.getElem?_eq (h : merge.Represents live) (hs : s ∈ live) :
    merge.representatives[s]? = some (merge.representative s) := by
  obtain ⟨r, hr⟩ := StateMap.mem_iff_exists.1 ((h.covers s).2 hs)
  rw [Merge.representative, Std.ExtTreeMap.getD_eq_getD_getElem?, hr]
  rfl

theorem Merge.Represents.keyOver_eq (h : merge.Represents live) (status : Status)
    {edges : List (KeptLabel × StateId)} (hedges : ∀ edge ∈ edges, edge.2 ∈ live) :
    keyOver merge.representatives status edges =
      StateKey.of status (edges.map fun edge => (edge.1, merge.representative edge.2)) := by
  rw [keyOver, ← List.filterMap_eq_map]
  refine congrArg _ (List.filterMap_congr fun edge hedge => ?_)
  rw [h.getElem?_eq (hedges edge hedge)]
  rfl

theorem Merge.Represents.size_le (h : merge.Represents live) : merge.live.size ≤ live.size :=
  size_le_size fun _ hs => (h.fixed hs).1

theorem size_eq_of_mem_iff {α : Type} {table : StateMap α} (h : ∀ s, s ∈ table ↔ s ∈ live) :
    table.size = live.size := by
  have hperm : table.keys.Perm live.toList := by
    refine (List.perm_ext_iff_of_nodup Std.ExtTreeMap.nodup_keys (nodup_toList live)).2 fun s => ?_
    rw [Std.ExtTreeMap.mem_keys, h, Std.ExtTreeSet.mem_toList]
  rw [← Std.ExtTreeMap.length_keys, ← Std.ExtTreeSet.length_toList, hperm.length_eq]

theorem Merge.Represents.mergedCount_eq (h : merge.Represents live) :
    merge.mergedCount = live.size - merge.live.size := by
  rw [Merge.mergedCount, size_eq_of_mem_iff h.covers]

theorem find?_le {l : List StateId} {p : StateId → Bool} {r : StateId}
    (hsorted : l.Pairwise (· < ·)) (hfind : l.find? p = some r) (hs : s ∈ l) (hp : p s = true) :
    r ≤ s := by
  obtain ⟨-, before, behind, rfl, hbefore⟩ := List.find?_eq_some_iff_append.1 hfind
  rcases List.mem_append.1 hs with hs | hs
  · have hnot := hbefore s hs
    rw [hp] at hnot
    cases hnot
  · obtain ⟨-, hrest, -⟩ := List.pairwise_append.1 hsorted
    rcases List.mem_cons.1 hs with rfl | hs
    · exact Nat.le_refl _
    · exact Nat.le_of_lt ((List.pairwise_cons.1 hrest).1 s hs)

theorem getElem?_ofList_map {α : Type} (live : StateSet) (g : StateId → α) (s : StateId) :
    (Std.ExtTreeMap.ofList (live.toList.map fun s => (s, g s)) : StateMap α)[s]? =
      if s ∈ live then some (g s) else none := by
  have hkeys : (live.toList.map fun s => (s, g s)).map Prod.fst = live.toList := by
    rw [List.map_map]
    exact List.map_id _
  split
  · rename_i hs
    refine Std.ExtTreeMap.getElem?_ofList_of_mem (k := s) Std.ReflCmp.compare_self ?_ ?_
    · have hdistinct := live.distinct_toList
      rw [← hkeys, List.pairwise_map] at hdistinct
      exact hdistinct
    · exact List.mem_map.2 ⟨s, Std.ExtTreeSet.mem_toList.2 hs, rfl⟩
  · rename_i hs
    refine Std.ExtTreeMap.getElem?_ofList_of_contains_eq_false ?_
    rw [hkeys]
    simpa using hs

theorem represents_trivial (live : StateSet) : (Merge.trivial live).Represents live ∧
    ∀ s, (Merge.trivial live).representative s = s := by
  have hget : ∀ s : StateId, (Merge.trivial live).representatives[s]? =
      if s ∈ live then some s else none := getElem?_ofList_map live fun s => s
  have hself : ∀ s, (Merge.trivial live).representative s = s := by
    intro s
    rw [Merge.representative, Std.ExtTreeMap.getD_eq_getD_getElem?, hget]
    by_cases hs : s ∈ live
    · rw [if_pos hs]
      rfl
    · rw [if_neg hs]
      rfl
  refine ⟨⟨fun s => ?_, fun s hs => ?_, fun s _ => ?_, fun s _ => ?_, fun r => ?_⟩, hself⟩
  · rw [Std.ExtTreeMap.mem_iff_isSome_getElem?, hget]
    by_cases hs : s ∈ live <;> simp [hs]
  · rwa [hself]
  · rw [hself]
  · rw [hself, hself]
  · simp only [hself, exists_eq_right]
    rfl

/-- The representative of a live state is the smallest live state with its key. -/
structure Merge.Groups (merge : Merge) (live : StateSet) (key : StateId → StateKey) : Prop where
  representatives : ∀ s : StateId, merge.representatives[s]? =
    if s ∈ live then live.toList.find? fun t => key t = key s else none
  live : ∀ r, r ∈ merge.live ↔ ∃ s : StateId, merge.representatives[s]? = some r

variable {key : StateId → StateKey}

theorem Merge.Groups.find?_eq (h : merge.Groups live key) (hs : s ∈ live) :
    (live.toList.find? fun t => key t = key s) = some (merge.representative s) := by
  have hsome : (live.toList.find? fun t => key t = key s).isSome :=
    List.find?_isSome.2 ⟨s, Std.ExtTreeSet.mem_toList.2 hs, by simp⟩
  obtain ⟨r, hr⟩ := Option.isSome_iff_exists.1 hsome
  rw [hr, Merge.representative, Std.ExtTreeMap.getD_eq_getD_getElem?, h.representatives,
    if_pos hs, hr]
  rfl

theorem Merge.Groups.getElem?_of_mem (h : merge.Groups live key) (hs : s ∈ live) :
    merge.representatives[s]? = some (merge.representative s) := by
  rw [h.representatives, if_pos hs, h.find?_eq hs]

theorem Merge.Groups.mem_iff (h : merge.Groups live key) (s : StateId) :
    s ∈ merge.representatives ↔ s ∈ live := by
  rw [Std.ExtTreeMap.mem_iff_isSome_getElem?]
  by_cases hs : s ∈ live
  · simp [h.getElem?_of_mem hs, hs]
  · simp [h.representatives, hs]

theorem Merge.Groups.key_eq (h : merge.Groups live key) (hs : s ∈ live) :
    key (merge.representative s) = key s := by
  simpa using List.find?_some (h.find?_eq hs)

theorem Merge.Groups.mem (h : merge.Groups live key) (hs : s ∈ live) :
    merge.representative s ∈ live :=
  Std.ExtTreeSet.mem_toList.1 (List.mem_of_find?_eq_some (h.find?_eq hs))

theorem Merge.Groups.eq_iff (h : merge.Groups live key) (hs : s ∈ live) (ht : t ∈ live) :
    merge.representative s = merge.representative t ↔ key s = key t := by
  refine ⟨fun heq => ?_, fun heq => ?_⟩
  · rw [← h.key_eq hs, heq, h.key_eq ht]
  · have hfind := h.find?_eq hs
    rw [heq, h.find?_eq ht] at hfind
    exact (Option.some.inj hfind).symm

theorem Merge.Groups.represents (h : merge.Groups live key) : merge.Represents live := by
  refine ⟨h.mem_iff, fun s hs => h.mem hs, fun s hs => ?_, fun s hs => ?_, fun r => ?_⟩
  · exact find?_le (pairwise_toList live) (h.find?_eq hs) (Std.ExtTreeSet.mem_toList.2 hs)
      (by simp)
  · exact (h.eq_iff (h.mem hs) hs).2 (h.key_eq hs)
  · rw [h.live]
    constructor
    · rintro ⟨s, hr⟩
      have hs : s ∈ live := (h.mem_iff s).1 (StateMap.mem_of_getElem? hr)
      exact ⟨s, hs, Option.some.inj ((h.getElem?_of_mem hs).symm.trans hr)⟩
    · rintro ⟨s, hs, rfl⟩
      exact ⟨s, h.getElem?_of_mem hs⟩

end Representatives

section Identical

def mergeKey (live : StateSet) (edges : List KeptEdge) (resolve : StateId → StateId)
    (statuses : StatusTable) (classes : StateMap Nat) (s : StateId) : StateKey :=
  keyOver classes (statuses.resolved s) ((liveEdges live edges resolve).getD s [])

variable (live : StateSet) (edges : List KeptEdge) (resolve : StateId → StateId)
  (statuses : StatusTable)

theorem respectsFactors_mergeKey : RespectsFactors (mergeKey live edges resolve statuses) := by
  intro g fine coarse h s t heq
  exact keyOver_eq_of_factors h heq

def singletons (live : StateSet) : StateMap Nat :=
  Std.ExtTreeMap.ofList (live.toList.zip (List.range live.size))

variable {live} in
theorem getElem?_singletons (hs : s ∈ live) :
    (singletons live)[s]? = some (live.toList.countP (· < s)) := by
  have hget := getElem?_ofList_zip live 0 s
  rw [← List.range_eq_range', if_pos hs, Nat.zero_add] at hget
  exact hget

variable {live} in
theorem singletons_inj (hs : s ∈ live) (ht : t ∈ live)
    (h : (singletons live)[s]? = (singletons live)[t]?) : s = t := by
  rw [getElem?_singletons hs, getElem?_singletons ht] at h
  apply (rank_inj hs ht).1
  rw [rank, rank, Option.some.inj h]

theorem refining_start : Refining (mergeKey live edges resolve statuses) live.toList
    (singletons live) live.size := by
  refine ⟨fun s => ?_, ?_, fun s hs t ht heq => ?_⟩
  · have hget := getElem?_ofList_zip live 0 s
    rw [← List.range_eq_range'] at hget
    rw [Std.ExtTreeMap.mem_iff_isSome_getElem?, singletons, hget, Std.ExtTreeSet.mem_toList]
    by_cases hs : s ∈ live <;> simp [hs]
  · rw [classCount, Finset.card_image_of_injOn, List.toFinset_card_of_nodup (nodup_toList live),
      Std.ExtTreeSet.length_toList]
    intro s hs t ht heq
    simp only [List.coe_toFinset, Set.mem_ofPred_eq, Std.ExtTreeSet.mem_toList] at hs ht
    exact singletons_inj hs ht heq
  · rw [Std.ExtTreeSet.mem_toList] at hs ht
    rw [singletons_inj hs ht heq]

theorem groups_of_mergeRounds {last : StateMap Nat}
    (hrun : mergeRounds (mergeKey live edges resolve statuses) live.toList (singletons live)
      live.size = internAll (mergeKey live edges resolve statuses last) live.toList) :
    (mergeIdentical live edges resolve statuses).Groups live
      (mergeKey live edges resolve statuses last) := by
  have hnew := interned_internAll (mergeKey live edges resolve statuses last) live.toList
  have hrepresentatives : (mergeIdentical live edges resolve statuses).representatives =
      (internAll (mergeKey live edges resolve statuses last) live.toList).2.filterMap
        fun _ number => (internAll (mergeKey live edges resolve statuses last)
          live.toList).1.origin? number := by
    rw [← hrun]
    rfl
  refine ⟨fun s => ?_, fun r => ?_⟩
  · rw [hrepresentatives, Std.ExtTreeMap.getElem?_filterMap']
    by_cases hs : s ∈ live
    · rw [if_pos hs]
      exact hnew.origin_eq (Std.ExtTreeSet.mem_toList.2 hs)
    · rw [if_neg hs, hnew.numbers, if_neg fun h => hs (Std.ExtTreeSet.mem_toList.1 h)]
      rfl
  · have hlive : (mergeIdentical live edges resolve statuses).live = Std.ExtTreeSet.ofList
        ((mergeIdentical live edges resolve statuses).representatives.toList.map (·.2)) := rfl
    rw [hlive, Std.ExtTreeSet.mem_ofList, List.contains_iff_mem, List.mem_map]
    simp only [Prod.exists, Std.ExtTreeMap.mem_toList_iff_getElem?_eq_some, exists_eq_right]

/-- The classes that the last round starts from. States are merged by their keys over these, and
    sharing a key is sharing a class. -/
theorem groups_mergeIdentical : ∃ last : StateMap Nat,
    (∀ s, s ∈ last ↔ s ∈ live.toList) ∧
    (mergeIdentical live edges resolve statuses).Groups live
      (mergeKey live edges resolve statuses last) ∧
    ∀ s ∈ live.toList, ∀ t ∈ live.toList, last[s]? = last[t]? ↔
      mergeKey live edges resolve statuses last s =
        mergeKey live edges resolve statuses last t := by
  obtain ⟨last, n, hlast, hrun, hfixed⟩ := mergeRounds_fixed
    (respectsFactors_mergeKey live edges resolve statuses)
    (refining_start live edges resolve statuses)
  exact ⟨last, hlast.covers, groups_of_mergeRounds live edges resolve statuses hrun, hfixed⟩

theorem represents_mergeIdentical :
    (mergeIdentical live edges resolve statuses).Represents live := by
  obtain ⟨last, -, hgroups, -⟩ := groups_mergeIdentical live edges resolve statuses
  exact hgroups.represents

variable {live}

theorem getD_liveEdges (hs : s ∈ live) : (liveEdges live edges resolve).getD s [] =
    (edges.filter fun edge => edge.source = s).map fun edge =>
      (edge.label, resolve edge.target) := by
  rw [liveEdges, StateMap.getD_group, List.filter_map, List.filter_filter, List.map_map]
  refine congrArg _ (List.filter_congr fun edge _ => ?_)
  by_cases hsource : edge.source = s
  · subst hsource
    simpa [Std.ExtTreeSet.contains_iff_mem] using hs
  · simp [hsource]

theorem mergeIdentical_eq_iff (hs : s ∈ live) (ht : t ∈ live) :
    (mergeIdentical live edges resolve statuses).representative s =
      (mergeIdentical live edges resolve statuses).representative t ↔
    mergeKey live edges resolve statuses
        (mergeIdentical live edges resolve statuses).representatives s =
      mergeKey live edges resolve statuses
        (mergeIdentical live edges resolve statuses).representatives t := by
  obtain ⟨last, hcovers, hgroups, hfixed⟩ := groups_mergeIdentical live edges resolve statuses
  generalize mergeIdentical live edges resolve statuses = merge at hgroups ⊢
  have hcover : ∀ s, s ∈ merge.representatives ↔ s ∈ live.toList := by
    intro s
    rw [hgroups.mem_iff, Std.ExtTreeSet.mem_toList]
  -- the last classes and the representatives tell the same states apart
  have hsame : ∀ s ∈ live.toList, ∀ t ∈ live.toList,
      last[s]? = last[t]? ↔ merge.representatives[s]? = merge.representatives[t]? := by
    intro s hs t ht
    rw [hfixed s hs t ht]
    rw [Std.ExtTreeSet.mem_toList] at hs ht
    rw [hgroups.getElem?_of_mem hs, hgroups.getElem?_of_mem ht, Option.some_inj,
      hgroups.eq_iff hs ht]
  obtain ⟨g, hg⟩ := Coarsens.exists_factors (fun s hs t ht => (hsame s hs t ht).1)
    hcovers hcover
  obtain ⟨k, hk⟩ := Coarsens.exists_factors (fun s hs t ht => (hsame s hs t ht).2)
    hcover hcovers
  have hkey := respectsFactors_mergeKey live edges resolve statuses
  rw [hgroups.eq_iff hs ht]
  exact ⟨hkey g last _ hg s t, hkey k _ last hk s t⟩

/-- Classes that are closed under equal keys hold merged states together: a round starts from finer
    classes than these, and so it ends with finer ones. -/
theorem mergeIdentical_least {coarse : StateMap Nat} (hcovers : ∀ s, s ∈ coarse ↔ s ∈ live)
    (hclosed : ∀ s ∈ live, ∀ t ∈ live, mergeKey live edges resolve statuses coarse s =
      mergeKey live edges resolve statuses coarse t → coarse[s]? = coarse[t]?)
    (hs : s ∈ live) (ht : t ∈ live)
    (h : (mergeIdentical live edges resolve statuses).representative s =
      (mergeIdentical live edges resolve statuses).representative t) :
    coarse[s]? = coarse[t]? := by
  have hkey := respectsFactors_mergeKey live edges resolve statuses
  have hcovers' : ∀ s, s ∈ coarse ↔ s ∈ live.toList := by
    intro s
    rw [hcovers, Std.ExtTreeSet.mem_toList]
  -- keys that agree over finer classes agree over the coarse ones
  have hround : ∀ classes : StateMap Nat, (∀ s, s ∈ classes ↔ s ∈ live.toList) →
      Coarsens live.toList classes coarse → ∀ s ∈ live, ∀ t ∈ live,
        mergeKey live edges resolve statuses classes s =
          mergeKey live edges resolve statuses classes t → coarse[s]? = coarse[t]? := by
    intro classes hclasses hfine s hs t ht heq
    obtain ⟨g, hg⟩ := hfine.exists_factors hclasses hcovers'
    exact hclosed s hs t ht (hkey g classes coarse hg s t heq)
  have hstep : ∀ (classes : StateMap Nat) (count : Nat),
      Refining (mergeKey live edges resolve statuses) live.toList classes count ∧
        Coarsens live.toList classes coarse →
      Refining (mergeKey live edges resolve statuses) live.toList
          (internAll (mergeKey live edges resolve statuses classes) live.toList).2
          (internAll (mergeKey live edges resolve statuses classes) live.toList).1.size ∧
        Coarsens live.toList
          (internAll (mergeKey live edges resolve statuses classes) live.toList).2 coarse := by
    rintro classes count ⟨hrefining, hfine⟩
    refine ⟨hrefining.round hkey, fun s hs t ht heq => ?_⟩
    have hnew := interned_internAll (mergeKey live edges resolve statuses classes) live.toList
    apply hround classes hrefining.covers hfine s (Std.ExtTreeSet.mem_toList.1 hs) t
      (Std.ExtTreeSet.mem_toList.1 ht)
    exact (hnew.number_eq_iff hs ht).1 heq
  obtain ⟨last, n, ⟨hlast, hfine⟩, hrun, -⟩ := mergeRounds_eq hstep
    ⟨refining_start live edges resolve statuses, fun s hs t ht heq => by
      rw [singletons_inj (Std.ExtTreeSet.mem_toList.1 hs) (Std.ExtTreeSet.mem_toList.1 ht) heq]⟩
  have hgroups := groups_of_mergeRounds live edges resolve statuses hrun
  exact hround last hlast.covers hfine s hs t ht ((hgroups.eq_iff hs ht).1 h)

end Identical

end InteractiveMarkov
