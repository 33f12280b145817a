import InteractiveMarkov.Chain
import Mathlib.Data.Set.Card
import Mathlib.Data.Set.Function

set_option autoImplicit false

namespace InteractiveMarkov

def rank (live : StateSet) (s : StateId) : Nat := 1 + live.toList.countP (· < s)

theorem pairwise_toList (live : StateSet) : live.toList.Pairwise (· < ·) := by
  refine live.ordered_toList.imp fun {s t} h => ?_
  exact Nat.compare_eq_lt.1 h

theorem nodup_toList (live : StateSet) : live.toList.Nodup :=
  (pairwise_toList live).imp fun h => Nat.ne_of_lt h

theorem size_le_length {live : StateSet} {l : List StateId} (h : ∀ s ∈ live, s ∈ l) :
    live.size ≤ l.length := by
  rw [← Std.ExtTreeSet.length_toList]
  exact ((nodup_toList live).subperm fun s hs => h s (Std.ExtTreeSet.mem_toList.1 hs)).length_le

theorem size_le_size {live other : StateSet} (h : ∀ s ∈ live, s ∈ other) :
    live.size ≤ other.size := by
  rw [← Std.ExtTreeSet.length_toList (t := other)]
  exact size_le_length fun s hs => Std.ExtTreeSet.mem_toList.2 (h s hs)

theorem countP_lt_getElem {l : List StateId} (h : l.Pairwise (· < ·)) (i : Nat)
    (hi : i < l.length) : l.countP (· < l[i]) = i := by
  induction l generalizing i with
  | nil => simp at hi
  | cons s rest ih =>
    obtain ⟨hs, hrest⟩ := List.pairwise_cons.1 h
    cases i with
    | zero =>
      refine List.countP_eq_zero.2 fun t ht => ?_
      rcases List.mem_cons.1 ht with rfl | ht
      · simp
      · simpa using Nat.le_of_lt (hs t ht)
    | succ i =>
      have hlen : i < rest.length := by simpa using hi
      have hlt := hs _ (List.getElem_mem hlen)
      simp only [List.getElem_cons_succ, List.countP_cons, ih hrest i hlen, hlt, decide_true,
        if_true]

theorem rank_getElem (live : StateSet) (i : Nat) (hi : i < live.toList.length) :
    rank live live.toList[i] = 1 + i := by
  rw [rank, countP_lt_getElem (pairwise_toList live) i hi]

variable {live : StateSet} {s t : StateId}

theorem exists_place (hs : s ∈ live) :
    ∃ i, ∃ hi : i < live.toList.length, live.toList[i] = s ∧ rank live s = 1 + i := by
  obtain ⟨i, hi, rfl⟩ := List.getElem_of_mem (Std.ExtTreeSet.mem_toList.2 hs)
  exact ⟨i, hi, rfl, rank_getElem live i hi⟩

theorem rank_lt_rank (hs : s ∈ live) (h : s < t) : rank live s < rank live t := by
  have hsub : live.toList.countP (· < s) < live.toList.countP (· < t) := by
    rw [List.countP_eq_length_filter, List.countP_eq_length_filter]
    have hsplit : (live.toList.filter (· < t)).filter (· < s) = live.toList.filter (· < s) := by
      rw [List.filter_filter]
      refine List.filter_congr fun u _ => ?_
      have himp : u < s → u < t := fun hu => Nat.lt_trans hu h
      by_cases hu : u < s <;> simp [hu, himp]
    rw [← hsplit]
    refine List.length_filter_lt_length_iff_exists.2 ⟨s, ?_, by simp⟩
    exact List.mem_filter.2 ⟨Std.ExtTreeSet.mem_toList.2 hs, by simpa using h⟩
  unfold rank
  omega

theorem rank_lt_iff (hs : s ∈ live) (ht : t ∈ live) : rank live s < rank live t ↔ s < t := by
  refine ⟨fun h => ?_, rank_lt_rank hs⟩
  by_contra hle
  rcases Nat.lt_or_eq_of_le (Nat.le_of_not_lt hle) with hlt | rfl
  · have := rank_lt_rank ht hlt
    omega
  · omega

theorem rank_inj (hs : s ∈ live) (ht : t ∈ live) : rank live s = rank live t ↔ s = t := by
  refine ⟨fun h => ?_, fun h => h ▸ rfl⟩
  rcases Nat.lt_trichotomy s t with hlt | heq | hlt
  · exact absurd h (Nat.ne_of_lt (rank_lt_rank hs hlt))
  · exact heq
  · exact absurd h (Nat.ne_of_gt (rank_lt_rank ht hlt))

theorem rank_mem (hs : s ∈ live) : 1 ≤ rank live s ∧ rank live s ≤ live.size := by
  obtain ⟨i, hi, -, hrank⟩ := exists_place hs
  rw [Std.ExtTreeSet.length_toList] at hi
  omega

theorem exists_rank {n : Nat} (h1 : 1 ≤ n) (hn : n ≤ live.size) : ∃ s ∈ live, rank live s = n := by
  have hi : n - 1 < live.toList.length := by
    rw [Std.ExtTreeSet.length_toList]
    omega
  refine ⟨live.toList[n - 1], Std.ExtTreeSet.mem_toList.1 (List.getElem_mem hi), ?_⟩
  rw [rank_getElem]
  omega

theorem map_rank_toList (live : StateSet) :
    live.toList.map (fun s => rank live s - 1) = List.range live.size := by
  apply List.ext_getElem (by simp)
  intro i hi _
  simp only [List.getElem_map, rank_getElem, List.getElem_range]
  omega

theorem toList_eq_range {n : Nat} (h : ∀ k, k ∈ live ↔ k < n) : live.toList = List.range n := by
  refine List.Perm.eq_of_pairwise (fun s t _ _ hst hts => ?_) (pairwise_toList live)
    List.pairwise_lt_range ?_
  · exact absurd hst (Nat.lt_asymm hts)
  · refine (List.perm_ext_iff_of_nodup (nodup_toList live) List.nodup_range).2 fun k => ?_
    simp [h]

theorem rank_eq_succ {n k : Nat} (h : ∀ k, k ∈ live ↔ k < n) (hk : k < n) :
    rank live k = k + 1 := by
  have hcount := countP_lt_getElem (List.pairwise_lt_range (n := n)) k (by simpa using hk)
  rw [List.getElem_range] at hcount
  rw [rank, toList_eq_range h, hcount, Nat.add_comm]

/-- One more than the count of the smaller states with the property. -/
noncomputable def numberAmong (P : StateId → Prop) (s : StateId) : Nat := 1 + {t | P t ∧ t < s}.ncard

theorem ncard_eq_length {S : Set Nat} {l : List Nat} (hnodup : l.Nodup)
    (hmem : ∀ n, n ∈ S ↔ n ∈ l) : S.ncard = l.length := by
  have hset : S = (l.toFinset : Set Nat) := by
    ext n
    rw [hmem, List.coe_toFinset]
    rfl
  rw [hset, Set.ncard_coe_finset, List.toFinset_card_of_nodup hnodup]

theorem rank_eq_numberAmong {P : StateId → Prop} (h : ∀ s, s ∈ live ↔ P s) :
    rank live = numberAmong P := by
  funext s
  have hmem : ∀ t, t ∈ {t | P t ∧ t < s} ↔ t ∈ live.toList.filter (· < s) := by
    intro t
    simp [h]
  rw [numberAmong, ncard_eq_length ((nodup_toList live).filter _) hmem, rank,
    List.countP_eq_length_filter]

theorem bijOn_rank (live : StateSet) :
    Set.BijOn (rank live) {s | s ∈ live} (Set.Icc 1 live.size) := by
  refine ⟨fun s hs => rank_mem hs, fun s hs t ht heq => (rank_inj hs ht).1 heq, fun n hn => ?_⟩
  obtain ⟨s, hs, rfl⟩ := exists_rank hn.1 hn.2
  exact ⟨s, hs, rfl⟩

theorem countP_eq_ncard (live : StateSet) (p : StateId → Bool) :
    live.toList.countP p = {n | ∃ s ∈ live, rank live s = n ∧ p s = true}.ncard := by
  have hlive : ∀ s ∈ live.toList.filter p, s ∈ live := fun s hs =>
    Std.ExtTreeSet.mem_toList.1 (List.mem_filter.1 hs).1
  have hnodup : ((live.toList.filter p).map (rank live)).Nodup :=
    ((nodup_toList live).filter p).map_on fun s hs t ht heq =>
      (rank_inj (hlive s hs) (hlive t ht)).1 heq
  have hmem : ∀ n, n ∈ {n | ∃ s ∈ live, rank live s = n ∧ p s = true} ↔
      n ∈ (live.toList.filter p).map (rank live) := by
    intro n
    simp only [Set.mem_ofPred_eq, List.mem_map, List.mem_filter, Std.ExtTreeSet.mem_toList]
    constructor
    · rintro ⟨s, hs, hrank, hp⟩
      exact ⟨s, ⟨hs, hp⟩, hrank⟩
    · rintro ⟨s, ⟨hs, hp⟩, hrank⟩
      exact ⟨s, hs, hrank, hp⟩
  rw [ncard_eq_length hnodup hmem, List.length_map, List.countP_eq_length_filter]

theorem getElem?_ofList_zip (live : StateSet) (first : Nat) (s : StateId) :
    (Std.ExtTreeMap.ofList (live.toList.zip (List.range' first live.size)) : StateMap Nat)[s]? =
      if s ∈ live then some (first + live.toList.countP (· < s)) else none := by
  have hlen : live.toList.length = (List.range' first live.size).length := by simp
  have hkeys : (live.toList.zip (List.range' first live.size)).map Prod.fst = live.toList :=
    List.map_fst_zip (Nat.le_of_eq hlen)
  split
  · rename_i hs
    obtain ⟨i, hi, hget, hrank⟩ := exists_place hs
    have hcount : live.toList.countP (· < s) = i := Nat.add_left_cancel hrank
    refine Std.ExtTreeMap.getElem?_ofList_of_mem (k := s) Std.ReflCmp.compare_self ?_ ?_
    · have hdistinct := live.distinct_toList
      rw [← hkeys, List.pairwise_map] at hdistinct
      exact hdistinct
    · refine List.mem_iff_getElem?.2 ⟨i, ?_⟩
      have hsize : i < live.size := by rwa [← Std.ExtTreeSet.length_toList]
      rw [List.getElem?_zip_eq_some]
      refine ⟨by rw [List.getElem?_eq_getElem hi, hget], ?_⟩
      rw [List.getElem?_range' hsize, hcount, Nat.one_mul]
  · rename_i hs
    refine Std.ExtTreeMap.getElem?_ofList_of_contains_eq_false ?_
    rw [hkeys]
    simpa using hs

theorem getElem?_numbering (live : StateSet) (s : StateId) :
    (numbering live)[s]? = if s ∈ live then some (rank live s) else none :=
  getElem?_ofList_zip live 1 s

theorem mapM_ok {α β ε : Type} {f : α → Except ε β} {g : α → β} {l : List α}
    (h : ∀ x ∈ l, f x = .ok (g x)) : l.mapM f = .ok (l.map g) := by
  induction l with
  | nil => rfl
  | cons x rest ih =>
    rw [List.mapM_cons, h x List.mem_cons_self,
      ih fun y hy => h y (List.mem_cons_of_mem x hy)]
    rfl

variable {edges : List KeptEdge} {resolve : StateId → StateId} {initial : StateId}

def rankedEdge (live : StateSet) (resolve : StateId → StateId) (edge : KeptEdge) : Transition :=
  ⟨rank live edge.source, edge.label, rank live (resolve edge.target)⟩

theorem emit_eq (statuses : StatusTable) (hinitial : resolve initial ∈ live)
    (hedges : ∀ edge ∈ edges, edge.source ∈ live → resolve edge.target ∈ live) :
    emit initial live edges resolve statuses = .ok {
      initial := rank live (resolve initial)
      stateCount := live.size
      transitions := (edges.filter fun edge => edge.source ∈ live).map (rankedEdge live resolve)
      statuses := live.toList.map statuses.resolved } := by
  have hfirst : numberOf (numbering live) initial (resolve initial) =
      .ok (rank live (resolve initial)) := by
    rw [numberOf, getElem?_numbering, if_pos hinitial]
  have hall : edges.mapM (renumber? (numbering live) resolve) = .ok (edges.map fun edge =>
      if edge.source ∈ live then some (rankedEdge live resolve edge) else none) := by
    refine mapM_ok fun edge hedge => ?_
    rw [renumber?, getElem?_numbering]
    by_cases hsource : edge.source ∈ live
    · rw [if_pos hsource, if_pos hsource]
      simp only [numberOf, getElem?_numbering, if_pos (hedges edge hedge hsource)]
      rfl
    · rw [if_neg hsource, if_neg hsource]
  have hkeep : (edges.map fun edge => if edge.source ∈ live then
        some (rankedEdge live resolve edge) else none).filterMap id =
      (edges.filter fun edge => edge.source ∈ live).map (rankedEdge live resolve) := by
    rw [List.filterMap_map, ← List.filterMap_eq_map, List.filterMap_filter]
    refine List.filterMap_congr fun edge _ => ?_
    simp
  rw [emit, hfirst, ← hkeep]
  simp only [hall]
  rfl

theorem filter_rankedEdge (hs : s ∈ live) :
    (((edges.filter fun edge => edge.source ∈ live).map (rankedEdge live resolve)).filter
      fun transition => transition.source = rank live s) =
    (edges.filter fun edge => edge.source = s).map (rankedEdge live resolve) := by
  rw [List.filter_map, List.filter_filter]
  refine congrArg _ (List.filter_congr fun edge _ => ?_)
  simp only [Function.comp_apply, rankedEdge]
  by_cases hsource : edge.source ∈ live
  · simp [hsource, rank_inj hsource hs]
  · have hne : edge.source ≠ s := fun h => hsource (h ▸ hs)
    simp [hsource, hne]

theorem status?_rank {chain : Chain} {statuses : StatusTable}
    (h : chain.statuses = live.toList.map statuses.resolved) (hs : s ∈ live) :
    chain.status? (rank live s) = some (statuses.resolved s) := by
  obtain ⟨i, hi, hget, hrank⟩ := exists_place hs
  rw [hrank, Nat.add_comm, Chain.status?, h, List.getElem?_map, List.getElem?_eq_getElem hi, hget]
  rfl

end InteractiveMarkov
