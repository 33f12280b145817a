import InteractiveMarkov.Merging
import Mathlib.Data.Finset.Card
import Mathlib.Data.List.SplitBy

set_option autoImplicit false

namespace InteractiveMarkov

section Tally

variable {α : Type} [BEq α] [LawfulBEq α] [Ord α] [Std.TransOrd α] [Std.LawfulEqOrd α]
  {l : List α} {a t : α} {n : Nat}

/-- The runs of equal elements, each with its length. -/
def tally (l : List α) : List (α × Nat) :=
  (l.splitBy (· == ·)).filterMap fun copies => copies.head?.map fun x => (x, copies.length)

theorem copies_in_front (h : (a :: l).Pairwise fun x y => (compare x y).isLE = true) :
    l = List.replicate (l.count a) a ++ l.filter (! · == a) := by
  induction l with
  | nil => rfl
  | cons b l ih =>
    obtain ⟨ha, hl⟩ := List.pairwise_cons.1 h
    by_cases hb : b = a
    · subst hb
      rw [List.count_cons_self, List.replicate_succ, List.filter_cons_of_neg (by simp),
        List.cons_append, ← ih hl]
    · have hnot : a ∉ b :: l := by
        intro hmem
        rcases List.mem_cons.1 hmem with rfl | hmem
        · exact hb rfl
        · exact hb (Std.LawfulEqCmp.eq_of_compare (Std.OrientedCmp.isLE_antisymm
            ((List.pairwise_cons.1 hl).1 a hmem) (ha b List.mem_cons_self)))
      rw [List.count_eq_zero_of_not_mem hnot, List.replicate_zero, List.nil_append,
        List.filter_eq_self.2]
      intro x hx
      simp only [Bool.not_eq_true', beq_eq_false_iff_ne]
      rintro rfl
      exact hnot hx

theorem tally_cons (h : (a :: l).Pairwise fun x y => (compare x y).isLE = true) :
    tally (a :: l) = (a, l.count a + 1) :: tally (l.filter (! · == a)) := by
  have hsplit : a :: l = (a :: List.replicate (l.count a) a) ++ l.filter (! · == a) := by
    rw [List.cons_append, ← copies_in_front h]
  have hcopies : ∀ x ∈ a :: List.replicate (l.count a) a, x = a := by
    intro x hx
    exact (List.mem_cons.1 hx).elim id List.eq_of_mem_replicate
  have hfront : (a :: List.replicate (l.count a) a).splitBy (· == ·) =
      [a :: List.replicate (l.count a) a] := by
    refine List.splitBy_of_isChain (List.cons_ne_nil _ _) ?_
    rw [← List.replicate_succ]
    exact List.isChain_replicate_of_rel _ (beq_self_eq_true a)
  have hruns : (a :: l).splitBy (· == ·) =
      (a :: List.replicate (l.count a) a) :: (l.filter (! · == a)).splitBy (· == ·) := by
    rw [hsplit, List.splitBy_append, hfront, List.singleton_append]
    intro x hx y hy
    obtain rfl := hcopies x (List.mem_of_getLast? hx)
    have hother := (List.mem_filter.1 (List.mem_of_mem_head? hy)).2
    rw [BEq.comm]
    simpa using hother
  rw [tally, hruns, List.filterMap_cons]
  simp [tally]

theorem mem_tally (h : l.Pairwise fun x y => (compare x y).isLE = true) :
    (t, n) ∈ tally l ↔ 0 < n ∧ l.count t = n := by
  -- on the length, as what is left without the copies of the first element is listed next
  induction hlen : l.length using Nat.strongRecOn generalizing l with
  | ind k ih =>
    cases l with
    | nil =>
      simp only [tally, List.splitBy_nil, List.filterMap_nil, List.not_mem_nil, List.count_nil,
        false_iff]
      omega
    | cons a l =>
      have hrest : (l.filter (! · == a)).Pairwise fun x y => (compare x y).isLE = true :=
        (List.pairwise_cons.1 h).2.filter _
      have hshort : (l.filter (! · == a)).length < k := by
        have := List.length_filter_le (! · == a) l
        rw [List.length_cons] at hlen
        omega
      rw [tally_cons h, List.mem_cons, ih _ hshort hrest rfl, Prod.mk.injEq]
      by_cases ht : t = a
      · subst ht
        have hnone : (l.filter (! · == t)).count t = 0 :=
          List.count_eq_zero_of_not_mem (by simp)
        rw [hnone, List.count_cons_self]
        simp only [true_and]
        omega
      · rw [List.count_filter (by simpa using ht), List.count_cons_of_ne (Ne.symm ht)]
        simp [ht]

end Tally

namespace StateKey

theorem pairwise_transitions (x : Status) (ts : List (KeptLabel × Nat)) :
    (StateKey.of x ts).transitions.Pairwise fun a b => (compare a b).isLE = true := by
  refine List.pairwise_mergeSort (fun _ _ _ => Std.TransCmp.isLE_trans) (fun a b => ?_) ts
  have hswap : compare a b = (compare b a).swap := Std.OrientedCmp.eq_swap
  rw [hswap]
  cases compare b a <;> rfl

theorem perm_transitions (x : Status) (ts : List (KeptLabel × Nat)) :
    (StateKey.of x ts).transitions.Perm ts := List.mergeSort_perm ts _

theorem of_eq_iff {x y : Status} {ts us : List (KeptLabel × Nat)} :
    StateKey.of x ts = StateKey.of y us ↔ x = y ∧ ts.Perm us := by
  constructor
  · intro h
    refine ⟨congrArg status h, ?_⟩
    exact (perm_transitions x ts).symm.trans (h ▸ perm_transitions y us)
  · rintro ⟨rfl, h⟩
    have hperm : (StateKey.of x ts).transitions.Perm (StateKey.of x us).transitions :=
      (perm_transitions x ts).trans (h.trans (perm_transitions x us).symm)
    refine congrArg (StateKey.mk x) (List.Perm.eq_of_pairwise (fun a b _ _ hab hba => ?_)
      (pairwise_transitions x ts) (pairwise_transitions x us) hperm)
    exact Std.LawfulEqCmp.eq_of_compare (Std.OrientedCmp.isLE_antisymm hab hba)

theorem mem_counts {x : Status} {ts : List (KeptLabel × Nat)} {t : KeptLabel × Nat} {n : Nat} :
    (t, n) ∈ (StateKey.of x ts).counts ↔ 0 < n ∧ ts.count t = n := by
  rw [← (perm_transitions x ts).count_eq t]
  exact mem_tally (pairwise_transitions x ts)

end StateKey

namespace StateStore

/-- The keys in the index are those of the calls, the origin with the number of a key is that of the
    first call with the key, and each number belongs to one key. -/
structure Holds (calls : List (StateId × StateKey)) (store : StateStore) : Prop where
  known : ∀ call ∈ calls, ∃ n : Nat, store.index[call.2]? = some n
  kept : ∀ (k : StateKey) (n : Nat), store.index[k]? = some n →
    ∃ s : StateId, store.origins[n]? = some s ∧ calls.find? (·.2 = k) = some (s, k)
  filled : ∀ n < store.size, ∃ k : StateKey, store.index[k]? = some n
  distinct : ∀ (k l : StateKey) (n : Nat), store.index[k]? = some n → store.index[l]? = some n →
    k = l

variable {calls : List (StateId × StateKey)} {store : StateStore} {call : StateId × StateKey}

theorem intern_known {origin : StateId} {key : StateKey} {number : Nat}
    (h : store.index[key]? = some number) : store.intern origin key = (store, number, false) := by
  rw [intern, h]

theorem intern_new {origin : StateId} {key : StateKey} (h : store.index[key]? = none) :
    store.intern origin key =
      (⟨store.origins.push origin, store.index.insert key store.size⟩, store.size, true) := by
  rw [intern, h]

theorem getElem?_insert_index (store : StateStore) (key k : StateKey) (number : Nat) :
    (store.index.insert key number)[k]? = if key = k then some number else store.index[k]? := by
  rw [Std.ExtTreeMap.getElem?_insert]
  simp only [Std.LawfulEqCmp.compare_eq_iff_eq]

theorem holds_empty : Holds [] empty where
  known call hcall := by simp at hcall
  kept k n h := by simp [empty] at h
  filled n h := by simp [empty, size] at h
  distinct k l n h := by simp [empty] at h

theorem Holds.lt_size (h : Holds calls store) {k : StateKey} {n : Nat}
    (hk : store.index[k]? = some n) : n < store.size := by
  obtain ⟨s, horigin, -⟩ := h.kept k n hk
  exact (Array.getElem?_eq_some_iff.1 horigin).1

theorem Holds.reuse (h : Holds calls store) {number : Nat}
    (hcall : store.index[call.2]? = some number) : Holds (calls ++ [call]) store := by
  refine ⟨fun other hother => ?_, fun k n hk => ?_, h.filled, h.distinct⟩
  · rcases List.mem_append.1 hother with hother | hother
    · exact h.known other hother
    · exact ⟨number, List.mem_singleton.1 hother ▸ hcall⟩
  · obtain ⟨s, horigin, hfind⟩ := h.kept k n hk
    exact ⟨s, horigin, by rw [List.find?_append, hfind, Option.some_or]⟩

theorem Holds.grow (h : Holds calls store) (hcall : store.index[call.2]? = none) :
    Holds (calls ++ [call])
      ⟨store.origins.push call.1, store.index.insert call.2 store.size⟩ := by
  have hindex := fun k => store.getElem?_insert_index call.2 k store.size
  have hother : ∀ (k : StateKey) (n : Nat), store.index[k]? = some n → call.2 ≠ k := by
    rintro k n hk rfl
    rw [hcall] at hk
    cases hk
  refine ⟨fun other hother => ?_, fun k n hk => ?_, fun n hn => ?_, fun k l n hk hl => ?_⟩
  · rw [hindex]
    split
    · exact ⟨_, rfl⟩
    · rename_i hne
      rcases List.mem_append.1 hother with hmem | hmem
      · exact h.known other hmem
      · exact absurd (congrArg Prod.snd (List.mem_singleton.1 hmem)).symm hne
  · rw [hindex] at hk
    split at hk
    · rename_i heq
      cases hk
      have hfresh : calls.find? (·.2 = k) = none := by
        refine List.find?_eq_none.2 fun other hmem hkey => ?_
        obtain ⟨n, hn⟩ := h.known other hmem
        exact hother _ n hn (heq.trans (of_decide_eq_true hkey).symm)
      refine ⟨call.1, by simp [size], ?_⟩
      rw [List.find?_append, hfresh, ← heq]
      simp
    · obtain ⟨s, horigin, hfind⟩ := h.kept k n hk
      have hlt := h.lt_size hk
      refine ⟨s, ?_, by rw [List.find?_append, hfind, Option.some_or]⟩
      rw [Array.getElem?_push_lt hlt, ← Array.getElem?_eq_getElem hlt, horigin]
  · rcases Nat.lt_succ_iff_lt_or_eq.1 (by simpa [size] using hn) with hlt | rfl
    · obtain ⟨k, hk⟩ := h.filled n hlt
      exact ⟨k, by rw [hindex, if_neg (hother k n hk), hk]⟩
    · exact ⟨call.2, by rw [hindex, if_pos rfl, size]⟩
  · -- the new number is no number of an old key
    rw [hindex] at hk hl
    split at hk <;> split at hl
    · rename_i hk' hl'
      exact hk'.symm.trans hl'
    · cases hk
      exact absurd (h.lt_size hl) (Nat.lt_irrefl _)
    · cases hl
      exact absurd (h.lt_size hk) (Nat.lt_irrefl _)
    · exact h.distinct k l n hk hl

theorem Holds.intern (h : Holds calls store) (origin : StateId) (key : StateKey) :
    Holds (calls ++ [(origin, key)]) (store.intern origin key).1 := by
  cases hkey : store.index[key]? with
  | some number =>
    rw [intern_known hkey]
    exact h.reuse hkey
  | none =>
    rw [intern_new hkey]
    exact h.grow hkey

theorem Holds.known_iff (h : Holds calls store) {k : StateKey} :
    (∃ n : Nat, store.index[k]? = some n) ↔ ∃ call ∈ calls, call.2 = k := by
  constructor
  · rintro ⟨n, hn⟩
    obtain ⟨s, -, hfind⟩ := h.kept k n hn
    exact ⟨(s, k), List.mem_of_find?_eq_some hfind, rfl⟩
  · rintro ⟨call, hcall, rfl⟩
    exact h.known call hcall

theorem Holds.injOn_index (h : Holds calls store) :
    Set.InjOn (store.index[·]?) {k | ∃ call ∈ calls, call.2 = k} := by
  intro k hk l hl heq
  obtain ⟨n, hn⟩ := h.known_iff.2 hk
  exact h.distinct k l n hn (heq.symm.trans hn)

theorem Holds.size_eq (h : Holds calls store) :
    store.size = (calls.map (·.2)).toFinset.card := by
  have hkeys : ∀ k : StateKey, k ∈ (calls.map (·.2)).toFinset ↔
      ∃ n : Nat, store.index[k]? = some n := by
    intro k
    rw [h.known_iff, List.mem_toFinset, List.mem_map]
  have himage : (calls.map (·.2)).toFinset.image (store.index[·]?) =
      (Finset.range store.size).image some := by
    ext n?
    simp only [Finset.mem_image, hkeys, Finset.mem_range]
    constructor
    · rintro ⟨k, ⟨n, hn⟩, rfl⟩
      exact ⟨n, h.lt_size hn, hn.symm⟩
    · rintro ⟨n, hn, rfl⟩
      obtain ⟨k, hk⟩ := h.filled n hn
      exact ⟨k, ⟨n, hk⟩, hk⟩
  have hinjective : Set.InjOn (store.index[·]?) ((calls.map (·.2)).toFinset : Set StateKey) :=
    h.injOn_index.mono fun k hk => h.known_iff.1 ((hkeys k).1 hk)
  rw [← Finset.card_image_of_injOn hinjective, himage,
    Finset.card_image_of_injective _ (Option.some_injective _), Finset.card_range]

structure Lookup where
  origin : StateId
  key : StateKey
  number : Nat
  fresh : Bool

def lookUp (run : StateStore × List Lookup) (call : StateId × StateKey) :
    StateStore × List Lookup :=
  let (store, number, fresh) := run.1.intern call.1 call.2
  (store, run.2 ++ [⟨call.1, call.2, number, fresh⟩])

def lookUpAll (calls : List (StateId × StateKey)) : StateStore × List Lookup :=
  calls.foldl lookUp (empty, [])

def asked (lookups : List Lookup) : List (StateId × StateKey) :=
  lookups.map fun x => (x.origin, x.key)

/-- What the lookups on an empty store answer, and what the store has after them. -/
structure Answers (lookups : List Lookup) (store : StateStore) : Prop where
  inOrder : (lookups.filter (·.fresh)).map (·.number) = List.range store.size
  injective : ∀ x ∈ lookups, ∀ y ∈ lookups, x.number = y.number ↔ x.key = y.key
  first : ∀ (before after : List Lookup) (x : Lookup), lookups = before ++ x :: after →
    (x.fresh = true ↔ ∀ y ∈ before, y.key ≠ x.key)
  origin : ∀ x ∈ lookups, x.fresh = true → store.origin? x.number = some x.origin
  bounded : ∀ x ∈ lookups, x.number < store.size
  absent : ∀ n : Nat, store.origin? n = none ↔ store.size ≤ n
  size : store.size = (lookups.map (·.key)).toFinset.card

structure Noted (lookups : List Lookup) (store : StateStore) : Prop where
  holds : Holds (asked lookups) store
  number : ∀ x ∈ lookups, store.index[x.key]? = some x.number
  inOrder : (lookups.filter (·.fresh)).map (·.number) = List.range store.size
  first : ∀ (before after : List Lookup) (x : Lookup), lookups = before ++ x :: after →
    (x.fresh = true ↔ ∀ y ∈ before, y.key ≠ x.key)

variable {lookups : List Lookup} {x : Lookup}

theorem noted_empty : Noted [] empty where
  holds := holds_empty
  number x hx := by simp at hx
  inOrder := rfl
  first before after x h := by simp at h

theorem eq_or_exists_split {before after : List Lookup} {y : Lookup}
    (h : lookups ++ [y] = before ++ x :: after) :
    (lookups = before ∧ y = x) ∨ ∃ rest, lookups = before ++ x :: rest := by
  cases after using List.reverseRecOn with
  | nil =>
    obtain ⟨hbefore, hlast⟩ := List.append_inj' h rfl
    exact .inl ⟨hbefore, List.singleton_inj.1 hlast⟩
  | append_singleton rest z =>
    rw [← List.cons_append, ← List.append_assoc] at h
    exact .inr ⟨rest, (List.append_inj' h rfl).1⟩

theorem asked_append (x : Lookup) : asked (lookups ++ [x]) = asked lookups ++ [(x.origin, x.key)] :=
  List.map_append

theorem Noted.reuse (h : Noted lookups store) (hx : store.index[x.key]? = some x.number)
    (hfresh : x.fresh = false) : Noted (lookups ++ [x]) store := by
  refine ⟨?_, fun y hy => ?_, ?_, fun before after y hy => ?_⟩
  · rw [asked_append]
    exact h.holds.reuse hx
  · rcases List.mem_append.1 hy with hy | hy
    · exact h.number y hy
    · exact List.mem_singleton.1 hy ▸ hx
  · rw [List.filter_append, List.filter_singleton, hfresh]
    simpa using h.inOrder
  · rcases eq_or_exists_split hy with ⟨rfl, rfl⟩ | ⟨rest, hrest⟩
    · obtain ⟨call, hcall, hkey⟩ := h.holds.known_iff.1 ⟨_, hx⟩
      obtain ⟨z, hz, rfl⟩ := List.mem_map.1 hcall
      rw [hfresh]
      exact ⟨fun hfalse => absurd hfalse Bool.false_ne_true, fun hnew => absurd hkey (hnew z hz)⟩
    · exact h.first before rest y hrest

theorem Noted.grow (h : Noted lookups store) (hx : store.index[x.key]? = none)
    (hnumber : x.number = store.size) (hfresh : x.fresh = true) :
    Noted (lookups ++ [x])
      ⟨store.origins.push x.origin, store.index.insert x.key store.size⟩ := by
  have hother : ∀ y ∈ lookups, y.key ≠ x.key := by
    intro y hy hkey
    rw [← hkey, h.number y hy] at hx
    cases hx
  refine ⟨?_, fun y hy => ?_, ?_, fun before after y hy => ?_⟩
  · rw [asked_append]
    exact h.holds.grow hx
  · rw [getElem?_insert_index]
    rcases List.mem_append.1 hy with hy | hy
    · rw [if_neg (Ne.symm (hother y hy)), h.number y hy]
    · obtain rfl := List.mem_singleton.1 hy
      rw [if_pos rfl, hnumber]
  · rw [List.filter_append, List.map_append, h.inOrder, List.filter_singleton, hfresh]
    simp [size, hnumber, List.range_succ]
  · rcases eq_or_exists_split hy with ⟨rfl, rfl⟩ | ⟨rest, hrest⟩
    · exact ⟨fun _ => hother, fun _ => hfresh⟩
    · exact h.first before rest y hrest

theorem Noted.lookUp (h : Noted lookups store) (call : StateId × StateKey) :
    Noted (StateStore.lookUp (store, lookups) call).2
      (StateStore.lookUp (store, lookups) call).1 := by
  unfold StateStore.lookUp
  cases hkey : store.index[call.2]? with
  | some number =>
    rw [intern_known hkey]
    exact h.reuse hkey rfl
  | none =>
    rw [intern_new hkey]
    exact h.grow hkey rfl rfl

theorem lookUpAll_append (calls : List (StateId × StateKey)) (call : StateId × StateKey) :
    lookUpAll (calls ++ [call]) = lookUp (lookUpAll calls) call := by
  rw [lookUpAll, List.foldl_append]
  rfl

theorem noted_lookUpAll (calls : List (StateId × StateKey)) :
    Noted (lookUpAll calls).2 (lookUpAll calls).1 := by
  induction calls using List.reverseRecOn with
  | nil => exact noted_empty
  | append_singleton calls call ih =>
    rw [lookUpAll_append]
    exact ih.lookUp call

theorem asked_lookUpAll (calls : List (StateId × StateKey)) : asked (lookUpAll calls).2 = calls := by
  induction calls using List.reverseRecOn with
  | nil => rfl
  | append_singleton calls call ih => rw [lookUpAll_append, lookUp, asked_append, ih]

theorem lookUpAll_prefix (calls more : List (StateId × StateKey)) :
    (lookUpAll calls).2 <+: (lookUpAll (calls ++ more)).2 := by
  induction more using List.reverseRecOn with
  | nil => rw [List.append_nil]
  | append_singleton more call ih =>
    rw [← List.append_assoc, lookUpAll_append]
    exact ih.trans (List.prefix_append _ _)

theorem Noted.answers (h : Noted lookups store) : Answers lookups store where
  inOrder := h.inOrder
  injective x hx y hy := by
    constructor
    · intro heq
      exact h.holds.distinct _ _ _ (h.number x hx) (heq ▸ h.number y hy)
    · intro heq
      have hsame := h.number x hx
      rw [heq, h.number y hy] at hsame
      exact (Option.some.inj hsame).symm
  first := h.first
  origin x hx hfresh := by
    obtain ⟨before, after, hsplit⟩ := List.append_of_mem hx
    have hnew := (h.first before after x hsplit).1 hfresh
    obtain ⟨s, horigin, hfind⟩ := h.holds.kept x.key x.number (h.number x hx)
    have hfirst : (asked lookups).find? (·.2 = x.key) = some (x.origin, x.key) := by
      have hnone : (asked before).find? (·.2 = x.key) = none := by
        refine List.find?_eq_none.2 fun call hcall => ?_
        obtain ⟨y, hy, rfl⟩ := List.mem_map.1 hcall
        simpa using hnew y hy
      rw [asked, hsplit, List.map_append, ← asked, List.find?_append, hnone]
      simp
    rw [hfirst] at hfind
    cases hfind
    exact horigin
  bounded x hx := h.holds.lt_size (h.number x hx)
  absent n := Array.getElem?_eq_none_iff
  size := by
    rw [h.holds.size_eq, asked, List.map_map]
    rfl

/-- Lookups on an empty store, however many, give each key one number, in the order of the first
    lookups of the keys, and the store keeps the states of these. A key stands for a status and the
    number of copies of each transition. -/
theorem lookUpAll_answers (calls : List (StateId × StateKey)) :
    asked (lookUpAll calls).2 = calls ∧ Answers (lookUpAll calls).2 (lookUpAll calls).1 ∧
    (∀ more, (lookUpAll calls).2 <+: (lookUpAll (calls ++ more)).2) ∧
    (∀ (x y : Status) (ts us : List (KeptLabel × Nat)),
      StateKey.of x ts = StateKey.of y us ↔ x = y ∧ ts.Perm us) ∧
    ∀ (x : Status) (ts : List (KeptLabel × Nat)) (t : KeptLabel × Nat) (n : Nat),
      (t, n) ∈ (StateKey.of x ts).counts ↔ 0 < n ∧ ts.count t = n :=
  ⟨asked_lookUpAll calls, (noted_lookUpAll calls).answers, lookUpAll_prefix calls,
    fun _ _ _ _ => StateKey.of_eq_iff, fun _ _ _ _ => StateKey.mem_counts⟩

end StateStore

end InteractiveMarkov
