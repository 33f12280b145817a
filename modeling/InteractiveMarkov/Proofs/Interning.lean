import InteractiveMarkov.Proofs.HashConsing

set_option autoImplicit false

namespace InteractiveMarkov

/-- The numbers handed out and the states kept while the states interned are those of a list. -/
structure Interned (key : StateId → StateKey) (states : List StateId) (store : StateStore)
    (numbers : StateMap Nat) : Prop where
  numbers : ∀ s : StateId, numbers[s]? = if s ∈ states then store.index[key s]? else none
  known : ∀ s ∈ states, ∃ n : Nat, store.index[key s]? = some n
  kept : ∀ (k : StateKey) (n : Nat), store.index[k]? = some n →
    ∃ s : StateId, store.origins[n]? = some s ∧ states.find? (key · = k) = some s
  filled : ∀ n < store.size, ∃ k : StateKey, store.index[k]? = some n

variable {key : StateId → StateKey} {states : List StateId} {store : StateStore}
  {numbers : StateMap Nat} {s t : StateId}

theorem interned_empty (key : StateId → StateKey) : Interned key [] StateStore.empty ∅ where
  numbers s := by simp
  known s hs := by simp at hs
  kept k n h := by simp [StateStore.empty] at h
  filled n h := by simp [StateStore.empty, StateStore.size] at h

def callsFor (key : StateId → StateKey) (states : List StateId) : List (StateId × StateKey) :=
  states.map fun s => (s, key s)

theorem find?_callsFor (key : StateId → StateKey) (states : List StateId) (k : StateKey) :
    (callsFor key states).find? (·.2 = k) =
      (states.find? (key · = k)).map fun s => (s, key s) :=
  List.find?_map ..

theorem Interned.holds (h : Interned key states store numbers) :
    store.Holds (callsFor key states) where
  known call hcall := by
    obtain ⟨s, hs, rfl⟩ := List.mem_map.1 hcall
    exact h.known s hs
  kept k n hk := by
    obtain ⟨s, horigin, hfind⟩ := h.kept k n hk
    have hkey : key s = k := by simpa using List.find?_some hfind
    exact ⟨s, horigin, by rw [find?_callsFor, hfind, Option.map_some, hkey]⟩
  filled := h.filled
  distinct k l n hk hl := by
    obtain ⟨s, horigin, hfind⟩ := h.kept k n hk
    obtain ⟨t, hother, hlast⟩ := h.kept l n hl
    obtain rfl : s = t := Option.some.inj (horigin.symm.trans hother)
    have hkey : key s = k := by simpa using List.find?_some hfind
    have hkey' : key s = l := by simpa using List.find?_some hlast
    exact hkey.symm.trans hkey'

theorem interned_of_holds (h : store.Holds (callsFor key states))
    (hnumbers : ∀ s : StateId, numbers[s]? = if s ∈ states then store.index[key s]? else none) :
    Interned key states store numbers where
  numbers := hnumbers
  known s hs := h.known (s, key s) (List.mem_map_of_mem hs)
  kept k n hk := by
    obtain ⟨s, horigin, hfind⟩ := h.kept k n hk
    rw [find?_callsFor] at hfind
    obtain ⟨t, ht, heq⟩ := Option.map_eq_some_iff.1 hfind
    obtain ⟨rfl, -⟩ := Prod.mk.inj heq
    exact ⟨_, horigin, ht⟩
  filled := h.filled

theorem Interned.intern (h : Interned key states store numbers) (s : StateId) :
    Interned key (states ++ [s]) (store.intern s (key s)).1
      (numbers.insert s (store.intern s (key s)).2.1) := by
  have hholds : (store.intern s (key s)).1.Holds (callsFor key (states ++ [s])) := by
    rw [callsFor, List.map_append]
    exact h.holds.intern s (key s)
  refine interned_of_holds hholds fun t => ?_
  rw [Std.ExtTreeMap.getElem?_insert, h.numbers]
  simp only [Std.LawfulEqCmp.compare_eq_iff_eq, List.mem_append, List.mem_singleton]
  cases hs : store.index[key s]? with
  | some number =>
    rw [StateStore.intern_known hs]
    by_cases ht : s = t
    · subst ht
      simp [hs]
    · simp [ht, Ne.symm ht]
  | none =>
    rw [StateStore.intern_new hs]
    dsimp only
    rw [StateStore.getElem?_insert_index]
    by_cases ht : s = t
    · subst ht
      simp
    · by_cases hin : t ∈ states
      · -- a new key is none of the earlier ones
        obtain ⟨n, hn⟩ := h.known t hin
        have hne : key s ≠ key t := by
          intro heq
          rw [heq, hn] at hs
          cases hs
        simp [ht, hin, hne]
      · simp [ht, hin, Ne.symm ht]

theorem interned_foldl (h : Interned key states store numbers) (rest : List StateId) :
    Interned key (states ++ rest)
      (rest.foldl (fun (store, numbers) s =>
        let (store, number, _) := store.intern s (key s)
        (store, numbers.insert s number)) (store, numbers)).1
      (rest.foldl (fun (store, numbers) s =>
        let (store, number, _) := store.intern s (key s)
        (store, numbers.insert s number)) (store, numbers)).2 := by
  induction rest generalizing states store numbers with
  | nil => simpa using h
  | cons s rest ih => simpa using ih (h.intern s)

theorem interned_internAll (key : StateId → StateKey) (states : List StateId) :
    Interned key states (internAll key states).1 (internAll key states).2 := by
  have h := interned_foldl (interned_empty key) states
  rwa [List.nil_append] at h

theorem Interned.number_eq_iff (h : Interned key states store numbers) (hs : s ∈ states)
    (ht : t ∈ states) : numbers[s]? = numbers[t]? ↔ key s = key t := by
  rw [h.numbers, h.numbers, if_pos hs, if_pos ht]
  constructor
  · intro heq
    obtain ⟨n, hn⟩ := h.known s hs
    exact h.holds.distinct _ _ n hn (heq ▸ hn)
  · intro heq
    rw [heq]

theorem Interned.isSome_iff (h : Interned key states store numbers) :
    numbers[s]?.isSome ↔ s ∈ states := by
  rw [h.numbers]
  by_cases hs : s ∈ states
  · obtain ⟨n, hn⟩ := h.known s hs
    simp [hs, hn]
  · simp [hs]

theorem Interned.origin_eq (h : Interned key states store numbers) (hs : s ∈ states) :
    numbers[s]?.bind store.origin? = states.find? (key · = key s) := by
  rw [h.numbers, if_pos hs]
  obtain ⟨n, hn⟩ := h.known s hs
  obtain ⟨r, horigin, hfind⟩ := h.kept _ n hn
  rw [hn, hfind]
  exact horigin

theorem Interned.size_eq (h : Interned key states store numbers) :
    store.size = (states.toFinset.image fun s => numbers[s]?).card := by
  have hkeys : ((callsFor key states).map (·.2)).toFinset = states.toFinset.image key := by
    ext k
    simp [callsFor]
  have himage : (states.toFinset.image fun s => numbers[s]?) =
      (states.toFinset.image key).image (store.index[·]?) := by
    rw [Finset.image_image]
    refine Finset.image_congr fun s hs => ?_
    exact (h.numbers s).trans (if_pos (List.mem_toFinset.1 hs))
  have hinjective : Set.InjOn (store.index[·]?) (states.toFinset.image key : Set StateKey) := by
    refine h.holds.injOn_index.mono fun k hk => ?_
    obtain ⟨s, hs, rfl⟩ := Finset.mem_image.1 hk
    exact ⟨(s, key s), List.mem_map_of_mem (List.mem_toFinset.1 hs), rfl⟩
  rw [himage, Finset.card_image_of_injOn hinjective, ← hkeys, ← h.holds.size_eq]

end InteractiveMarkov
