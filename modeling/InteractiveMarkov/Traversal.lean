import InteractiveMarkov.State

set_option autoImplicit false

namespace InteractiveMarkov

/-- The targets of the moves from each state, in order and with repetition. -/
abbrev Moves := StateMap (List StateId)

namespace Moves

def after (moves : Moves) (s : StateId) : List StateId := moves.getD s []

def targets (moves : Moves) : List StateId := moves.toList.flatMap (·.2)

theorem mem_targets {moves : Moves} {s t : StateId} (h : t ∈ moves.after s) :
    t ∈ moves.targets := by
  unfold Moves.after at h
  rw [Std.ExtTreeMap.getD_eq_getD_getElem?] at h
  cases hs : moves[s]? with
  | none => simp [hs] at h
  | some ts =>
    rw [hs] at h
    exact List.mem_flatMap.2 ⟨(s, ts), Std.ExtTreeMap.mem_toList_iff_getElem?_eq_some.2 hs, h⟩

end Moves

def missing (ts : List StateId) (seen : StateSet) : Nat := ts.countP (· ∉ seen)

theorem missing_insert_le (ts : List StateId) (seen : StateSet) (t : StateId) :
    missing ts (seen.insert t) ≤ missing ts seen := by
  refine List.countP_mono_left fun u _ hu => ?_
  simp only [decide_eq_true_eq, Std.ExtTreeSet.mem_insert, not_or] at hu ⊢
  exact hu.2

theorem missing_insert_lt {ts : List StateId} {seen : StateSet} {t : StateId}
    (ht : t ∈ ts) (hs : t ∉ seen) : missing ts (seen.insert t) < missing ts seen := by
  induction ts with
  | nil => simp at ht
  | cons u us ih =>
    have hle := missing_insert_le us seen t
    by_cases hu : u = t
    · subst hu
      simp [missing, hs] at hle ⊢
      omega
    · have hmem : t ∈ us := by simpa [Ne.symm hu] using ht
      have hlt := ih hmem
      have hiff : u ∈ seen.insert t ↔ u ∈ seen := by
        simp [Std.ExtTreeSet.mem_insert, Ne.symm hu]
      simp only [missing, List.countP_cons, hiff] at hlt ⊢
      omega

structure Search where
  order : Array StateId
  seen : StateSet

namespace Search

def start : Search := ⟨#[], ∅⟩

def meet (search : Search) (s : StateId) : Search :=
  if s ∈ search.seen then search else ⟨search.order.push s, search.seen.insert s⟩

def meetAll (search : Search) (states : List StateId) : Search := states.foldl meet search

theorem size_meetAll (search : Search) (states : List StateId) :
    search.order.size ≤ (search.meetAll states).order.size := by
  induction states generalizing search with
  | nil => exact Nat.le_refl _
  | cons s rest ih =>
    refine Nat.le_trans ?_ (ih (search.meet s))
    unfold meet
    split <;> simp

/-- Meeting targets of moves trades unmet targets for met states. -/
theorem missing_meetAll (moves : List StateId) (search : Search) (states : List StateId)
    (h : ∀ s ∈ states, s ∈ moves) :
    missing moves (search.meetAll states).seen + (search.meetAll states).order.size
      ≤ missing moves search.seen + search.order.size := by
  induction states generalizing search with
  | nil => exact Nat.le_refl _
  | cons s rest ih =>
    refine Nat.le_trans (ih (search.meet s) fun t ht => h t (List.mem_cons_of_mem s ht)) ?_
    unfold meet
    split
    · exact Nat.le_refl _
    · rename_i hs
      have := missing_insert_lt (h s (List.mem_cons_self ..)) hs
      simp only [Array.size_push]
      omega

def run (moves : Moves) (search : Search) (place : Nat) : Search :=
  if h : place < search.order.size then
    run moves (search.meetAll (moves.after search.order[place])) (place + 1)
  else search
termination_by missing moves.targets search.seen + (search.order.size - place)
decreasing_by
  have hsize := search.size_meetAll (moves.after search.order[place])
  have hmiss := missing_meetAll moves.targets search (moves.after search.order[place])
    fun t ht => Moves.mem_targets ht
  omega

end Search

/-- The states that can be reached from the seeds, each once, in the order in which a
    breadth-first search meets them. -/
def breadthFirst (moves : Moves) (seeds : List StateId) : List StateId :=
  ((Search.start.meetAll seeds).run moves 0).order.toList

end InteractiveMarkov
