import InteractiveMarkov.Traversal
import Mathlib.Data.List.Infix
import Mathlib.Data.PFun
import Mathlib.Logic.Relation

set_option autoImplicit false

namespace InteractiveMarkov

def Moves.Leads (moves : Moves) : StateId → StateId → Prop :=
  Relation.ReflTransGen fun s t => t ∈ moves.after s

/-- Every state of the list is a seed, or some state before it moves to it. -/
def Grounded (moves : Moves) (seeds order : List StateId) : Prop :=
  ∀ before s behind, order = before ++ s :: behind →
    s ∈ seeds ∨ ∃ r ∈ before, s ∈ moves.after r

theorem grounded_nil (moves : Moves) (seeds : List StateId) : Grounded moves seeds [] := by
  intro before s behind h
  simp at h

theorem grounded_snoc {moves : Moves} {seeds order : List StateId} {s : StateId}
    (h : Grounded moves seeds order) (hs : s ∈ seeds ∨ ∃ r ∈ order, s ∈ moves.after r) :
    Grounded moves seeds (order ++ [s]) := by
  intro before t behind heq
  rcases List.eq_nil_or_concat behind with rfl | ⟨init, last, rfl⟩
  · obtain ⟨rfl, hlast⟩ := List.append_inj' heq rfl
    obtain rfl : s = t := by simpa using hlast
    exact hs
  · have hsplit : order ++ [s] = (before ++ t :: init) ++ [last] := by
      rw [heq]
      simp
    exact h before t init (List.append_inj' hsplit rfl).1

theorem leads_of_grounded {moves : Moves} {seeds order : List StateId}
    (h : Grounded moves seeds order) : ∀ s ∈ order, ∃ seed ∈ seeds, moves.Leads seed s := by
  induction order using List.reverseRecOn with
  | nil =>
    intro s hs
    simp at hs
  | append_singleton order last ih =>
    have hinit : Grounded moves seeds order := by
      intro before s behind heq
      exact h before s (behind ++ [last]) (by simp [heq])
    intro s hs
    rcases List.mem_append.1 hs with hs | hs
    · exact ih hinit s hs
    · obtain rfl : s = last := by simpa using hs
      rcases h order s [] rfl with hseed | ⟨r, hr, hmove⟩
      · exact ⟨s, hseed, .refl⟩
      · obtain ⟨seed, hseed, hlead⟩ := ih hinit r hr
        exact ⟨seed, hseed, hlead.tail hmove⟩

theorem drop_prefix_eq {l m : List StateId} (h : l <+: m) {n : Nat} (hn : n < l.length) :
    m.drop n = l[n] :: m.drop (n + 1) := by
  obtain ⟨tail, rfl⟩ := h
  rw [List.drop_eq_getElem_cons (by simp; omega), List.getElem_append_left hn]

namespace Search

theorem mem_seen_meet (search : Search) (s t : StateId) :
    t ∈ (search.meet s).seen ↔ t = s ∨ t ∈ search.seen := by
  unfold meet
  split
  · rename_i hs
    constructor
    · exact Or.inr
    · rintro (rfl | ht)
      · exact hs
      · exact ht
  · simp only [Std.ExtTreeSet.mem_insert, Std.LawfulEqCmp.compare_eq_iff_eq]
    exact or_congr_left eq_comm

theorem mem_seen_meetAll (search : Search) (states : List StateId) (t : StateId) :
    t ∈ (search.meetAll states).seen ↔ t ∈ states ∨ t ∈ search.seen := by
  induction states generalizing search with
  | nil => simp [meetAll]
  | cons s rest ih =>
    have hstep := ih (search.meet s)
    rw [mem_seen_meet] at hstep
    rw [List.mem_cons, or_assoc, or_left_comm]
    exact hstep

theorem meet_prefix (search : Search) (s : StateId) :
    search.order.toList <+: (search.meet s).order.toList := by
  unfold meet
  split
  · exact List.prefix_rfl
  · simp

theorem meetAll_prefix (search : Search) (states : List StateId) :
    search.order.toList <+: (search.meetAll states).order.toList := by
  induction states generalizing search with
  | nil => exact List.prefix_rfl
  | cons s rest ih => exact (search.meet_prefix s).trans (ih (search.meet s))

theorem order_meetAll {search : Search} {states : List StateId}
    (hseen : ∀ s, s ∈ search.seen ↔ s ∈ search.order.toList)
    (hnew : (search.order.toList ++ states).Nodup) :
    (search.meetAll states).order.toList = search.order.toList ++ states := by
  induction states generalizing search with
  | nil => exact (List.append_nil _).symm
  | cons s rest ih =>
    have hfresh : s ∉ search.seen := by
      rw [hseen]
      exact fun hmem => (List.nodup_append.1 hnew).2.2 s hmem s List.mem_cons_self rfl
    have hnext : (search.meet s).order.toList = search.order.toList ++ [s] := by
      rw [meet, if_neg hfresh, Array.toList_push]
    have hsplit : search.order.toList ++ s :: rest = (search.meet s).order.toList ++ rest := by
      rw [hnext, List.append_assoc]
      rfl
    rw [hsplit] at hnew ⊢
    refine ih (fun t => ?_) hnew
    rw [mem_seen_meet, hnext, hseen, List.mem_append, List.mem_singleton, or_comm]

/-- The met states stand once in the order, each behind a state that moves to it. -/
structure Sound (moves : Moves) (seeds : List StateId) (search : Search) : Prop where
  nodup : search.order.toList.Nodup
  seen : ∀ s, s ∈ search.seen ↔ s ∈ search.order.toList
  grounded : Grounded moves seeds search.order.toList

theorem sound_start (moves : Moves) (seeds : List StateId) : Sound moves seeds start where
  nodup := List.nodup_nil
  seen s := by simp [start]
  grounded := grounded_nil moves seeds

theorem Sound.meet {moves : Moves} {seeds : List StateId} {search : Search} {s : StateId}
    (h : Sound moves seeds search)
    (hs : s ∈ seeds ∨ ∃ r ∈ search.order.toList, s ∈ moves.after r) :
    Sound moves seeds (search.meet s) := by
  unfold Search.meet
  split
  · exact h
  · rename_i hnew
    have hfresh : s ∉ search.order.toList := fun hmem => hnew ((h.seen s).2 hmem)
    refine ⟨?_, ?_, ?_⟩
    · rw [Array.toList_push]
      refine List.nodup_append.2 ⟨h.nodup, List.pairwise_singleton _ s, fun a ha b hb heq => ?_⟩
      obtain rfl : b = s := by simpa using hb
      exact hfresh (heq ▸ ha)
    · intro t
      rw [Std.ExtTreeSet.mem_insert, Std.LawfulEqCmp.compare_eq_iff_eq, h.seen,
        Array.toList_push, List.mem_append, List.mem_singleton, or_comm, eq_comm]
    · rw [Array.toList_push]
      exact grounded_snoc h.grounded hs

theorem Sound.meetAll {moves : Moves} {seeds states : List StateId} {search : Search}
    (h : Sound moves seeds search)
    (hs : ∀ s ∈ states, s ∈ seeds ∨ ∃ r ∈ search.order.toList, s ∈ moves.after r) :
    Sound moves seeds (search.meetAll states) := by
  induction states generalizing search with
  | nil => exact h
  | cons s rest ih =>
    refine ih (h.meet (hs s List.mem_cons_self)) fun t ht => ?_
    refine (hs t (List.mem_cons_of_mem s ht)).imp_right ?_
    rintro ⟨r, hr, hmove⟩
    exact ⟨r, (search.meet_prefix s).mem hr, hmove⟩

def Expanded (moves : Moves) (search : Search) (place : Nat) : Prop :=
  ∀ r ∈ search.order.toList.take place, ∀ t ∈ moves.after r, t ∈ search.seen

theorem Expanded.advance {moves : Moves} {search : Search} {place : Nat}
    (h : Expanded moves search place) (hp : place < search.order.size) :
    Expanded moves (search.meetAll (moves.after search.order[place])) (place + 1) := by
  intro r hr t ht
  rw [mem_seen_meetAll]
  have hlen : place < search.order.toList.length := by simpa using hp
  obtain ⟨tail, htail⟩ := search.meetAll_prefix (moves.after search.order[place])
  rw [← htail, List.take_append_of_le_length hlen, List.take_succ_eq_append_getElem hlen,
    List.mem_append] at hr
  rcases hr with hr | hr
  · exact .inr (h r hr t ht)
  · obtain rfl : r = search.order[place] := by simpa using hr
    exact .inl ht

theorem run_sound {moves : Moves} {seeds : List StateId} (search : Search) (place : Nat)
    (h : Sound moves seeds search) (he : Expanded moves search place) :
    Sound moves seeds (search.run moves place) ∧
    Expanded moves (search.run moves place) (search.run moves place).order.size := by
  -- along the run: the invariant is that all states before `place` are expanded
  fun_induction Search.run moves search place with
  | case1 search place hp ih =>
    have hmem : search.order[place] ∈ search.order.toList := by simp
    have hsound : Sound moves seeds (search.meetAll (moves.after search.order[place])) :=
      h.meetAll fun s hs => .inr ⟨_, hmem, hs⟩
    exact ih hsound (he.advance hp)
  | case2 search place hp =>
    refine ⟨h, ?_⟩
    intro r hr
    refine he r ?_
    rw [List.take_of_length_le (by simpa using hp)]
    exact List.mem_of_mem_take hr

theorem order_prefix_run (moves : Moves) (search : Search) (place : Nat) :
    search.order.toList <+: (search.run moves place).order.toList := by
  fun_induction Search.run moves search place with
  | case1 search place hp ih => exact (search.meetAll_prefix _).trans ih
  | case2 search place hp => exact List.prefix_rfl

theorem run_congr {moves moves' : Moves} (search : Search) (place : Nat)
    (h : ∀ s ∈ (search.run moves place).order.toList, moves'.after s = moves.after s) :
    search.run moves' place = search.run moves place := by
  fun_induction Search.run moves search place with
  | case1 search place hp ih =>
    have hmem : search.order[place] ∈ search.order.toList := by simp
    have hnext := (search.meetAll_prefix (moves.after search.order[place])).trans
      (order_prefix_run moves _ (place + 1))
    rw [Search.run, dif_pos hp, h _ (hnext.mem hmem)]
    exact ih h
  | case2 search place hp => rw [Search.run, dif_neg hp]

end Search

theorem breadthFirst_run (moves : Moves) (seeds : List StateId) :
    (Search.start.meetAll seeds).Sound moves seeds ∧
    (Search.start.meetAll seeds).Expanded moves 0 := by
  refine ⟨(Search.sound_start moves seeds).meetAll fun s hs => .inl hs, ?_⟩
  intro r hr
  simp at hr

theorem nodup_breadthFirst (moves : Moves) (seeds : List StateId) :
    (breadthFirst moves seeds).Nodup :=
  (Search.run_sound _ 0 (breadthFirst_run moves seeds).1 (breadthFirst_run moves seeds).2).1.nodup

theorem grounded_breadthFirst (moves : Moves) (seeds : List StateId) :
    Grounded moves seeds (breadthFirst moves seeds) :=
  (Search.run_sound _ 0 (breadthFirst_run moves seeds).1
    (breadthFirst_run moves seeds).2).1.grounded

theorem seen_breadthFirst (moves : Moves) (seeds : List StateId) :
    ((Search.start.meetAll seeds).run moves 0).seen = .ofList (breadthFirst moves seeds) := by
  obtain ⟨hstart, hnone⟩ := breadthFirst_run moves seeds
  apply Std.ExtTreeSet.ext_mem
  intro s
  rw [(Search.run_sound _ 0 hstart hnone).1.seen]
  simp [Std.ExtTreeSet.mem_ofList, breadthFirst]

theorem mem_breadthFirst_of_move {moves : Moves} {seeds : List StateId} {s t : StateId}
    (hs : s ∈ breadthFirst moves seeds) (ht : t ∈ moves.after s) :
    t ∈ breadthFirst moves seeds := by
  obtain ⟨hstart, hnone⟩ := breadthFirst_run moves seeds
  obtain ⟨hsound, hexp⟩ := Search.run_sound _ 0 hstart hnone
  refine (hsound.seen t).1 (hexp s ?_ t ht)
  rw [List.take_of_length_le (by simp)]
  exact hs

theorem mem_breadthFirst_of_seed {moves : Moves} {seeds : List StateId} {s : StateId}
    (hs : s ∈ seeds) : s ∈ breadthFirst moves seeds := by
  refine (Search.order_prefix_run moves _ 0).mem (((breadthFirst_run moves seeds).1.seen s).1 ?_)
  exact (Search.mem_seen_meetAll _ _ _).2 (.inl hs)

theorem mem_breadthFirst {moves : Moves} {seeds : List StateId} {s : StateId} :
    s ∈ breadthFirst moves seeds ↔ ∃ seed ∈ seeds, moves.Leads seed s := by
  constructor
  · exact leads_of_grounded (grounded_breadthFirst moves seeds) s
  · rintro ⟨seed, hseed, hlead⟩
    induction hlead with
    | refl => exact mem_breadthFirst_of_seed hseed
    | tail _ hmove ih => exact mem_breadthFirst_of_move ih hmove

theorem breadthFirst_congr {moves moves' : Moves} {seeds : List StateId}
    (h : ∀ s ∈ breadthFirst moves seeds, moves'.after s = moves.after s) :
    breadthFirst moves' seeds = breadthFirst moves seeds :=
  congrArg (fun search => search.order.toList) (Search.run_congr _ 0 h)

section

variable {σ ρ : Type} {turn : σ → ρ ⊕ σ} {state next : σ} {result : ρ}

/-- Takes turns up to the first that gives a result. -/
def loop (turn : σ → ρ ⊕ σ) : σ →. ρ := PFun.fix (PFun.lift turn)

theorem loop_of_inl (h : turn state = .inl result) : loop turn state = .some result :=
  Part.eq_some_iff.2 (PFun.fix_stop (Part.mem_some_iff.2 h.symm))

theorem loop_of_inr (h : turn state = .inr next) : loop turn state = loop turn next :=
  PFun.fix_fwd_eq (Part.mem_some_iff.2 h.symm)

end

end InteractiveMarkov
