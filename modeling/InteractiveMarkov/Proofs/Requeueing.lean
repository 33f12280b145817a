import InteractiveMarkov.Proofs.Sweep
import Mathlib.Logic.Relation

/-!
# States that are queued again

A sweep queues a state when it is first reached and again when it becomes timed, perhaps while the
state still waits. The queue grows by one only with the visited or the timed states, and timed
states are visited, so that no more than two turns are taken for each visited state. A turn
explores its state only if what is known of the state has changed since, and that changes once.
-/

set_option autoImplicit false

namespace InteractiveMarkov

namespace Sweep

def explorations (sweep : Sweep) (s : StateId) : List Bool :=
  (sweep.visits.toList.filter (·.state = s)).map (·.timed)

/-- The loop of a sweep at its head: what was found so far, and how many states were taken off the
    queue. -/
structure Head where
  sweep : Sweep
  taken : Nat

namespace Head

def start (initial : StateId) : Head := ⟨.start initial, 0⟩

def waiting (head : Head) : List StateId := head.sweep.queue.toList.drop head.taken

end Head

/-- A turn of the loop takes the first state off the queue. The state is passed over if it was last
    explored with what is known of it now. -/
inductive Turn (steps : StateMap (List Step)) (head : Head) : Head → Prop
  | skip {s : StateId} {rest : List StateId} : head.waiting = s :: rest →
      head.sweep.explored[s]? = some (head.sweep.timed.contains s) →
      Turn steps head ⟨head.sweep, head.taken + 1⟩
  | explore {s : StateId} {rest : List StateId} : head.waiting = s :: rest →
      head.sweep.explored[s]? ≠ some (head.sweep.timed.contains s) →
      Turn steps head ⟨head.sweep.explore s (head.sweep.timed.contains s) (steps.getD s []),
        head.taken + 1⟩

abbrev Turns (steps : StateMap (List Step)) : Head → Head → Prop :=
  Relation.ReflTransGen (Turn steps)

/-- What holds at every head of the loop. No state is explored twice with the same knowledge, nor
    as not timed after it was explored as timed. -/
structure Head.Steady (head : Head) : Prop where
  taken : head.taken ≤ 2 * head.sweep.visited.size
  explorations : ∀ s, (head.sweep.explorations s).Sublist [false, true]
  pending : ∀ s ∈ head.sweep.visited,
    s ∈ head.waiting ∨ (head.sweep.explorations s).getLast? = some (head.sweep.timed.contains s)

/-- The loop comes to an end from every head that it reaches, which is steady, and a state that is
    timed at one head is so at all later ones. -/
structure Ends (steps : StateMap (List Step)) (initial : StateId) (last : Head) : Prop where
  reached : Turns steps (.start initial) last
  empty : last.waiting = []
  inevitable : ∀ head, Turns steps (.start initial) head → Turns steps head last
  steady : ∀ head, Turns steps (.start initial) head → head.Steady
  timed : ∀ head later, Turns steps (.start initial) head → Turns steps head later →
    ∀ s ∈ head.sweep.timed, s ∈ later.sweep.timed

variable {steps : StateMap (List Step)} {initial : StateId} {sweep : Sweep}
  {entry : StateId × Bool} {entered : List (StateId × Bool)} {head next last : Head}
  {s t : StateId} {b : Bool}

/-- Each place of the queue is paid for by a visited or a timed state. -/
def Paid (sweep : Sweep) : Prop := sweep.queue.size ≤ sweep.visited.size + sweep.timed.size

theorem paid_start (initial : StateId) : (start initial).Paid :=
  Nat.le_of_eq rfl

theorem Paid.enter (h : sweep.Paid) : (sweep.enter entry).Paid := by
  unfold Sweep.enter
  split
  · rename_i hnew
    have hvisited : sweep.visited.size ≤ (sweep.visited.insert entry.1).size :=
      Std.ExtTreeSet.size_le_size_insert
    have htimed : (sweep.timed.insert entry.1).size = sweep.timed.size + 1 := by
      rw [Std.ExtTreeSet.size_insert, if_neg (mt Std.ExtTreeSet.contains_iff_mem.1 hnew.2)]
    simp only [Paid, Array.size_push] at h ⊢
    omega
  · split
    · rename_i hnew
      have hvisited : (sweep.visited.insert entry.1).size = sweep.visited.size + 1 := by
        rw [Std.ExtTreeSet.size_insert, if_neg (mt Std.ExtTreeSet.contains_iff_mem.1 hnew)]
      simp only [Paid, Array.size_push] at h ⊢
      omega
    · exact h

theorem Paid.enterAll (h : sweep.Paid) : (sweep.enterAll entered).Paid := by
  induction entered generalizing sweep with
  | nil => exact h
  | cons entry rest ih => exact ih h.enter

theorem Paid.advance (h : sweep.Paid) : (sweep.advance steps s).Paid := by
  rcases advance_cases steps sweep s with ⟨-, hsame⟩ | ⟨-, hsame⟩
  · rwa [hsame]
  · rw [hsame]
    have hnote : (sweep.note s (sweep.timed.contains s)).Paid := h
    exact hnote.enterAll

theorem explorations_note : (sweep.note s b).explorations t =
    sweep.explorations t ++ if s = t then [b] else [] := by
  rw [explorations, explorations, note, Array.toList_push, List.filter_append, List.map_append]
  by_cases h : s = t <;> simp [h]

theorem explorations_enterAll : (sweep.enterAll entered).explorations t = sweep.explorations t := by
  rw [explorations, explorations, visits_enterAll]

theorem Recorded.mem_timed (h : sweep.Recorded) (hs : true ∈ sweep.explorations s) :
    s ∈ sweep.timed := by
  obtain ⟨visit, hvisit, htimed⟩ := List.mem_map.1 hs
  obtain ⟨hmem, hstate⟩ := List.mem_filter.1 hvisit
  exact of_decide_eq_true hstate ▸ h.timed visit hmem htimed

theorem sublist_concat {log : List Bool} (h : log.Sublist [false, true])
    (hlast : log.getLast? ≠ some b) (htimed : true ∈ log → b = true) :
    (log ++ [b]).Sublist [false, true] := by
  obtain ⟨before, after, rfl, hbefore, hafter⟩ : ∃ before after, log = before ++ after ∧
      before.Sublist [false] ∧ after.Sublist [true] := List.sublist_append_iff.1 h
  rcases List.sublist_singleton.1 hafter with rfl | rfl
  · rw [List.append_nil] at hlast ⊢
    cases b with
    | true => exact hbefore.append (List.Sublist.refl [true])
    | false =>
      rcases List.sublist_singleton.1 hbefore with rfl | rfl
      · exact List.sublist_append_left [false] [true]
      · exact absurd rfl hlast
  · obtain rfl : b = true := htimed (by simp)
    exact absurd (by simp) hlast

structure Explores (sweep : Sweep) : Prop where
  sublist : ∀ s, (sweep.explorations s).Sublist [false, true]
  last : ∀ s, (sweep.explorations s).getLast? = sweep.explored[s]?

theorem explores_start (initial : StateId) : (start initial).Explores where
  sublist s := by simp [explorations, start]
  last s := by simp [explorations, start]

theorem Explores.note (h : sweep.Explores) (hrecorded : sweep.Recorded)
    (hnew : sweep.explored[s]? ≠ some (sweep.timed.contains s)) :
    (sweep.note s (sweep.timed.contains s)).Explores := by
  refine ⟨fun t => ?_, fun t => ?_⟩
  · rw [explorations_note]
    split
    · rename_i heq
      subst heq
      exact sublist_concat (h.sublist s) ((h.last s).symm ▸ hnew) fun htrue =>
        Std.ExtTreeSet.contains_iff_mem.2 (hrecorded.mem_timed htrue)
    · rw [List.append_nil]
      exact h.sublist t
  · rw [explorations_note, Sweep.note, Std.ExtTreeMap.getElem?_insert, List.getLast?_append, h.last]
    simp only [Std.LawfulEqCmp.compare_eq_iff_eq]
    split <;> rfl

theorem Explores.enterAll (h : sweep.Explores) : (sweep.enterAll entered).Explores where
  sublist s := by
    rw [explorations_enterAll]
    exact h.sublist s
  last s := by
    rw [explorations_enterAll, explored_enterAll]
    exact h.last s

theorem Explores.advance (h : sweep.Explores) (hrecorded : sweep.Recorded) :
    (sweep.advance steps s).Explores := by
  rcases advance_cases steps sweep s with ⟨-, hsame⟩ | ⟨hnew, hsame⟩
  · rwa [hsame]
  · rw [hsame]
    exact (h.note hrecorded hnew).enterAll

theorem turn_advance {rest : List StateId} (h : head.waiting = s :: rest) :
    Turn steps head ⟨head.sweep.advance steps s, head.taken + 1⟩ := by
  rcases advance_cases steps head.sweep s with ⟨hdone, hsame⟩ | ⟨hnew, hsame⟩
  · rw [hsame]
    exact .skip h hdone
  · rw [hsame]
    exact .explore h hnew

theorem Turn.advance (h : Turn steps head next) : ∃ s rest, head.waiting = s :: rest ∧
    next = ⟨head.sweep.advance steps s, head.taken + 1⟩ := by
  cases h with
  | skip hwaiting hdone => exact ⟨_, _, hwaiting, by rw [Sweep.advance, if_pos hdone]⟩
  | explore hwaiting hnew => exact ⟨_, _, hwaiting, by rw [Sweep.advance, if_neg hnew]⟩

theorem Turn.place (h : Turn steps head next) : ∃ hplace : head.taken < head.sweep.queue.size,
    next = ⟨head.sweep.advance steps head.sweep.queue[head.taken], head.taken + 1⟩ := by
  obtain ⟨s, rest, hwaiting, rfl⟩ := h.advance
  have hplace : head.taken < head.sweep.queue.size := by
    by_contra hnot
    rw [Head.waiting, List.drop_of_length_le (by simpa using hnot)] at hwaiting
    cases hwaiting
  rw [Head.waiting, drop_place hplace, List.cons.injEq] at hwaiting
  exact ⟨hplace, by rw [hwaiting.1]⟩

theorem rightUnique_turn : Relator.RightUnique (Turn steps) := by
  intro head next other hnext hother
  obtain ⟨-, rfl⟩ := hnext.place
  obtain ⟨-, rfl⟩ := hother.place
  rfl

structure Head.Sound (steps : StateMap (List Step)) (head : Head) : Prop where
  covers : Covers steps head.sweep head.taken
  recorded : head.sweep.Recorded
  explores : head.sweep.Explores
  paid : head.sweep.Paid
  taken : head.taken ≤ head.sweep.queue.size

theorem sound_start (steps : StateMap (List Step)) (initial : StateId) :
    (Head.start initial).Sound steps :=
  ⟨covers_start steps initial, recorded_start initial, explores_start initial, paid_start initial,
    Nat.zero_le _⟩

theorem Head.Sound.turn (h : head.Sound steps) (hturn : Turn steps head next) :
    next.Sound steps := by
  obtain ⟨hplace, rfl⟩ := hturn.place
  have hgrows := (head.sweep.advance_bound steps head.sweep.queue[head.taken]).1
  exact ⟨h.covers.advance hplace, h.recorded.advance, h.explores.advance h.recorded,
    h.paid.advance, Nat.le_trans hplace hgrows⟩

theorem Head.Sound.steady (h : head.Sound steps) : head.Steady := by
  have htimed : head.sweep.timed.size ≤ head.sweep.visited.size := size_le_size h.covers.timed
  refine ⟨?_, h.explores.sublist, fun s hs => ?_⟩
  · calc head.taken ≤ head.sweep.queue.size := h.taken
      _ ≤ head.sweep.visited.size + head.sweep.timed.size := h.paid
      _ ≤ 2 * head.sweep.visited.size := by omega
  · rw [h.explores.last]
    exact h.covers.pending s hs

theorem Turn.timed (h : Turn steps head next) (hs : s ∈ head.sweep.timed) :
    s ∈ next.sweep.timed := by
  obtain ⟨-, rfl⟩ := h.place
  exact timed_advance hs

theorem Turns.sound (h : Turns steps head next) (hhead : head.Sound steps) : next.Sound steps := by
  induction h with
  | refl => exact hhead
  | tail _ hturn ih => exact ih.turn hturn

theorem Turns.timed (h : Turns steps head next) (hs : s ∈ head.sweep.timed) :
    s ∈ next.sweep.timed := by
  induction h with
  | refl => exact hs
  | tail _ hturn ih => exact hturn.timed ih

theorem turns_run (steps : StateMap (List Step)) (sweep : Sweep) (place : Nat) :
    ∃ last : Head, Turns steps ⟨sweep, place⟩ last ∧ last.waiting = [] ∧
      last.sweep = sweep.run steps place := by
  fun_induction Sweep.run steps sweep place with
  | case1 sweep place hplace ih =>
    obtain ⟨last, hturns, hempty, hlast⟩ := ih
    have hturn : Turn steps ⟨sweep, place⟩ ⟨sweep.advance steps sweep.queue[place], place + 1⟩ :=
      turn_advance (drop_place hplace)
    exact ⟨last, .head hturn hturns, hempty, hlast⟩
  | case2 sweep place hdone =>
    exact ⟨⟨sweep, place⟩, .refl, List.drop_of_length_le (by simpa using hdone), rfl⟩

theorem Turns.inevitable (h : Turns steps head next) (hlast : Turns steps head last)
    (hempty : last.waiting = []) : Turns steps next last := by
  rcases h.total_of_right_unique rightUnique_turn hlast with hway | hway
  · exact hway
  · rcases hway.cases_head with rfl | ⟨after, hturn, -⟩
    · exact .refl
    · obtain ⟨s, rest, hwaiting, -⟩ := hturn.advance
      rw [hempty] at hwaiting
      cases hwaiting

theorem exists_ends (steps : StateMap (List Step)) (initial : StateId) : ∃ last : Head,
    Ends steps initial last ∧ last.sweep = (start initial).run steps 0 := by
  obtain ⟨last, hturns, hempty, hlast⟩ := turns_run steps (start initial) 0
  have hstart : (Head.start initial).Sound steps := sound_start steps initial
  exact ⟨last, {
    reached := hturns
    empty := hempty
    inevitable := fun head hhead => Turns.inevitable hhead hturns hempty
    steady := fun head hhead => (Turns.sound hhead hstart).steady
    timed := fun head later _ hlater s hs => Turns.timed hlater hs }, hlast⟩

end Sweep

/-- Maximal progress ends although states are queued again, after at most two turns for each state
    that it visits. -/
theorem Automaton.maximalProgress_turns (a : Automaton) (names : Vocabulary) :
    ∃ last : Sweep.Head, Sweep.Ends (a.steps names) a.initial last ∧
      a.maximalProgress names = last.sweep.result (a.steps names) ∧
      last.taken ≤ 2 * (a.maximalProgress names).visited.size := by
  obtain ⟨last, hends, hlast⟩ := Sweep.exists_ends (a.steps names) a.initial
  have hresult : a.maximalProgress names = last.sweep.result (a.steps names) := by
    rw [hlast]
    rfl
  exact ⟨last, hends, hresult, hresult ▸ (hends.steady last hends.reached).taken⟩

end InteractiveMarkov
