import InteractiveMarkov.MaximalProgress
import InteractiveMarkov.Proofs.Numbering

/-!
# What a sweep finds

A sweep explores a state again when it learns that the state is timed. At every place of the queue
each visited state is still to come or was last explored with what is known of it, and what was
entered from an explored state is known. At the end of the queue both hold of all visited states.
-/

set_option autoImplicit false

namespace InteractiveMarkov

namespace Sweep

variable {steps : StateMap (List Step)} {sweep : Sweep} {entry : StateId × Bool}
  {entered : List (StateId × Bool)} {place : Nat} {s t : StateId}

/-! ## Entering states -/

theorem mem_visited_enter : t ∈ (sweep.enter entry).visited ↔ t = entry.1 ∨ t ∈ sweep.visited := by
  unfold enter
  split
  · rw [Std.ExtTreeSet.mem_insert, Std.LawfulEqCmp.compare_eq_iff_eq, eq_comm]
  · split
    · rw [Std.ExtTreeSet.mem_insert, Std.LawfulEqCmp.compare_eq_iff_eq, eq_comm]
    · rename_i hvisited
      refine ⟨Or.inr, ?_⟩
      rintro (rfl | ht)
      · exact not_not.1 hvisited
      · exact ht

theorem mem_timed_enter :
    t ∈ (sweep.enter entry).timed ↔ entry.2 = true ∧ t = entry.1 ∨ t ∈ sweep.timed := by
  unfold enter
  split
  · rename_i hnew
    rw [Std.ExtTreeSet.mem_insert, Std.LawfulEqCmp.compare_eq_iff_eq, eq_comm]
    simp [hnew.1]
  · rename_i hold
    have hknown : entry.2 = true → entry.1 ∈ sweep.timed := fun h =>
      not_not.1 fun hnot => hold ⟨h, hnot⟩
    have hsame : t ∈ sweep.timed ↔ entry.2 = true ∧ t = entry.1 ∨ t ∈ sweep.timed := by
      refine ⟨Or.inr, ?_⟩
      rintro (⟨h, rfl⟩ | ht)
      · exact hknown h
      · exact ht
    split <;> exact hsame

theorem explored_enter : (sweep.enter entry).explored = sweep.explored := by
  unfold enter
  split
  · rfl
  · split <;> rfl

theorem mem_visited_enterAll :
    t ∈ (sweep.enterAll entered).visited ↔ (∃ entry ∈ entered, entry.1 = t) ∨ t ∈ sweep.visited := by
  induction entered generalizing sweep with
  | nil => simp [enterAll]
  | cons entry rest ih =>
    have hstep := @ih (sweep.enter entry)
    rw [mem_visited_enter] at hstep
    refine hstep.trans ?_
    rw [List.exists_mem_cons_iff, or_assoc, or_left_comm, eq_comm (a := t)]

theorem mem_timed_enterAll :
    t ∈ (sweep.enterAll entered).timed ↔ (t, true) ∈ entered ∨ t ∈ sweep.timed := by
  induction entered generalizing sweep with
  | nil => simp [enterAll]
  | cons entry rest ih =>
    have hstep := @ih (sweep.enter entry)
    rw [mem_timed_enter] at hstep
    refine hstep.trans ?_
    rw [List.mem_cons, Prod.ext_iff, or_assoc, or_left_comm, and_comm,
      eq_comm (a := true)]

theorem explored_enterAll : (sweep.enterAll entered).explored = sweep.explored := by
  induction entered generalizing sweep with
  | nil => rfl
  | cons entry rest ih => exact (@ih (sweep.enter entry)).trans explored_enter

theorem visits_enter : (sweep.enter entry).visits = sweep.visits := by
  unfold enter
  split
  · rfl
  · split <;> rfl

theorem visits_enterAll : (sweep.enterAll entered).visits = sweep.visits := by
  induction entered generalizing sweep with
  | nil => rfl
  | cons entry rest ih => exact (@ih (sweep.enter entry)).trans visits_enter

/-- What became visited or timed on the way from one sweep to another was queued on it. -/
def Queues (sweep after : Sweep) : Prop :=
  ∃ added, after.queue.toList = sweep.queue.toList ++ added ∧ (∀ t ∈ added, t ∈ after.visited) ∧
    ∀ t ∈ after.visited, t ∈ added ∨ t ∈ sweep.visited ∧ (t ∈ after.timed → t ∈ sweep.timed)

theorem queues_enter : sweep.Queues (sweep.enter entry) := by
  have hvisited : ∀ t, t ∈ (sweep.enter entry).visited ↔ t = entry.1 ∨ t ∈ sweep.visited :=
    fun t => mem_visited_enter
  have htimed : ∀ t, t ∈ (sweep.enter entry).timed ↔
      entry.2 = true ∧ t = entry.1 ∨ t ∈ sweep.timed := fun t => mem_timed_enter
  by_cases hflag : entry.2 = true ∧ entry.1 ∉ sweep.timed
  · refine ⟨[entry.1], by simp [enter, hflag], by simp [hvisited], fun t ht => ?_⟩
    rcases (hvisited t).1 ht with rfl | ht
    · exact .inl (List.mem_singleton_self _)
    · by_cases heq : t = entry.1
      · exact .inl (List.mem_singleton.2 heq)
      · exact .inr ⟨ht, fun h => ((htimed t).1 h).resolve_left fun h => heq h.2⟩
  · have hknown : ∀ t, t ∈ (sweep.enter entry).timed → t ∈ sweep.timed := by
      intro t ht
      rcases (htimed t).1 ht with ⟨h, rfl⟩ | ht
      · exact not_not.1 fun hnot => hflag ⟨h, hnot⟩
      · exact ht
    by_cases hnew : entry.1 ∉ sweep.visited
    · refine ⟨[entry.1], by simp [enter, hflag, hnew], by simp [hvisited], fun t ht => ?_⟩
      rcases (hvisited t).1 ht with rfl | ht
      · exact .inl (List.mem_singleton_self _)
      · exact .inr ⟨ht, hknown t⟩
    · refine ⟨[], by simp [enter, hflag, hnew], by simp, fun t ht => .inr ⟨?_, hknown t⟩⟩
      rcases (hvisited t).1 ht with rfl | ht
      · exact not_not.1 hnew
      · exact ht

theorem Queues.trans {after last : Sweep} (h : sweep.Queues after) (hnext : after.Queues last)
    (hstay : ∀ t ∈ after.visited, t ∈ last.visited) : sweep.Queues last := by
  obtain ⟨added, hqueue, hin, hnew⟩ := h
  obtain ⟨more, hmore, hlast, hfresh⟩ := hnext
  refine ⟨added ++ more, by rw [hmore, hqueue, List.append_assoc], fun t ht => ?_, fun t ht => ?_⟩
  · rcases List.mem_append.1 ht with ht | ht
    · exact hstay t (hin t ht)
    · exact hlast t ht
  · rcases hfresh t ht with ht | ⟨hvisited, htimed⟩
    · exact .inl (List.mem_append_right _ ht)
    · rcases hnew t hvisited with ht | ⟨hold, hkept⟩
      · exact .inl (List.mem_append_left _ ht)
      · exact .inr ⟨hold, fun h => hkept (htimed h)⟩

theorem queues_enterAll : sweep.Queues (sweep.enterAll entered) := by
  induction entered generalizing sweep with
  | nil => exact ⟨[], by simp [enterAll], by simp, fun t ht => .inr ⟨ht, id⟩⟩
  | cons entry rest ih =>
    refine queues_enter.trans (@ih (sweep.enter entry)) fun t ht => ?_
    exact (show t ∈ ((sweep.enter entry).enterAll rest).visited from
      mem_visited_enterAll.2 (.inr ht))

/-! ## Turns of the loop -/

theorem advance_cases (steps : StateMap (List Step)) (sweep : Sweep) (s : StateId) :
    (sweep.explored[s]? = some (sweep.timed.contains s) ∧ sweep.advance steps s = sweep) ∨
    (sweep.explored[s]? ≠ some (sweep.timed.contains s) ∧ sweep.advance steps s =
      sweep.explore s (sweep.timed.contains s) (steps.getD s [])) := by
  by_cases hdone : sweep.explored[s]? = some (sweep.timed.contains s)
  · exact .inl ⟨hdone, by rw [advance, if_pos hdone]⟩
  · exact .inr ⟨hdone, by rw [advance, if_neg hdone]⟩

theorem visited_advance (ht : t ∈ sweep.visited) : t ∈ (sweep.advance steps s).visited := by
  rcases advance_cases steps sweep s with ⟨-, hsame⟩ | ⟨-, hsame⟩
  · rwa [hsame]
  · rw [hsame]
    exact mem_visited_enterAll.2 (.inr ht)

theorem timed_advance (ht : t ∈ sweep.timed) : t ∈ (sweep.advance steps s).timed := by
  rcases advance_cases steps sweep s with ⟨-, hsame⟩ | ⟨-, hsame⟩
  · rwa [hsame]
  · rw [hsame]
    exact mem_timed_enterAll.2 (.inr ht)

theorem run_keeps {P : Sweep → Prop} (h : P sweep) (hturn : ∀ (sweep : Sweep) (s : StateId),
    P sweep → s ∈ sweep.queue.toList → P (sweep.advance steps s)) :
    P (sweep.run steps place) := by
  fun_induction Sweep.run steps sweep place with
  | case1 sweep place hp ih => exact ih (hturn sweep sweep.queue[place] h (by simp))
  | case2 sweep place hp => exact h

/-! ## Along the queue -/

/-- What holds while the queue is explored up to the given place. -/
structure Covers (steps : StateMap (List Step)) (sweep : Sweep) (place : Nat) : Prop where
  queued : ∀ s ∈ sweep.queue.toList, s ∈ sweep.visited
  explored : ∀ s ∈ sweep.explored, s ∈ sweep.visited
  timed : ∀ s ∈ sweep.timed, s ∈ sweep.visited
  pending : ∀ s ∈ sweep.visited,
    s ∈ sweep.queue.toList.drop place ∨ sweep.explored[s]? = some (sweep.timed.contains s)
  closed : ∀ (s : StateId) (timed : Bool), sweep.explored[s]? = some timed →
    ∀ entry ∈ entries timed (steps.getD s []),
      entry.1 ∈ sweep.visited ∧ (entry.2 = true → entry.1 ∈ sweep.timed)

theorem mem_visited_start {initial : StateId} : t ∈ (start initial).visited ↔ t = initial := by
  simp only [start, Std.ExtTreeSet.mem_insert, Std.LawfulEqCmp.compare_eq_iff_eq,
    Std.ExtTreeSet.not_mem_empty, or_false]
  exact eq_comm

theorem covers_start (steps : StateMap (List Step)) (initial : StateId) :
    Covers steps (start initial) 0 where
  queued s hs := by
    rw [mem_visited_start]
    simpa [start] using hs
  explored s hs := by simp [start] at hs
  timed s hs := by simp [start] at hs
  pending s hs := by
    rw [mem_visited_start] at hs
    exact .inl (by simp [start, hs])
  closed s timed h := by simp [start] at h

theorem drop_place (hp : place < sweep.queue.size) :
    sweep.queue.toList.drop place =
      sweep.queue[place] :: sweep.queue.toList.drop (place + 1) := by
  have hlen : place < sweep.queue.toList.length := by simpa using hp
  rw [List.drop_eq_getElem_cons hlen, Array.getElem_toList]

theorem Covers.skip (h : Covers steps sweep place) (hp : place < sweep.queue.size)
    (hdone : sweep.explored[sweep.queue[place]]? =
      some (sweep.timed.contains sweep.queue[place])) : Covers steps sweep (place + 1) := by
  refine ⟨h.queued, h.explored, h.timed, fun s hs => ?_, h.closed⟩
  rcases h.pending s hs with hs | hs
  · rw [drop_place hp, List.mem_cons] at hs
    rcases hs with rfl | hs
    · exact .inr hdone
    · exact .inl hs
  · exact .inr hs

theorem Covers.explore (h : Covers steps sweep place) (hp : place < sweep.queue.size) :
    Covers steps (sweep.explore sweep.queue[place] (sweep.timed.contains sweep.queue[place])
      (steps.getD sweep.queue[place] [])) (place + 1) := by
  have hplace := drop_place hp
  have hs : sweep.queue[place] ∈ sweep.visited := h.queued _ (by simp)
  generalize sweep.queue[place] = s at hs hplace ⊢
  generalize hb : sweep.timed.contains s = b
  have hvisited : ∀ t, t ∈ (sweep.explore s b (steps.getD s [])).visited ↔
      (∃ entry ∈ entries b (steps.getD s []), entry.1 = t) ∨ t ∈ sweep.visited :=
    fun t => mem_visited_enterAll
  have htimed : ∀ t, t ∈ (sweep.explore s b (steps.getD s [])).timed ↔
      (t, true) ∈ entries b (steps.getD s []) ∨ t ∈ sweep.timed := fun t => mem_timed_enterAll
  have hexplored : ∀ t : StateId, (sweep.explore s b (steps.getD s [])).explored[t]? =
      if s = t then some b else sweep.explored[t]? := by
    intro t
    rw [Sweep.explore, explored_enterAll, note, Std.ExtTreeMap.getElem?_insert]
    simp only [Std.LawfulEqCmp.compare_eq_iff_eq]
  obtain ⟨added, hqueue, hin, hnew⟩ : (sweep.note s b).Queues
      ((sweep.note s b).enterAll (entries b (steps.getD s []))) := queues_enterAll
  refine ⟨fun t ht => ?_, fun t ht => ?_, fun t ht => ?_, fun t ht => ?_, fun t c ht => ?_⟩
  · rw [Sweep.explore, hqueue] at ht
    rcases List.mem_append.1 ht with ht | ht
    · exact (hvisited t).2 (.inr (h.queued t ht))
    · exact hin t ht
  · obtain ⟨c, hc⟩ := StateMap.mem_iff_exists.1 ht
    rw [hexplored] at hc
    split at hc
    · rename_i heq
      exact (hvisited t).2 (.inr (heq ▸ hs))
    · exact (hvisited t).2 (.inr (h.explored t (StateMap.mem_of_getElem? hc)))
  · rcases (htimed t).1 ht with ht | ht
    · exact (hvisited t).2 (.inl ⟨_, ht, rfl⟩)
    · exact (hvisited t).2 (.inr (h.timed t ht))
  · -- what is new or newly timed was queued, so it stands behind the place
    have hbehind : (sweep.explore s b (steps.getD s [])).queue.toList.drop (place + 1) =
        sweep.queue.toList.drop (place + 1) ++ added := by
      rw [Sweep.explore, hqueue]
      exact List.drop_append_of_le_length (by simpa [note] using hp)
    rw [hbehind, List.mem_append]
    rcases hnew t ht with ht | ⟨hold, hkept⟩
    · exact .inl (.inr ht)
    · have hflag : (sweep.explore s b (steps.getD s [])).timed.contains t =
          sweep.timed.contains t := by
        rw [Bool.eq_iff_iff, Std.ExtTreeSet.contains_iff_mem, Std.ExtTreeSet.contains_iff_mem]
        exact ⟨hkept, fun h => (htimed t).2 (.inr h)⟩
      rw [hexplored, hflag]
      by_cases heq : s = t
      · subst heq
        rw [if_pos rfl, hb]
        exact .inr rfl
      · rw [if_neg heq]
        rcases h.pending t hold with ht | ht
        · rw [hplace] at ht
          exact .inl (.inl ((List.mem_cons.1 ht).resolve_left (Ne.symm heq)))
        · exact .inr ht
  · intro entry hentry
    rw [hexplored] at ht
    split at ht
    · rename_i heq
      cases ht
      rw [← heq] at hentry
      refine ⟨(hvisited _).2 (.inl ⟨entry, hentry, rfl⟩), fun hflag => (htimed _).2 (.inl ?_)⟩
      rwa [← hflag]
    · obtain ⟨hv, ht⟩ := h.closed t c ht entry hentry
      exact ⟨(hvisited _).2 (.inr hv), fun hflag => (htimed _).2 (.inr (ht hflag))⟩

theorem Covers.advance (h : Covers steps sweep place) (hp : place < sweep.queue.size) :
    Covers steps (sweep.advance steps sweep.queue[place]) (place + 1) := by
  rcases advance_cases steps sweep sweep.queue[place] with ⟨hdone, hsame⟩ | ⟨-, hsame⟩
  · rw [hsame]
    exact h.skip hp hdone
  · rw [hsame]
    exact h.explore hp

theorem Covers.run (h : Covers steps sweep place) :
    ∃ last, Covers steps (sweep.run steps place) last ∧
      (sweep.run steps place).queue.size ≤ last := by
  fun_induction Sweep.run steps sweep place with
  | case1 sweep place hp ih => exact ih (h.advance hp)
  | case2 sweep place hp => exact ⟨place, h, Nat.le_of_not_lt hp⟩

/-! ## Only what has to be found -/

/-- What is entered from a state with the first property has it too; the second property is that
    of timed states. -/
def Closed (steps : StateMap (List Step)) (visited timed : StateId → Prop) : Prop :=
  ∀ s, visited s → ∀ b : Bool, (b = true → timed s) → ∀ entry ∈ entries b (steps.getD s []),
    visited entry.1 ∧ (entry.2 = true → timed entry.1)

structure Within (visited timed : StateId → Prop) (sweep : Sweep) : Prop where
  queued : ∀ s ∈ sweep.queue.toList, visited s
  visited : ∀ s ∈ sweep.visited, visited s
  timed : ∀ s ∈ sweep.timed, timed s

variable {P Q : StateId → Prop}

theorem within_start {initial : StateId} (hinitial : P initial) : Within P Q (start initial) := by
  refine ⟨fun s hs => ?_, fun s hs => ?_, fun s hs => ?_⟩
  · obtain rfl : s = initial := by simpa [start] using hs
    exact hinitial
  · obtain rfl := mem_visited_start.1 hs
    exact hinitial
  · simp [start] at hs

theorem Within.enterAll (h : Within P Q sweep)
    (hentered : ∀ entry ∈ entered, P entry.1 ∧ (entry.2 = true → Q entry.1)) :
    Within P Q (sweep.enterAll entered) := by
  have hvisited : ∀ t ∈ (sweep.enterAll entered).visited, P t := by
    intro t ht
    rcases mem_visited_enterAll.1 ht with ⟨entry, hentry, rfl⟩ | ht
    · exact (hentered entry hentry).1
    · exact h.visited t ht
  obtain ⟨added, hqueue, hin, -⟩ : sweep.Queues (sweep.enterAll entered) := queues_enterAll
  refine ⟨fun t ht => ?_, hvisited, fun t ht => ?_⟩
  · rw [hqueue] at ht
    rcases List.mem_append.1 ht with ht | ht
    · exact h.queued t ht
    · exact hvisited t (hin t ht)
  · rcases mem_timed_enterAll.1 ht with ht | ht
    · exact (hentered _ ht).2 rfl
    · exact h.timed t ht

theorem Within.advance (h : Within P Q sweep) (hclosed : Closed steps P Q) (hs : P s) :
    Within P Q (sweep.advance steps s) := by
  rcases advance_cases steps sweep s with ⟨-, hsame⟩ | ⟨-, hsame⟩
  · rwa [hsame]
  · rw [hsame]
    have hnote : Within P Q (sweep.note s (sweep.timed.contains s)) := ⟨h.queued, h.visited, h.timed⟩
    exact hnote.enterAll (hclosed s hs _ fun hb => h.timed s (Std.ExtTreeSet.contains_iff_mem.1 hb))

theorem Within.run (h : Within P Q sweep) (hclosed : Closed steps P Q) :
    Within P Q (sweep.run steps place) :=
  run_keeps h fun _ s hwithin hs => hwithin.advance hclosed (hwithin.queued s hs)

/-! ## The record of explorations -/

/-- Each explored state has a record of its last exploration, and each record is of an explored
    state that is timed if it was timed then. -/
structure Recorded (sweep : Sweep) : Prop where
  last : ∀ (s : StateId) (timed : Bool), sweep.explored[s]? = some timed →
    ∃ visit ∈ sweep.visits.toList, visit.state = s ∧ visit.timed = timed
  explored : ∀ visit ∈ sweep.visits.toList, visit.state ∈ sweep.explored
  timed : ∀ visit ∈ sweep.visits.toList, visit.timed = true → visit.state ∈ sweep.timed

theorem recorded_start (initial : StateId) : Recorded (start initial) where
  last s timed h := by simp [start] at h
  explored visit h := by simp [start] at h
  timed visit h := by simp [start] at h

theorem Recorded.note (h : Recorded sweep) : Recorded (sweep.note s (sweep.timed.contains s)) := by
  have hvisits : ∀ visit, visit ∈ (sweep.note s (sweep.timed.contains s)).visits.toList ↔
      visit ∈ sweep.visits.toList ∨
        visit = ⟨s, sweep.timed.contains s, !sweep.explored.contains s⟩ := by
    intro visit
    rw [Sweep.note, Array.toList_push, List.mem_append, List.mem_singleton]
  have hexplored : ∀ t : StateId, (sweep.note s (sweep.timed.contains s)).explored[t]? =
      if s = t then some (sweep.timed.contains s) else sweep.explored[t]? := by
    intro t
    rw [Sweep.note, Std.ExtTreeMap.getElem?_insert]
    simp only [Std.LawfulEqCmp.compare_eq_iff_eq]
  refine ⟨fun t timed ht => ?_, fun visit hvisit => ?_, fun visit hvisit htimed => ?_⟩
  · rw [hexplored] at ht
    split at ht
    · rename_i heq
      cases ht
      exact ⟨_, (hvisits _).2 (.inr rfl), heq, rfl⟩
    · obtain ⟨visit, hvisit, hmatch⟩ := h.last t timed ht
      exact ⟨visit, (hvisits visit).2 (.inl hvisit), hmatch⟩
  · rw [Sweep.note, Std.ExtTreeMap.mem_insert, Std.LawfulEqCmp.compare_eq_iff_eq]
    rcases (hvisits visit).1 hvisit with hvisit | rfl
    · exact .inr (h.explored visit hvisit)
    · exact .inl rfl
  · rcases (hvisits visit).1 hvisit with hvisit | rfl
    · exact h.timed visit hvisit htimed
    · exact Std.ExtTreeSet.contains_iff_mem.1 htimed

theorem Recorded.enterAll (h : Recorded sweep) : Recorded (sweep.enterAll entered) where
  last s timed hs := by
    rw [explored_enterAll] at hs
    rw [visits_enterAll]
    exact h.last s timed hs
  explored visit hvisit := by
    rw [visits_enterAll] at hvisit
    rw [explored_enterAll]
    exact h.explored visit hvisit
  timed visit hvisit htimed := by
    rw [visits_enterAll] at hvisit
    exact mem_timed_enterAll.2 (.inr (h.timed visit hvisit htimed))

theorem Recorded.advance (h : Recorded sweep) : Recorded (sweep.advance steps s) := by
  rcases advance_cases steps sweep s with ⟨-, hsame⟩ | ⟨-, hsame⟩
  · rwa [hsame]
  · rw [hsame]
    exact h.note.enterAll

theorem Recorded.run (h : Recorded sweep) : Recorded (sweep.run steps place) :=
  run_keeps h fun _ _ hrecorded _ => hrecorded.advance

/-! ## First explorations -/

def firstStates (sweep : Sweep) : List StateId :=
  (sweep.visits.toList.filter (·.first)).map (·.state)

/-- However often a state is explored, once it was the first time. -/
structure FirstOnce (sweep : Sweep) : Prop where
  nodup : sweep.firstStates.Nodup
  mem : ∀ s, s ∈ sweep.firstStates ↔ s ∈ sweep.explored

theorem firstOnce_start (initial : StateId) : FirstOnce (start initial) where
  nodup := List.nodup_nil
  mem s := by simp [firstStates, start]

theorem firstStates_note (sweep : Sweep) (s : StateId) (timed : Bool) :
    (sweep.note s timed).firstStates =
      sweep.firstStates ++ if s ∈ sweep.explored then [] else [s] := by
  rw [firstStates, firstStates, note, Array.toList_push, List.filter_append, List.map_append]
  by_cases hs : s ∈ sweep.explored
  · have hknown : sweep.explored.contains s = true := Std.ExtTreeMap.contains_iff_mem.2 hs
    rw [if_pos hs, hknown]
    rfl
  · have hnew : sweep.explored.contains s = false :=
      Bool.eq_false_iff.2 fun h => hs (Std.ExtTreeMap.contains_iff_mem.1 h)
    rw [if_neg hs, hnew]
    rfl

theorem FirstOnce.note (h : FirstOnce sweep) (s : StateId) (timed : Bool) :
    FirstOnce (sweep.note s timed) := by
  have hexplored : ∀ t, t ∈ (sweep.note s timed).explored ↔ s = t ∨ t ∈ sweep.explored := by
    intro t
    rw [Sweep.note, Std.ExtTreeMap.mem_insert, Std.LawfulEqCmp.compare_eq_iff_eq]
  by_cases hs : s ∈ sweep.explored
  · have hstay : (sweep.note s timed).firstStates = sweep.firstStates := by
      rw [firstStates_note, if_pos hs, List.append_nil]
    refine ⟨hstay ▸ h.nodup, fun t => ?_⟩
    rw [hstay, hexplored, h.mem]
    refine ⟨Or.inr, ?_⟩
    rintro (rfl | ht)
    · exact hs
    · exact ht
  · have hmore : (sweep.note s timed).firstStates = sweep.firstStates ++ [s] := by
      rw [firstStates_note, if_neg hs]
    refine ⟨?_, fun t => ?_⟩
    · rw [hmore, ← List.concat_eq_append, List.nodup_concat]
      exact ⟨fun hmem => hs ((h.mem s).1 hmem), h.nodup⟩
    · rw [hmore, hexplored, List.mem_append, List.mem_singleton, h.mem, or_comm,
        eq_comm (a := s)]

theorem FirstOnce.enterAll (h : FirstOnce sweep) : FirstOnce (sweep.enterAll entered) where
  nodup := by
    rw [firstStates, visits_enterAll]
    exact h.nodup
  mem s := by
    rw [firstStates, visits_enterAll, explored_enterAll]
    exact h.mem s

theorem FirstOnce.advance (h : FirstOnce sweep) : FirstOnce (sweep.advance steps s) := by
  rcases advance_cases steps sweep s with ⟨-, hsame⟩ | ⟨-, hsame⟩
  · rwa [hsame]
  · rw [hsame]
    exact (h.note _ _).enterAll

theorem FirstOnce.run (h : FirstOnce sweep) : FirstOnce (sweep.run steps place) :=
  run_keeps h fun _ _ hfirst _ => hfirst.advance

/-! ## At the end of the queue -/

/-- Every visited state was last explored with what is known of it in the end, and nothing was
    found that did not have to be. -/
structure Finds (steps : StateMap (List Step)) (initial : StateId) (sweep : Sweep) : Prop where
  start : initial ∈ sweep.visited
  explored : ∀ s : StateId, sweep.explored[s]? =
    if s ∈ sweep.visited then some (sweep.timed.contains s) else none
  timed : ∀ s ∈ sweep.timed, s ∈ sweep.visited
  closed : ∀ s ∈ sweep.visited, ∀ entry ∈ entries (sweep.timed.contains s) (steps.getD s []),
    entry.1 ∈ sweep.visited ∧ (entry.2 = true → entry.1 ∈ sweep.timed)
  least : ∀ P Q, P initial → Closed steps P Q →
    (∀ s ∈ sweep.visited, P s) ∧ ∀ s ∈ sweep.timed, Q s

theorem visited_run (ht : t ∈ sweep.visited) : t ∈ (sweep.run steps place).visited :=
  run_keeps (P := fun sweep => t ∈ sweep.visited) ht fun _ _ hvisited _ => visited_advance hvisited

theorem finds_run (steps : StateMap (List Step)) (initial : StateId) :
    Finds steps initial ((start initial).run steps 0) := by
  obtain ⟨last, hcovers, hlast⟩ := (covers_start steps initial).run
  have hexplored : ∀ s ∈ ((start initial).run steps 0).visited,
      ((start initial).run steps 0).explored[s]? =
        some (((start initial).run steps 0).timed.contains s) := by
    intro s hs
    refine (hcovers.pending s hs).resolve_left ?_
    rw [List.drop_of_length_le (by simpa using hlast)]
    exact List.not_mem_nil
  refine ⟨visited_run (mem_visited_start.2 rfl), fun s => ?_, hcovers.timed, fun s hs => ?_,
    fun P Q hinitial hclosed => ?_⟩
  · split
    · rename_i hs
      exact hexplored s hs
    · rename_i hs
      exact Std.ExtTreeMap.getElem?_eq_none fun h => hs (hcovers.explored s h)
  · exact hcovers.closed s _ (hexplored s hs)
  · have hwithin : Within P Q ((start initial).run steps 0) :=
      (within_start hinitial).run hclosed
    exact ⟨hwithin.visited, hwithin.timed⟩

end Sweep

end InteractiveMarkov
