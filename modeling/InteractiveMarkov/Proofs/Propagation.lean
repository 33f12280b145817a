import InteractiveMarkov.Proofs.Numbering
import InteractiveMarkov.Proofs.Statuses

/-!
# Spreading with one worklist

Spreading first orders the states and then goes through them once. One loop over a queue does the
same: it takes the first state of the queue, lets it pass on its status unless it has done so, and
puts the states whose status becomes known by that at the end of the queue. The states wait in the
queue in the order in which the search met them, and the loop fails at the same demand.
-/

set_option autoImplicit false

namespace InteractiveMarkov.StatusTable

/-- The queue of the loop, the states whose turn has come, and the statuses known so far. -/
structure Wave where
  queue : List StateId
  propagated : StateSet
  table : StatusTable

namespace Wave

/-- Meets demands up to the first conflict. A state whose status was not known is queued, unless its
    turn has come already. -/
def meet : Wave → List Demand → Wave × Option Error
  | wave, [] => (wave, none)
  | wave, demand :: rest =>
    match wave.table.assign demand with
    | .error e => (wave, some e)
    | .ok (table, fresh) =>
      meet { wave with
        table := table
        queue := if fresh && !wave.propagated.contains demand.state
          then wave.queue ++ [demand.state] else wave.queue } rest

variable (explicit : StatusTable) (live : StateSet) (edges : List KeptEdge)
  (resolve : StateId → StateId)

def demands (s : StateId) (status : Status) : List Demand :=
  ((edges.filter fun edge => edge.label.isDelay && live.contains edge.source
      && edge.source = s).filter fun edge => !explicit.contains (resolve edge.target)).map
    fun edge => ⟨resolve edge.target, status, .delay edge.label status s⟩

/-- A turn of the loop, or the table that it leaves, with the conflict if there is one. -/
def turn : Wave → (StatusTable × Option Error) ⊕ Wave
  | ⟨[], _, table⟩ => .inl (table, none)
  | ⟨s :: rest, propagated, table⟩ =>
    if s ∈ propagated then .inr ⟨rest, propagated, table⟩
    else
      match table[s]? with
      | none => .inr ⟨rest, propagated.insert s, table⟩
      | some status =>
        match meet ⟨rest, propagated.insert s, table⟩ (demands explicit live edges resolve s status)
        with
        | (wave, none) => .inr wave
        | (wave, some e) => .inl (wave.table, some e)

def run : Wave →. StatusTable × Option Error := loop (turn explicit live edges resolve)

variable {explicit live edges resolve} {wave after : Wave} {search : Search} {place : Nat}
  {s : StateId} {status : Status} {demand : Demand} {pending : List Demand}

theorem demands_eq (s : StateId) (status : Status) : demands explicit live edges resolve s status =
    passedOn (explicit.channels live edges resolve) s status := by
  rw [passedOn, channels, StateMap.getD_group, List.filter_map, List.filter_filter, List.map_map,
    List.map_map, demands, List.filter_filter]
  have hsame : ∀ edge : KeptEdge, (!explicit.contains (resolve edge.target) &&
      (edge.label.isDelay && live.contains edge.source && decide (edge.source = s))) =
      (decide (edge.source = s) && (edge.label.isDelay && live.contains edge.source &&
        !explicit.contains (resolve edge.target))) := by
    intro edge
    cases edge.label.isDelay <;> cases live.contains edge.source <;>
      cases explicit.contains (resolve edge.target) <;> simp
  simp only [hsame]
  rfl

theorem meet_table (wave : Wave) (pending : List Demand) :
    ((wave.meet pending).1.table, (wave.meet pending).2) = wave.table.assignAll pending := by
  induction pending generalizing wave with
  | nil => rfl
  | cons demand rest ih =>
    rw [meet, assignAll]
    split
    · rename_i hassign
      rw [hassign]
    · rename_i hassign
      rw [hassign]
      exact ih _

/-- The queue holds the states that a search met from a place on, the turn of those before it has
    come, and no status is known but of explicit and of met states. -/
structure Follows (explicit : StatusTable) (search : Search) (place : Nat) (wave : Wave) :
    Prop where
  queue : wave.queue = search.order.toList.drop place
  propagated : ∀ s, s ∈ wave.propagated ↔ s ∈ search.order.toList.take place
  seen : ∀ s, s ∈ search.seen ↔ s ∈ search.order.toList
  nodup : search.order.toList.Nodup
  known : ∀ s ∈ search.seen, s ∈ wave.table
  met : ∀ s ∈ wave.table, s ∈ explicit ∨ s ∈ search.seen

theorem Follows.skip (h : Follows explicit search place wave) (hseen : demand.state ∈ search.seen)
    {table : StatusTable} {fresh : Bool} (hassign : wave.table.assign demand = .ok (table, fresh)) :
    table = wave.table ∧ fresh = false := by
  obtain ⟨existing, hexisting⟩ := StateMap.mem_iff_exists.1 (h.known _ hseen)
  rw [assign, hexisting] at hassign
  dsimp only at hassign
  split at hassign
  · cases hassign
    exact ⟨rfl, rfl⟩
  · cases hassign

theorem Follows.push (h : Follows explicit search place wave) (hplace : place ≤ search.order.size)
    (hnew : s ∉ search.seen) (status : Status) :
    Follows explicit ⟨search.order.push s, search.seen.insert s⟩ place
      ⟨wave.queue ++ [s], wave.propagated, wave.table.insert s status⟩ := by
  have hlength : place ≤ search.order.toList.length := by simpa using hplace
  have hseen : ∀ t, t ∈ search.seen.insert s ↔ s = t ∨ t ∈ search.seen := fun t => by
    rw [Std.ExtTreeSet.mem_insert, Std.LawfulEqCmp.compare_eq_iff_eq]
  have htable : ∀ t, t ∈ wave.table.insert s status ↔ s = t ∨ t ∈ wave.table := fun t => by
    rw [Std.ExtTreeMap.mem_insert, Std.LawfulEqCmp.compare_eq_iff_eq]
  refine ⟨?_, fun t => ?_, fun t => ?_, ?_, fun t ht => ?_, fun t ht => ?_⟩
  · rw [Array.toList_push, List.drop_append_of_le_length hlength, h.queue]
  · rw [Array.toList_push, List.take_append_of_le_length hlength]
    exact h.propagated t
  · rw [hseen, h.seen, Array.toList_push, List.mem_append, List.mem_singleton, or_comm, eq_comm]
  · rw [Array.toList_push, ← List.concat_eq_append, List.nodup_concat]
    exact ⟨fun hmem => hnew ((h.seen s).2 hmem), h.nodup⟩
  · exact (htable t).2 (((hseen t).1 ht).imp_right (h.known t))
  · rcases (htable t).1 ht with rfl | ht
    · exact .inr ((hseen _).2 (.inl rfl))
    · exact (h.met t ht).imp_right fun ht => (hseen t).2 (.inr ht)

/-- A state is queued exactly if the search meets it for the first time. -/
theorem Follows.meet (h : Follows explicit search place wave) (hplace : place ≤ search.order.size)
    (hpending : ∀ demand ∈ pending, demand.state ∉ explicit)
    (hmeet : wave.meet pending = (after, none)) :
    Follows explicit (search.meetAll (pending.map (·.state))) place after := by
  induction pending generalizing wave search with
  | nil =>
    cases hmeet
    exact h
  | cons demand rest ih =>
    obtain ⟨hfree, hrest⟩ := List.forall_mem_cons.1 hpending
    rw [Wave.meet] at hmeet
    split at hmeet
    · cases hmeet
    rename_i table fresh hassign
    rw [List.map_cons, Search.meetAll, List.foldl_cons]
    -- a met state has a status, which the demand leaves; any other one is new to both
    by_cases hseen : demand.state ∈ search.seen
    · obtain ⟨rfl, rfl⟩ := h.skip hseen hassign
      rw [Search.meet, if_pos hseen]
      exact ih h hplace hrest hmeet
    · have hunknown : wave.table[demand.state]? = none :=
        StateMap.getElem?_eq_none_iff.2 fun hmem => (h.met _ hmem).elim hfree hseen
      have hwaits : wave.propagated.contains demand.state = false := by
        rw [← Bool.not_eq_true, Std.ExtTreeSet.contains_iff_mem, h.propagated]
        exact fun hmem => hseen ((h.seen _).2 (List.mem_of_mem_take hmem))
      rw [assign, hunknown] at hassign
      cases hassign
      rw [hwaits] at hmeet
      rw [Search.meet, if_neg hseen]
      refine ih (h.push hplace hseen demand.status) ?_ hrest hmeet
      rw [Array.size_push]
      exact Nat.le_succ_of_le hplace

theorem Follows.head (h : Follows explicit search place wave) (hplace : place < search.order.size) :
    wave.queue = search.order[place] :: search.order.toList.drop (place + 1) ∧
      search.order[place] ∉ wave.propagated ∧
      ∃ status : Status, wave.table[search.order[place]]? = some status := by
  have hlength : place < search.order.toList.length := by simpa using hplace
  have hdrop : search.order.toList.drop place =
      search.order[place] :: search.order.toList.drop (place + 1) := by
    rw [List.drop_eq_getElem_cons hlength, Array.getElem_toList]
  refine ⟨h.queue.trans hdrop, fun hmem => ?_, ?_⟩
  · have honce := h.nodup
    rw [← List.take_append_drop place search.order.toList, hdrop, List.nodup_middle,
      List.nodup_cons] at honce
    exact honce.1 (List.mem_append_left _ ((h.propagated _).1 hmem))
  · exact StateMap.mem_iff_exists.1 (h.known _ ((h.seen _).2 (by simp)))

theorem Follows.shift (h : Follows explicit search place wave)
    (hplace : place < search.order.size) :
    Follows explicit search (place + 1) ⟨search.order.toList.drop (place + 1),
      wave.propagated.insert search.order[place], wave.table⟩ where
  queue := rfl
  propagated s := by
    have hlength : place < search.order.toList.length := by simpa using hplace
    rw [Std.ExtTreeSet.mem_insert, Std.LawfulEqCmp.compare_eq_iff_eq, h.propagated,
      List.take_succ_eq_append_getElem hlength, List.mem_append, List.mem_singleton,
      Array.getElem_toList, or_comm, eq_comm]
  seen := h.seen
  nodup := h.nodup
  known := h.known
  met := h.met

/-- A turn of the loop does what spreading does with the next state of an order. -/
theorem run_of_turn {rest order : List StateId} {propagated : StateSet} {table : StatusTable}
    (hwaits : s ∉ propagated) (hstatus : table[s]? = some status)
    (hrest : ∀ next, meet ⟨rest, propagated.insert s, table⟩
        (demands explicit live edges resolve s status) = (next, none) →
      run explicit live edges resolve next =
        .some (spread (explicit.channels live edges resolve) order next.table)) :
    run explicit live edges resolve ⟨s :: rest, propagated, table⟩ =
      .some (spread (explicit.channels live edges resolve) (s :: order) table) := by
  have htable := meet_table ⟨rest, propagated.insert s, table⟩
    (demands explicit live edges resolve s status)
  -- both fail at the same demand, and leave the table as it was written up to there
  rcases hmeet : meet ⟨rest, propagated.insert s, table⟩
    (demands explicit live edges resolve s status) with ⟨next, _ | e⟩
  · have hspread : spread (explicit.channels live edges resolve) (s :: order) table =
        spread (explicit.channels live edges resolve) order next.table := by
      simp only [spread, hstatus, ← demands_eq, ← htable, hmeet]
    have hturn : turn explicit live edges resolve ⟨s :: rest, propagated, table⟩ = .inr next := by
      simp only [turn, if_neg hwaits, hstatus, hmeet]
    rw [hspread]
    exact (loop_of_inr hturn).trans (hrest next hmeet)
  · have hspread : spread (explicit.channels live edges resolve) (s :: order) table =
        (next.table, some e) := by
      simp only [spread, hstatus, ← demands_eq, ← htable, hmeet]
    have hturn : turn explicit live edges resolve ⟨s :: rest, propagated, table⟩ =
        .inl (next.table, some e) := by
      simp only [turn, if_neg hwaits, hstatus, hmeet]
    rw [hspread]
    exact loop_of_inl hturn

theorem not_mem_of_mem_demands (h : demand ∈ demands explicit live edges resolve s status) :
    demand.state ∉ explicit := by
  obtain ⟨edge, hedge, rfl⟩ := List.mem_map.1 h
  exact (StateMap.not_contains _ _).1 (List.mem_filter.1 hedge).2

theorem Follows.run {moves : Moves} (hmoves : ∀ s status,
      moves.after s = (demands explicit live edges resolve s status).map (·.state))
    (h : Follows explicit search place wave) :
    Wave.run explicit live edges resolve wave =
      .some (spread (explicit.channels live edges resolve)
        ((search.run moves place).order.toList.drop place) wave.table) := by
  -- along the search, which the table follows: the state at the place is the first of the queue
  fun_induction Search.run moves search place generalizing wave with
  | case1 search place hplace ih =>
    have hlength : place < search.order.toList.length := by simpa using hplace
    have hlast := (search.meetAll_prefix (moves.after search.order[place])).trans
      (Search.order_prefix_run moves _ (place + 1))
    obtain ⟨hqueue, hwaits, status, hstatus⟩ := h.head hplace
    have hshift := h.shift hplace
    obtain ⟨queue, propagated, table⟩ := wave
    obtain rfl : queue = _ := hqueue
    rw [drop_prefix_eq hlast hlength, Array.getElem_toList]
    refine run_of_turn hwaits hstatus fun next hmeet => ih ?_
    rw [hmoves _ status]
    exact hshift.meet hplace (fun _ => not_mem_of_mem_demands) hmeet
  | case2 search place hplace =>
    have hnone : search.order.toList.drop place = [] :=
      List.drop_of_length_le (by simpa using hplace)
    obtain ⟨queue, propagated, table⟩ := wave
    obtain rfl : queue = [] := h.queue.trans hnone
    rw [hnone]
    exact loop_of_inl rfl

theorem follows_start (table : StatusTable) (live : StateSet) :
    Follows table (Search.start.meetAll (live.toList.filter table.contains)) 0
      ⟨live.toList.filter table.contains, ∅, table⟩ := by
  obtain ⟨hnodup, hseen, -⟩ := (breadthFirst_run ∅ (live.toList.filter table.contains)).1
  have honce : (live.toList.filter table.contains).Nodup := (nodup_toList live).filter _
  have horder : (Search.start.meetAll (live.toList.filter table.contains)).order.toList =
      live.toList.filter table.contains :=
    @Search.order_meetAll .start _ (by simp [Search.start]) honce
  refine ⟨horder.symm, by simp, hseen, hnodup, fun s hs => ?_, fun s hs => .inl hs⟩
  rw [hseen, horder] at hs
  exact Std.ExtTreeMap.contains_iff_mem.1 (List.mem_filter.1 hs).2

end Wave

/-- The loop over a queue that starts with the explicit live states ends with the table and the
    conflict of spreading. -/
theorem propagate_run (table : StatusTable) (live : StateSet) (edges : List KeptEdge)
    (resolve : StateId → StateId) : ∃ after fault,
    Wave.run table live edges resolve ⟨live.toList.filter table.contains, ∅, table⟩ =
      .some (after, fault) ∧
    table.propagate live edges resolve = (after, match fault with
      | none => .ok (live.toList.countP fun s => !after.contains s)
      | some e => .error e) := by
  have hmoves : ∀ (s : StateId) (status : Status),
      Moves.after ((table.channels live edges resolve).map fun _ delays => delays.map (·.2)) s =
        (Wave.demands table live edges resolve s status).map (·.state) := by
    intro s status
    rw [Moves.after, StateMap.getD_map rfl, Wave.demands_eq, passedOn, List.map_map]
    rfl
  refine ⟨_, _, (Wave.follows_start table live).run hmoves, ?_⟩
  rw [propagate_eq, spreadOrder, breadthFirst, List.drop_zero]
  rcases spread _ _ table with ⟨after, _ | e⟩ <;> rfl

end InteractiveMarkov.StatusTable
