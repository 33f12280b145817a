import InteractiveMarkov.Proofs.Statuses

/-!
# The closure that spreading computes

What a table holds after spreading is said by paths along delays alone: an explicit state keeps its
status, a state at the end of a path from a live explicit state has the status found there, and no
other state has one. At most one table is such, and the paths do not depend on the order of the
edges, so neither does the table. Spreading fails exactly if paths from both statuses meet; the
table it leaves then is not described, since it holds what was written before the conflict.
-/

set_option autoImplicit false

namespace InteractiveMarkov.StatusTable

section Closure

variable (table : StatusTable) (live : StateSet) (edges : List KeptEdge)
  (resolve : StateId → StateId)

/-- One delay or more lead to the state from a live explicit state with the status. -/
def LeadsTo (status : Status) (t : StateId) : Prop :=
  ∃ s ∈ live, table[s]? = some status ∧ Relation.TransGen (table.Passes live edges resolve) s t

structure SpreadOut (after : StatusTable) : Prop where
  explicit : ∀ s ∈ table, after[s]? = table[s]?
  received : ∀ status t, table.LeadsTo live edges resolve status t → after[t]? = some status
  unknown : ∀ t ∉ table, (∀ status, ¬ table.LeadsTo live edges resolve status t) →
    after[t]? = none

end Closure

variable {table after other : StatusTable} {live : StateSet} {edges others : List KeptEdge}
  {resolve : StateId → StateId}

theorem leadsTo_iff (status : Status) (t : StateId) :
    table.LeadsTo live edges resolve status t ↔ table.Spreads live edges resolve status t := by
  constructor
  · rintro ⟨s, -, hs, hpath⟩
    exact ⟨s, hs, hpath⟩
  · rintro ⟨s, hs, hpath⟩
    obtain ⟨u, ⟨hlive, -⟩, -⟩ := Relation.TransGen.head'_iff.1 hpath
    exact ⟨s, hlive, hs, hpath⟩

theorem passes_perm (h : edges.Perm others) :
    table.Passes live edges resolve = table.Passes live others resolve := by
  funext s t
  unfold Passes
  simp only [h.mem_iff]

theorem leadsTo_perm (h : edges.Perm others) :
    table.LeadsTo live edges resolve = table.LeadsTo live others resolve := by
  funext status t
  unfold LeadsTo
  rw [passes_perm h]

theorem SpreadOut.perm (h : edges.Perm others)
    (hafter : table.SpreadOut live edges resolve after) :
    table.SpreadOut live others resolve after where
  explicit := hafter.explicit
  received status t ht := hafter.received status t (by rwa [leadsTo_perm h])
  unknown t ht hnone := hafter.unknown t ht (by rwa [leadsTo_perm h])

theorem SpreadOut.unique (hafter : table.SpreadOut live edges resolve after)
    (hother : table.SpreadOut live edges resolve other) : after = other := by
  refine Std.ExtTreeMap.ext_getElem? fun t => ?_
  by_cases ht : t ∈ table
  · rw [hafter.explicit t ht, hother.explicit t ht]
  · by_cases hnone : ∀ status, ¬ table.LeadsTo live edges resolve status t
    · rw [hafter.unknown t ht hnone, hother.unknown t ht hnone]
    · push Not at hnone
      obtain ⟨status, hstatus⟩ := hnone
      rw [hafter.received status t hstatus, hother.received status t hstatus]

theorem spreadOut_of_propagate {n : Nat}
    (h : table.propagate live edges resolve = (after, .ok n)) :
    table.SpreadOut live edges resolve after := by
  obtain ⟨hget, -⟩ := propagate_ok h
  simp only [← leadsTo_iff] at hget
  refine ⟨fun s hs => ?_, fun status t ht => (hget t status).2 (.inr ht), fun t ht hnone => ?_⟩
  · obtain ⟨status, hstatus⟩ := StateMap.mem_iff_exists.1 hs
    rw [hstatus, hget]
    exact .inl hstatus
  · rw [Option.eq_none_iff_forall_ne_some]
    intro status hstatus
    rcases (hget t status).1 hstatus with hexplicit | hleads
    · exact ht (StateMap.mem_of_getElem? hexplicit)
    · exact hnone status hleads

theorem propagate_ok_iff_apart :
    (∃ after n, table.propagate live edges resolve = (after, .ok n)) ↔
      ∀ t, ¬ (table.LeadsTo live edges resolve .failed t ∧
        table.LeadsTo live edges resolve .operational t) := by
  rw [propagate_ok_iff]
  simp only [← leadsTo_iff]
  constructor
  · rintro h t ⟨hfailed, hoperational⟩
    cases h t _ _ hfailed hoperational
  · rintro h t (_ | _) (_ | _) hx hy
    · rfl
    · exact absurd ⟨hx, hy⟩ (h t)
    · exact absurd ⟨hy, hx⟩ (h t)
    · rfl

theorem propagate_of_perm (h : edges.Perm others) {n : Nat}
    (hrun : table.propagate live edges resolve = (after, .ok n)) :
    table.propagate live others resolve = (after, .ok n) := by
  have hapart := propagate_ok_iff_apart.1 ⟨after, n, hrun⟩
  rw [leadsTo_perm h] at hapart
  obtain ⟨found, m, hfound⟩ := propagate_ok_iff_apart.2 hapart
  have hsame : found = after :=
    (spreadOut_of_propagate hfound).unique ((spreadOut_of_propagate hrun).perm h)
  rw [hfound, (propagate_ok hfound).2, (propagate_ok hrun).2, hsame]

/-- Spreading succeeds exactly if no state can receive both statuses, and then it leaves the
    closure and counts the live states without a status; otherwise it names a state that can
    receive both. The order of the edges does not matter to success and its result. -/
theorem propagate_closure (table : StatusTable) (live : StateSet) (edges : List KeptEdge)
    (resolve : StateId → StateId) :
    ((∃ after n, table.propagate live edges resolve = (after, .ok n)) ↔
      ∀ t, ¬ (table.LeadsTo live edges resolve .failed t ∧
        table.LeadsTo live edges resolve .operational t)) ∧
    (∀ after n, table.propagate live edges resolve = (after, .ok n) →
      table.SpreadOut live edges resolve after ∧
        n = live.toList.countP fun s => !after.contains s) ∧
    (∀ after e, table.propagate live edges resolve = (after, .error e) →
      ∃ t x y cause, e = .conflict t x y cause ∧ x ≠ y ∧ t ∉ table ∧
        table.LeadsTo live edges resolve x t ∧ table.LeadsTo live edges resolve y t) ∧
    ∀ others, edges.Perm others → ∀ after n,
      table.propagate live edges resolve = (after, .ok n) ↔
        table.propagate live others resolve = (after, .ok n) := by
  refine ⟨propagate_ok_iff_apart,
    fun after n h => ⟨spreadOut_of_propagate h, (propagate_ok h).2⟩, fun after e h => ?_,
    fun others hperm after n => ⟨propagate_of_perm hperm, propagate_of_perm hperm.symm⟩⟩
  obtain ⟨t, x, y, cause, hne, hnew, hx, hy, rfl⟩ := propagate_error h
  exact ⟨t, x, y, cause, rfl, hne, hnew, (leadsTo_iff x t).2 hx, (leadsTo_iff y t).2 hy⟩

def breakdown : StatusTable :=
  Std.ExtTreeMap.ofList ([(0, .failed), (1, .operational)] : List (StateId × Status))

def shop : StateSet := Std.ExtTreeSet.ofList [0, 1, 2, 4, 5]

/-- The delays of state 0 lead to state 1 and, through state 3, into the cycle of the states 2
    and 4. State 1 is left by an action only. -/
def wear : List KeptEdge :=
  [⟨0, .rate "1", 1⟩, ⟨0, .rate "2", 3⟩, ⟨2, .timed "time 1", 4⟩, ⟨4, .rate "1", 3⟩,
    ⟨1, .action "go", 5⟩, ⟨5, .rate "1", 0⟩]

def bypass (s : StateId) : StateId := if s = 3 then 2 else s

theorem breakdown_closure :
    (∃ after, breakdown.propagate shop wear bypass = (after, .ok 1) ∧
      breakdown.SpreadOut shop wear bypass after ∧
      breakdown.propagate shop wear.reverse bypass = (after, .ok 1)) ∧
    ∃ after e, breakdown.propagate shop (⟨1, .rate "1", 4⟩ :: wear) bypass = (after, .error e) ∧
      ∃ t x y cause, e = .conflict t x y cause ∧ x ≠ y ∧ t ∉ breakdown ∧
        breakdown.LeadsTo shop (⟨1, .rate "1", 4⟩ :: wear) bypass x t ∧
        breakdown.LeadsTo shop (⟨1, .rate "1", 4⟩ :: wear) bypass y t := by
  obtain ⟨-, hok, -, hperm⟩ := propagate_closure breakdown shop wear bypass
  obtain ⟨-, -, herror, -⟩ :=
    propagate_closure breakdown shop (⟨1, .rate "1", 4⟩ :: wear) bypass
  refine ⟨⟨(breakdown.propagate shop wear bypass).1, ?_⟩, ?_⟩
  · have hrun : (breakdown.propagate shop wear bypass).2 = .ok 1 := by decide +kernel
    have hpair : breakdown.propagate shop wear bypass =
        ((breakdown.propagate shop wear bypass).1, .ok 1) := by
      rw [← hrun]
    exact ⟨hpair, (hok _ _ hpair).1, (hperm _ wear.reverse_perm.symm _ _).1 hpair⟩
  · have hrun : (breakdown.propagate shop (⟨1, .rate "1", 4⟩ :: wear) bypass).2 =
        .error (.conflict 4 .operational .failed (.delay (.timed "time 1") .failed 2)) := by
      decide +kernel
    have hpair : breakdown.propagate shop (⟨1, .rate "1", 4⟩ :: wear) bypass =
        ((breakdown.propagate shop (⟨1, .rate "1", 4⟩ :: wear) bypass).1, .error
          (.conflict 4 .operational .failed (.delay (.timed "time 1") .failed 2))) := by
      rw [← hrun]
    exact ⟨_, _, hpair, herror _ _ hpair⟩

end InteractiveMarkov.StatusTable
