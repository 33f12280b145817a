import InteractiveMarkov.Proofs.Confluence

set_option autoImplicit false

namespace InteractiveMarkov.Automaton

/-- Every reached state is without immediate edges. -/
def Patient (a : Automaton) (names : Vocabulary) : Prop :=
  ∀ s, a.Reached names s → a.urgentEdge? names s = none

variable {a : Automaton} {names : Vocabulary} {p : Prepared} {s c : StateId} {status : Status}

namespace Patient

variable (h : a.Patient names)

include h

theorem live_iff : a.Live names s ↔ a.Reached names s :=
  ⟨And.left, fun hs => ⟨hs, h s hs⟩⟩

theorem settles (hs : a.Reached names s) : a.Settles names s s := .stable (h s hs)

theorem not_marked : ¬ a.Marked names status c := by
  rintro ⟨t, ⟨s, edge, hs, hedge, hkind, -⟩, -⟩
  apply urgentEdge?_none.1 (h s hs) edge hedge
  rw [hkind]
  rfl

theorem not_inherits : ¬ a.Inherits names status c := by
  rintro ⟨s, -, hmarked, -⟩
  exact h.not_marked hmarked

theorem reducible : a.Reducible names where
  uniform s hs edge hedge _ _ himm := absurd himm (urgentEdge?_none.1 (h s hs) edge hedge)
  settles s hs := ⟨s, h.settles hs⟩
  marked _ _ _ hx := absurd hx h.not_marked
  inherited _ _ _ hx := absurd hx h.not_inherits

variable (hp : a.Prepares names p)

include hp

theorem resolve_eq (hs : a.Reached names s) : p.resolve s = s :=
  settles_unique (hp.settles s hs) (h.settles hs)

theorem mem_live : s ∈ p.found.live ↔ a.Reached names s :=
  hp.explored.mem_live.trans h.live_iff

theorem resolved_eq (hs : a.Reached names s) : p.statuses.resolved s = .operational := by
  have hnone : p.statuses[s]? = none := by
    apply Option.eq_none_iff_forall_ne_some.2
    intro status hstatus
    rcases (hp.statuses s (h.live_iff.2 hs) status).1 hstatus with hmarked | hinherits
    · exact h.not_marked hmarked
    · exact h.not_inherits hinherits
  rw [StatusTable.resolved, Std.ExtTreeMap.getD_eq_getD_getElem?, hnone]
  rfl

theorem statuses_chain (initial : StateId) : (p.chain initial false).statuses =
    List.replicate (p.chain initial false).stateCount .operational := by
  apply List.eq_replicate_iff.2
  refine ⟨(List.length_map _).trans Std.ExtTreeSet.length_toList, ?_⟩
  intro status hstatus
  obtain ⟨s, hs, rfl⟩ := List.mem_map.1 hstatus
  exact h.resolved_eq hp ((h.mem_live hp).1 (Std.ExtTreeSet.mem_toList.1 hs))

theorem size_redirects : p.found.redirects.size = 0 := by
  rw [← Std.ExtTreeMap.length_keys, List.length_eq_zero_iff, List.eq_nil_iff_forall_not_mem]
  intro s hs
  obtain ⟨hreached, edge, hedge⟩ := hp.explored.mem_redirects.1 (Std.ExtTreeMap.mem_keys.1 hs)
  rw [h s hreached] at hedge
  cases hedge

end Patient

theorem Patient.learned_nothing (h : a.Patient names) {found : Exploration}
    (hfound : a.explore names = .ok found) :
    found.preempted = 0 ∧ found.warnings.toList = [] := by
  obtain ⟨hlearned, -, -⟩ := explore_learned hfound
  constructor
  · rw [hlearned.preempted]
    apply List.sum_eq_zero
    intro count hcount
    obtain ⟨s, hs, rfl⟩ := List.mem_map.1 hcount
    rw [lost_steps, if_pos (h s (mem_reached.1 hs))]
  · rw [hlearned.warnings, List.flatMap_eq_nil_iff]
    intro s hs
    rw [warned_steps, h s (mem_reached.1 hs)]
    rfl

theorem Patient.reduces (h : a.Patient names) (merge : Bool) : ∃ p, a.prepare names = .ok p ∧
    a.reduce ⟨names, merge⟩ = .ok (p.outcome a merge) := by
  cases hprepare : a.prepare names with
  | error e => exact absurd h.reducible (prepare_error hprepare).1
  | ok p =>
    refine ⟨p, rfl, ?_⟩
    rw [reduce_eq, hprepare]

end InteractiveMarkov.Automaton
