import InteractiveMarkov.Proofs.Reference
import InteractiveMarkov.Proofs.Sweep
import Mathlib.Order.Bounds.Basic

set_option autoImplicit false

namespace InteractiveMarkov

namespace Automaton

section Fixpoint

variable (a : Automaton) (names : Vocabulary)

/-- Closed pairs of a set of visited and a set of timed states. -/
structure ClosedPair (V T : Set StateId) : Prop where
  initial : a.initial ∈ V
  immediate : ∀ s ∈ V, ∀ edge ∈ a.outgoing s, (names.classify edge.label).isImmediate = true →
    edge.target ∈ V ∧ (s ∈ T → edge.target ∈ T)
  timed : ∀ s ∈ V, ∀ edge ∈ a.outgoing s, names.classify edge.label = .timed →
    (s ∈ T ∨ a.Stable names s) → edge.target ∈ V ∧ edge.target ∈ T
  rate : ∀ s ∈ V, ∀ edge ∈ a.outgoing s, ∀ expr, names.classify edge.label = .rate expr →
    a.Stable names s → edge.target ∈ V

/-- What remains of an edge, given whether its source is timed. -/
def remnant? (timed : Bool) (edge : Edge) : Option KeptEdge :=
  let urgent := (a.urgentEdge? names edge.source).isSome
  match names.classify edge.label with
  | .silent => none
  | .interactive _ => some ⟨edge.source, .action edge.label, edge.target⟩
  | .rate expr => if urgent then none else some ⟨edge.source, .rate expr, edge.target⟩
  | .timed => if urgent && !timed then none else some ⟨edge.source, .timed edge.label, edge.target⟩

/-- The result of maximal progress in terms of the least closed pair. Its states stand in
    ascending order and the edges of a state in the order of the automaton. -/
structure LeastProgress (p : Progress) : Prop where
  least : IsLeast {pair : Set StateId × Set StateId | a.ClosedPair names pair.1 pair.2}
    ({s | s ∈ p.visited}, {s | s ∈ p.timed})
  edges : p.edges = p.visited.toList.flatMap fun s =>
    (a.outgoing s).filterMap (a.remnant? names (p.timed.contains s))
  preempted : p.preempted = (p.visited.toList.flatMap fun s =>
    (a.delays names s).filter fun edge =>
      (a.remnant? names (p.timed.contains s) edge).isNone).length

end Fixpoint

variable {a : Automaton} {names : Vocabulary} {s t : StateId} {edge : Edge} {b : Bool}
  {V T : Set StateId}

theorem follows_of_isImmediate (step : Step) (h : step.isImmediate = true) (urgent : Bool) :
    step.isPreempted urgent b = false ∧ step.entersTimed b = b := by
  unfold Step.isImmediate at h
  unfold Step.isPreempted Step.entersTimed
  cases hkind : step.kind with
  | silent => exact ⟨rfl, rfl⟩
  | interactive action => exact ⟨rfl, rfl⟩
  | rate expr => rw [hkind] at h; cases h
  | timed => rw [hkind] at h; cases h

theorem isUrgent_steps : isUrgent ((a.steps names).getD s []) =
    (a.urgentEdge? names s).isSome := by
  rw [isUrgent, ← List.isSome_find?, find?_steps, Option.isSome_map]

theorem stable_iff_isSome : a.Stable names s ↔ (a.urgentEdge? names s).isSome = false := by
  rw [stable_iff, Option.isSome_eq_false_iff, Option.isNone_iff_eq_none]

theorem mem_entries {entry : StateId × Bool} :
    entry ∈ Sweep.entries b ((a.steps names).getD s []) ↔ ∃ edge ∈ a.outgoing s,
      (Step.ofEdge names edge).isPreempted (a.urgentEdge? names s).isSome b = false ∧
      entry = (edge.target, (Step.ofEdge names edge).entersTimed b) := by
  rw [Sweep.entries, followed, isUrgent_steps, getD_steps, List.filter_map, List.map_map,
    List.mem_map]
  simp only [List.mem_filter, Function.comp_apply, Bool.not_eq_true', and_assoc,
    eq_comm (b := entry)]
  rfl

theorem kind_ofEdge (edge : Edge) : (Step.ofEdge names edge).kind = names.classify edge.label :=
  rfl

theorem ClosedPair.closed (h : a.ClosedPair names V T) :
    Sweep.Closed (a.steps names) (· ∈ V) (· ∈ T) := by
  intro s hs b hb entry hentry
  obtain ⟨edge, hedge, hkept, rfl⟩ := mem_entries.1 hentry
  by_cases himm : (names.classify edge.label).isImmediate = true
  · obtain ⟨hv, ht⟩ := h.immediate s hs edge hedge himm
    refine ⟨hv, fun hflag => ht (hb ?_)⟩
    rwa [(follows_of_isImmediate (Step.ofEdge names edge) himm false).2] at hflag
  · unfold Step.isPreempted at hkept
    unfold Step.entersTimed
    rw [kind_ofEdge] at hkept ⊢
    cases hkind : names.classify edge.label with
    | silent => rw [hkind] at himm; exact absurd rfl himm
    | interactive action => rw [hkind] at himm; exact absurd rfl himm
    | rate expr =>
      simp only [hkind] at hkept
      exact ⟨h.rate s hs edge hedge expr hkind (stable_iff_isSome.2 hkept), by simp⟩
    | timed =>
      simp only [hkind, Bool.and_eq_false_iff, Bool.not_eq_false'] at hkept
      obtain ⟨hv, ht⟩ := h.timed s hs edge hedge hkind
        (hkept.symm.imp hb stable_iff_isSome.2)
      exact ⟨hv, fun _ => ht⟩

def swept (a : Automaton) (names : Vocabulary) : Sweep :=
  (Sweep.start a.initial).run (a.steps names) 0

theorem finds_swept (a : Automaton) (names : Vocabulary) :
    Sweep.Finds (a.steps names) a.initial (a.swept names) :=
  Sweep.finds_run (a.steps names) a.initial

theorem closedPair_swept (a : Automaton) (names : Vocabulary) :
    a.ClosedPair names {s | s ∈ (a.swept names).visited} {s | s ∈ (a.swept names).timed} := by
  have hfinds := finds_swept a names
  have hentry : ∀ s ∈ (a.swept names).visited, ∀ edge ∈ a.outgoing s,
      (Step.ofEdge names edge).isPreempted (a.urgentEdge? names s).isSome
        ((a.swept names).timed.contains s) = false →
      edge.target ∈ (a.swept names).visited ∧
        ((Step.ofEdge names edge).entersTimed ((a.swept names).timed.contains s) = true →
          edge.target ∈ (a.swept names).timed) :=
    fun s hs edge hedge hkept => hfinds.closed s hs _ (mem_entries.2 ⟨edge, hedge, hkept, rfl⟩)
  refine ⟨hfinds.start, fun s hs edge hedge himm => ?_, fun s hs edge hedge htimed hcase => ?_,
    fun s hs edge hedge expr hrate hstable => ?_⟩
  · obtain ⟨hkept, hflag⟩ := follows_of_isImmediate (Step.ofEdge names edge) himm
      (b := (a.swept names).timed.contains s) (a.urgentEdge? names s).isSome
    obtain ⟨hv, ht⟩ := hentry s hs edge hedge hkept
    refine ⟨hv, fun hs => ht ?_⟩
    rw [hflag]
    exact Std.ExtTreeSet.contains_iff_mem.2 hs
  · obtain ⟨hv, ht⟩ := hentry s hs edge hedge (by
      simp only [Step.isPreempted, kind_ofEdge, htimed, Bool.and_eq_false_iff, Bool.not_eq_false']
      exact hcase.symm.imp stable_iff_isSome.1 Std.ExtTreeSet.contains_iff_mem.2)
    exact ⟨hv, ht (by simp only [Step.entersTimed, kind_ofEdge, htimed])⟩
  · exact (hentry s hs edge hedge (by
      simp only [Step.isPreempted, kind_ofEdge, hrate]
      exact stable_iff_isSome.1 hstable)).1

theorem ClosedPair.within (h : a.ClosedPair names V T) :
    (∀ s ∈ (a.swept names).visited, s ∈ V) ∧ ∀ s ∈ (a.swept names).timed, s ∈ T :=
  (finds_swept a names).least (· ∈ V) (· ∈ T) h.initial h.closed

theorem isLeast_swept (a : Automaton) (names : Vocabulary) :
    IsLeast {pair : Set StateId × Set StateId | a.ClosedPair names pair.1 pair.2}
      ({s | s ∈ (a.swept names).visited}, {s | s ∈ (a.swept names).timed}) :=
  ⟨closedPair_swept a names, fun _ hpair => ClosedPair.within hpair⟩

theorem recorded_swept (a : Automaton) (names : Vocabulary) : (a.swept names).Recorded :=
  (Sweep.recorded_start a.initial).run

theorem visited_of_visit {visit : Visit} (h : visit ∈ (a.swept names).visits.toList) :
    visit.state ∈ (a.swept names).visited := by
  have hexplored := (recorded_swept a names).explored visit h
  rw [Std.ExtTreeMap.mem_iff_isSome_getElem?, (finds_swept a names).explored] at hexplored
  by_contra hnot
  simp [hnot] at hexplored

theorem exists_last_visit (hs : s ∈ (a.swept names).visited) :
    ∃ visit ∈ (a.swept names).visits.toList, visit.state = s ∧
      visit.timed = (a.swept names).timed.contains s :=
  (recorded_swept a names).last s _ (by rw [(finds_swept a names).explored, if_pos hs])

theorem toList_of_getElem? {α : Type} {live : StateSet} {table : StateMap α} {g : StateId → α}
    (h : ∀ s : StateId, table[s]? = if s ∈ live then some (g s) else none) :
    table.toList = live.toList.map fun s => (s, g s) := by
  have hvalue : ∀ entry ∈ table.toList, entry = (entry.1, g entry.1) := by
    rintro ⟨s, value⟩ hentry
    rw [Std.ExtTreeMap.mem_toList_iff_getElem?_eq_some, h] at hentry
    split at hentry
    · rw [Option.some.inj hentry]
    · cases hentry
  have hsorted : table.keys.Pairwise (· < ·) :=
    table.ordered_keys.imp fun {s t} hlt => Nat.compare_eq_lt.1 hlt
  have hkeys : table.keys = live.toList := by
    refine List.Perm.eq_of_pairwise (fun s t _ _ hst hts => ?_) hsorted (pairwise_toList live) ?_
    · exact absurd hst (Nat.lt_asymm hts)
    · refine (List.perm_ext_iff_of_nodup (hsorted.imp Nat.ne_of_lt) (nodup_toList live)).2 ?_
      intro s
      rw [Std.ExtTreeMap.mem_keys, Std.ExtTreeMap.mem_iff_isSome_getElem?, h,
        Std.ExtTreeSet.mem_toList]
      by_cases hs : s ∈ live <;> simp [hs]
  rw [← hkeys, ← Std.ExtTreeMap.map_fst_toList_eq_keys, List.map_map]
  exact (List.map_id' _).symm.trans (List.map_congr_left hvalue)

theorem remnant?_eq (hedge : edge ∈ a.outgoing s) : a.remnant? names b edge =
    if (Step.ofEdge names edge).isPreempted (a.urgentEdge? names s).isSome b = true then none
    else (Step.ofEdge names edge).keptEdge? s := by
  obtain rfl := source_of_mem_outgoing hedge
  obtain ⟨kind, hkind⟩ : ∃ kind, names.classify edge.label = kind := ⟨_, rfl⟩
  simp only [remnant?, Step.isPreempted, Step.keptEdge?, Step.keep?, kind_ofEdge, hkind]
  cases kind <;> rfl

theorem survivors_steps : survivors s b ((a.steps names).getD s []) =
    (a.outgoing s).filterMap (a.remnant? names b) := by
  unfold survivors followed
  rw [isUrgent_steps, getD_steps, List.filter_map, List.filterMap_map, List.filterMap_filter]
  refine List.filterMap_congr fun edge hedge => ?_
  rw [remnant?_eq hedge]
  cases hlost : (Step.ofEdge names edge).isPreempted (a.urgentEdge? names s).isSome b <;>
    simp [hlost]

theorem preempted_steps : (preempted b ((a.steps names).getD s [])).length =
    ((a.delays names s).filter fun edge => (a.remnant? names b edge).isNone).length := by
  unfold preempted delays
  rw [isUrgent_steps, getD_steps, List.filter_map, List.length_map, List.filter_filter]
  refine congrArg _ (List.filter_congr fun edge hedge => ?_)
  rw [remnant?_eq hedge]
  obtain ⟨kind, hkind⟩ : ∃ kind, names.classify edge.label = kind := ⟨_, rfl⟩
  simp only [Function.comp_apply, Step.isPreempted, Step.keptEdge?, Step.keep?, kind_ofEdge, hkind]
  cases kind with
  | silent => rfl
  | interactive action => rfl
  | rate expr => cases (a.urgentEdge? names s).isSome <;> rfl
  | timed => cases (a.urgentEdge? names s).isSome && !b <;> rfl

theorem toList_explored (a : Automaton) (names : Vocabulary) : (a.swept names).explored.toList =
    (a.swept names).visited.toList.map fun s => (s, (a.swept names).timed.contains s) :=
  toList_of_getElem? (finds_swept a names).explored

theorem edges_maximalProgress (a : Automaton) (names : Vocabulary) :
    (a.maximalProgress names).edges = (a.swept names).visited.toList.flatMap fun s =>
      (a.outgoing s).filterMap (a.remnant? names ((a.swept names).timed.contains s)) := by
  have hread : (a.maximalProgress names).edges = (a.swept names).explored.toList.flatMap
      fun entry => survivors entry.1 entry.2 ((a.steps names).getD entry.1 []) := rfl
  rw [hread, toList_explored, List.flatMap_map]
  exact List.flatMap_congr fun s _ => survivors_steps

theorem preempted_maximalProgress (a : Automaton) (names : Vocabulary) :
    (a.maximalProgress names).preempted = ((a.swept names).visited.toList.flatMap fun s =>
      (a.delays names s).filter fun edge =>
        (a.remnant? names ((a.swept names).timed.contains s) edge).isNone).length := by
  have hread : (a.maximalProgress names).preempted = ((a.swept names).explored.toList.flatMap
      fun entry => preempted entry.2 ((a.steps names).getD entry.1 [])).length := rfl
  rw [hread, toList_explored, List.flatMap_map, List.length_flatMap, List.length_flatMap]
  exact congrArg List.sum (List.map_congr_left fun s _ => preempted_steps)

/-- Maximal progress computes the least closed pair and what remains by it. It has a result for
    every automaton and vocabulary. -/
theorem maximalProgress_least (a : Automaton) (names : Vocabulary) :
    a.LeastProgress names (a.maximalProgress names) :=
  ⟨isLeast_swept a names, edges_maximalProgress a names, preempted_maximalProgress a names⟩

end Automaton

end InteractiveMarkov
