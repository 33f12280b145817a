import InteractiveMarkov.Proofs.Conservation

set_option autoImplicit false

namespace InteractiveMarkov

/-- The label is that of an action, and of none that the vocabulary knows. -/
def Vocabulary.Unknown (names : Vocabulary) (label : String) : Prop :=
  label ≠ "" ∧ ¬ rateMark <+: label.toList ∧ ¬ timeMark <+: label.toList ∧ label ≠ "i" ∧
    label ≠ names.failure ∧ names.repair ≠ some label

instance decidableUnknown (names : Vocabulary) (label : String) :
    Decidable (names.Unknown label) :=
  inferInstanceAs (Decidable (_ ∧ _))

def Edge.warning (edge : Edge) : Warning := ⟨edge.source, edge.label⟩

theorem unknownAction?_classify (names : Vocabulary) (label : String) :
    (names.classify label).unknownAction? = if names.Unknown label then some label else none := by
  unfold Vocabulary.classify Vocabulary.Unknown
  simp only [List.isPrefixOf_iff_prefix]
  split_ifs <;> simp_all [LabelClass.unknownAction?]

theorem unknownAction?_eq_some {names : Vocabulary} {label found : String} :
    (names.classify label).unknownAction? = some found ↔ names.Unknown label ∧ label = found := by
  rw [unknownAction?_classify]
  by_cases h : names.Unknown label <;> simp [h]

theorem isImmediate_of_unknown {names : Vocabulary} {label : String} (h : names.Unknown label) :
    (names.classify label).isImmediate = true := by
  have hfound := unknownAction?_eq_some.2 ⟨h, rfl⟩
  cases hkind : names.classify label with
  | interactive action => rfl
  | silent => rw [hkind] at hfound; cases hfound
  | rate expr => rw [hkind] at hfound; cases hfound
  | timed => rw [hkind] at hfound; cases hfound

namespace Automaton

def UnknownAt (a : Automaton) (names : Vocabulary) (s : StateId) (label : String) : Prop :=
  names.Unknown label ∧ ∃ edge ∈ a.outgoing s, edge.label = label

variable {a : Automaton} {names : Vocabulary} {s : StateId} {w : Warning}

theorem unknownActions_steps (s : StateId) : unknownActions s ((a.steps names).getD s []) =
    ((a.outgoing s).filter fun edge => names.Unknown edge.label).map Edge.warning := by
  rw [unknownActions, getD_steps, List.filterMap_map, ← List.filterMap_eq_map, List.filterMap_filter]
  apply List.filterMap_congr
  intro edge hedge
  obtain rfl := source_of_mem_outgoing hedge
  rw [Function.comp_apply, kind_ofEdge, unknownAction?_classify]
  by_cases hunknown : names.Unknown edge.label
  · simp [hunknown, Edge.warning]
  · simp [hunknown]

theorem warnings_maximalProgress (a : Automaton) (names : Vocabulary) :
    (a.maximalProgress names).warnings = (a.swept names).firstStates.flatMap fun s =>
      ((a.outgoing s).filter fun edge => names.Unknown edge.label).map Edge.warning := by
  have hread : (a.maximalProgress names).warnings = ((a.swept names).visits.toList.filter
      (·.first)).flatMap fun visit =>
        unknownActions visit.state ((a.steps names).getD visit.state []) := rfl
  rw [hread, Sweep.firstStates, List.flatMap_map]
  exact List.flatMap_congr fun visit _ => unknownActions_steps visit.state

theorem firstOnce_swept (a : Automaton) (names : Vocabulary) : (a.swept names).FirstOnce :=
  (Sweep.firstOnce_start a.initial).run

theorem mem_firstStates : s ∈ (a.swept names).firstStates ↔ s ∈ (a.swept names).visited := by
  rw [(firstOnce_swept a names).mem, Std.ExtTreeMap.mem_iff_isSome_getElem?,
    (finds_swept a names).explored]
  by_cases hs : s ∈ (a.swept names).visited <;> simp [hs]

theorem perm_warnings_maximalProgress (a : Automaton) (names : Vocabulary) :
    (a.maximalProgress names).warnings.Perm
      (((a.edgesFrom (a.maximalProgress names).visited).filter
        fun edge => names.Unknown edge.label).map Edge.warning) := by
  have hperm := a.perm_edgesFrom (firstOnce_swept a names).nodup fun s => mem_firstStates
  rw [warnings_maximalProgress, ← List.map_flatMap, ← List.filter_flatMap]
  exact ((hperm.filter _).map _).symm

theorem mem_warned (h : a.Uniform names s) : w ∈ Step.warned s ((a.steps names).getD s []) ↔
    w.state = s ∧ a.UnknownAt names s w.label := by
  obtain ⟨state, label⟩ := w
  rw [warned_steps, List.mem_map]
  simp only [Option.mem_toList, Option.bind_eq_some_iff, unknownAction?_eq_some]
  constructor
  · rintro ⟨_, ⟨edge, hfirst, hunknown, rfl⟩, hwarning⟩
    cases hwarning
    exact ⟨rfl, hunknown, edge, (urgentEdge?_some hfirst).1, rfl⟩
  · rintro ⟨rfl, hunknown, edge, hedge, rfl⟩
    obtain ⟨first, hfirst, hlabel, -⟩ := h.eq_first hedge (isImmediate_of_unknown hunknown)
    rw [hlabel] at hunknown ⊢
    exact ⟨_, ⟨first, hfirst, hunknown, rfl⟩, rfl⟩

theorem states_warned_sublist (order : List StateId) (steps : StateId → List Step) :
    ((order.flatMap fun s => Step.warned s (steps s)).map (·.state)).Sublist order := by
  induction order with
  | nil => exact List.Sublist.refl _
  | cons s rest ih =>
    rw [List.flatMap_cons, List.map_append]
    have hone : ((Step.warned s (steps s)).map (·.state)).Sublist [s] := by
      unfold Step.warned
      cases ((steps s).find? Step.isImmediate).bind fun step => step.kind.unknownAction? with
      | none => exact List.nil_sublist _
      | some label => exact List.Sublist.refl _
    exact hone.append ih

theorem nodup_states_warnings {found : Exploration} (h : a.explore names = .ok found) :
    (found.warnings.toList.map (·.state)).Nodup := by
  rw [(explore_learned h).1.warnings]
  exact (nodup_breadthFirst _ _).sublist (states_warned_sublist _ _)

theorem mem_warnings {found : Exploration} (h : a.explore names = .ok found) :
    w ∈ found.warnings.toList ↔
      a.Reached names w.state ∧ a.UnknownAt names w.state w.label := by
  have huniform := (explore_ok h).uniform
  rw [(explore_learned h).1.warnings, List.mem_flatMap]
  constructor
  · rintro ⟨s, hs, hw⟩
    have hreached := mem_reached.1 hs
    obtain ⟨rfl, hunknown⟩ := (mem_warned (huniform s hreached)).1 hw
    exact ⟨hreached, hunknown⟩
  · rintro ⟨hreached, hunknown⟩
    exact ⟨w.state, mem_reached.2 hreached, (mem_warned (huniform _ hreached)).2 ⟨rfl, hunknown⟩⟩

/-- Visited states have one immediate edge, up to copies, and there is one warning of each state
    where that edge is an unknown action. -/
structure WarnsOnce (a : Automaton) (names : Vocabulary) (warnings : List Warning) : Prop where
  uniform : ∀ s, a.Visited names s → a.Uniform names s
  nodup : (warnings.map (·.state)).Nodup
  mem : ∀ w, w ∈ warnings ↔ a.Visited names w.state ∧ a.UnknownAt names w.state w.label

theorem reduce_warnsOnce {options : ReductionOptions} {r : Reduction}
    (h : a.reduce options = .ok r) : a.WarnsOnce options.names r.warnings := by
  obtain ⟨p, hprepare, rfl⟩ := exists_prepared h
  have hfound := prepare_found hprepare
  have huniform := (explore_ok hfound).uniform
  refine ⟨?_, nodup_states_warnings hfound, ?_⟩
  · simp only [visited_iff huniform]
    exact huniform
  · simp only [visited_iff huniform]
    exact fun w => mem_warnings hfound

/-- A reduction warns once of each visited state whose immediate edge is an unknown action, and of
    no other. The warnings of maximal progress are those of all edges with unknown actions that
    leave visited states. -/
theorem warnings_exact (a : Automaton) (options : ReductionOptions) :
    (∀ r, a.reduce options = .ok r → a.WarnsOnce options.names r.warnings) ∧
    ∃ r, a.progress options = .ok r ∧ r.warnings.Perm
      (((a.edgesFrom (a.maximalProgress options.names).visited).filter
        fun edge => options.names.Unknown edge.label).map Edge.warning) :=
  ⟨fun _ => reduce_warnsOnce, _, progress_eq a options,
    a.perm_warnings_maximalProgress options.names⟩

/-- State 0 has two copies of an edge with an unknown action. It is explored a second time because
    a timed delay that ends in it is found afterwards. -/
def gate : Automaton := .ofEdges 0
  [⟨0, "go", 1⟩, ⟨0, "go", 1⟩, ⟨1, "time 1", 0⟩, ⟨1, "rate 2", 2⟩, ⟨2, "FAIL", 1⟩]

theorem gate_warnings :
    ((gate.swept {}).visits.toList.filter (·.state = 0)).length = 2 ∧
    ∃ r q, gate.reduce {} = .ok r ∧ r.warnings = [⟨0, "go"⟩] ∧ gate.Visited {} 0 ∧
      gate.UnknownAt {} 0 "go" ∧ gate.progress {} = .ok q ∧
      q.warnings.Perm [⟨0, "go"⟩, ⟨0, "go"⟩] := by
  have hrun : (gate.reduce {}).toOption.map (·.warnings) = some [⟨0, "go"⟩] := by decide +kernel
  have hedges : ((gate.edgesFrom (gate.maximalProgress {}).visited).filter
      fun edge => Vocabulary.Unknown {} edge.label).map Edge.warning =
        [⟨0, "go"⟩, ⟨0, "go"⟩] := by
    decide +kernel
  obtain ⟨hreduce, q, hq, hperm⟩ := warnings_exact gate {}
  rw [hedges] at hperm
  obtain ⟨r, hr, hwarnings⟩ := exists_ok_of_map hrun
  have hmem : ⟨0, "go"⟩ ∈ r.warnings := by
    rw [hwarnings]
    exact List.mem_cons_self
  obtain ⟨hvisited, hunknown⟩ := ((hreduce r hr).mem _).1 hmem
  exact ⟨by decide +kernel, r, q, hr, hwarnings, hvisited, hunknown, hq, hperm⟩

end Automaton

end InteractiveMarkov
