import InteractiveMarkov.Proofs.Progress

set_option autoImplicit false

namespace InteractiveMarkov.Automaton

section Reports

variable (a : Automaton) (names : Vocabulary)

/-- The state has a silent edge, and of its edges nothing remains. -/
structure LeftSilent (s : StateId) : Prop where
  visited : s ∈ (a.maximalProgress names).visited
  silent : ∃ edge ∈ a.outgoing s, names.classify edge.label = .silent
  bare : ∀ kept ∈ (a.maximalProgress names).edges, kept.source ≠ s

/-- The state has silent edges, timed delays and no action. It was explored while it was not known
    to be timed, and turned out to be timed later. -/
structure Belated (s : StateId) : Prop where
  timed : s ∈ (a.maximalProgress names).timed
  early : ∃ visit ∈ (a.swept names).visits.toList, visit.state = s ∧ visit.timed = false
  silent : ∃ edge ∈ a.outgoing s, names.classify edge.label = .silent
  inactive : ∀ edge ∈ a.outgoing s, ∀ action, names.classify edge.label ≠ .interactive action
  delay : ∃ edge ∈ a.outgoing s, names.classify edge.label = .timed

/-- An exploration of the state that takes it for timed or not leaves it without edges, and it has
    a silent one. -/
structure Bares (timed : Bool) (s : StateId) : Prop where
  silent : ∃ edge ∈ a.outgoing s, names.classify edge.label = .silent
  bare : ∀ edge ∈ a.outgoing s, a.remnant? names timed edge = none

end Reports

variable {a : Automaton} {names : Vocabulary} {s : StateId} {timed : Bool}

theorem isSilentOnly_steps :
    isSilentOnly s timed ((a.steps names).getD s []) = true ↔ a.Bares names timed s := by
  have hsilent : (((a.steps names).getD s []).any fun step => step.kind == .silent) = true ↔
      ∃ edge ∈ a.outgoing s, names.classify edge.label = .silent := by
    rw [getD_steps, List.any_map, List.any_eq_true]
    simp only [Function.comp_apply, kind_ofEdge, beq_iff_eq]
  have hbare : (survivors s timed ((a.steps names).getD s [])).isEmpty = true ↔
      ∀ edge ∈ a.outgoing s, a.remnant? names timed edge = none := by
    rw [survivors_steps, List.isEmpty_iff, List.filterMap_eq_nil_iff]
  rw [isSilentOnly, Bool.and_eq_true, hbare, hsilent]
  exact ⟨fun h => ⟨h.2, h.1⟩, fun h => ⟨h.bare, h.silent⟩⟩

theorem mem_silentOnly : s ∈ (a.maximalProgress names).silentOnly ↔
    ∃ visit ∈ (a.swept names).visits.toList, visit.state = s ∧ a.Bares names visit.timed s := by
  have hread : (a.maximalProgress names).silentOnly = Std.ExtTreeSet.ofList
      (((a.swept names).visits.toList.filter fun visit =>
        isSilentOnly visit.state visit.timed ((a.steps names).getD visit.state [])).map
          (·.state)) := rfl
  rw [hread, Std.ExtTreeSet.mem_ofList, List.contains_iff_mem, List.mem_map]
  simp only [List.mem_filter, isSilentOnly_steps]
  constructor
  · rintro ⟨visit, ⟨hvisit, hbares⟩, rfl⟩
    exact ⟨visit, hvisit, rfl, hbares⟩
  · rintro ⟨visit, hvisit, rfl, hbares⟩
    exact ⟨visit, ⟨hvisit, hbares⟩, rfl⟩

/-- A silent edge makes the state urgent, so of its edges only actions remain, and its timed delays
    if it is timed. -/
theorem bares_iff (hsilent : ∃ edge ∈ a.outgoing s, names.classify edge.label = .silent) :
    a.Bares names timed s ↔
      (∀ edge ∈ a.outgoing s, ∀ action, names.classify edge.label ≠ .interactive action) ∧
      (timed = true → ∀ edge ∈ a.outgoing s, names.classify edge.label ≠ .timed) := by
  have hurgent : (a.urgentEdge? names s).isSome = true := by
    obtain ⟨edge, hedge, hkind⟩ := hsilent
    obtain ⟨first, hfirst⟩ := exists_urgentEdge? hedge (by rw [hkind]; rfl)
    rw [hfirst]
    rfl
  have hremnant : ∀ edge ∈ a.outgoing s, a.remnant? names timed edge = none ↔
      (∀ action, names.classify edge.label ≠ .interactive action) ∧
        (timed = true → names.classify edge.label ≠ .timed) := by
    intro edge hedge
    obtain rfl := source_of_mem_outgoing hedge
    unfold remnant?
    rw [hurgent]
    cases names.classify edge.label <;> cases timed <;> simp
  constructor
  · intro h
    exact ⟨fun edge hedge => ((hremnant edge hedge).1 (h.bare edge hedge)).1,
      fun htimed edge hedge => ((hremnant edge hedge).1 (h.bare edge hedge)).2 htimed⟩
  · rintro ⟨haction, hdelay⟩
    exact ⟨hsilent, fun edge hedge => (hremnant edge hedge).2
      ⟨haction edge hedge, fun htimed => hdelay htimed edge hedge⟩⟩

theorem leftSilent_iff : a.LeftSilent names s ↔ s ∈ (a.swept names).visited ∧
    a.Bares names ((a.swept names).timed.contains s) s := by
  have hedges : s ∈ (a.swept names).visited →
      ((∀ kept ∈ (a.maximalProgress names).edges, kept.source ≠ s) ↔ ∀ edge ∈ a.outgoing s,
        a.remnant? names ((a.swept names).timed.contains s) edge = none) := by
    intro hs
    constructor
    · intro h edge hedge
      rw [Option.eq_none_iff_forall_ne_some]
      intro kept hkept
      obtain ⟨-, label, -, rfl⟩ := remnant?_some hedge hkept
      exact h _ (mem_edges_maximalProgress.2 ⟨s, hs, edge, hedge, hkept⟩) rfl
    · rintro h kept hmem rfl
      obtain ⟨t, -, edge, hedge, hkept⟩ := mem_edges_maximalProgress.1 hmem
      obtain ⟨-, label, -, rfl⟩ := remnant?_some hedge hkept
      rw [h edge hedge] at hkept
      cases hkept
  constructor
  · intro h
    exact ⟨h.visited, h.silent, (hedges h.visited).1 h.bare⟩
  · rintro ⟨hs, h⟩
    exact ⟨hs, h.silent, (hedges hs).2 h.bare⟩

theorem Belated.bares (h : a.Belated names s) : a.Bares names false s :=
  (bares_iff h.silent).2 ⟨h.inactive, fun hfalse => by cases hfalse⟩

theorem Belated.exists_edge (h : a.Belated names s) :
    ∃ kept ∈ (a.maximalProgress names).edges, kept.source = s := by
  have hvisited : s ∈ (a.swept names).visited := (finds_swept a names).timed s h.timed
  have hflag : (a.swept names).timed.contains s = true := Std.ExtTreeSet.contains_iff_mem.2 h.timed
  by_contra hnone
  push Not at hnone
  obtain ⟨-, hbares⟩ := leftSilent_iff.1 ⟨hvisited, h.silent, hnone⟩
  obtain ⟨edge, hedge, htimed⟩ := h.delay
  exact ((bares_iff h.silent).1 hbares).2 hflag edge hedge htimed

theorem leftSilent_or_belated {visit : Visit} (hvisit : visit ∈ (a.swept names).visits.toList)
    (hbares : a.Bares names visit.timed visit.state) :
    a.LeftSilent names visit.state ∨ a.Belated names visit.state := by
  have hvisited := visited_of_visit hvisit
  by_cases hlast : a.Bares names ((a.swept names).timed.contains visit.state) visit.state
  · exact .inl (leftSilent_iff.2 ⟨hvisited, hlast⟩)
  · -- what has changed since is that the state became timed and has timed delays
    obtain ⟨hinactive, -⟩ := (bares_iff hbares.silent).1 hbares
    rw [bares_iff hbares.silent] at hlast
    push Not at hlast
    obtain ⟨hflag, hdelay⟩ := hlast hinactive
    refine .inr ⟨Std.ExtTreeSet.contains_iff_mem.1 hflag, ⟨visit, hvisit, rfl, ?_⟩, hbares.silent,
      hinactive, hdelay⟩
    by_contra htimed
    obtain ⟨edge, hedge, hkind⟩ := hdelay
    exact ((bares_iff hbares.silent).1 hbares).2 (by simpa using htimed) edge hedge hkind

/-- Reported are the states that are left with nothing but silent steps, and besides these exactly
    the states that turned out too late to be timed. -/
theorem silentOnly_exact (a : Automaton) (names : Vocabulary) (s : StateId) :
    (s ∈ (a.maximalProgress names).silentOnly ↔ a.LeftSilent names s ∨ a.Belated names s) ∧
    ¬ (a.LeftSilent names s ∧ a.Belated names s) := by
  refine ⟨⟨fun h => ?_, fun h => ?_⟩, fun ⟨hsilent, hbelated⟩ => ?_⟩
  · obtain ⟨visit, hvisit, rfl, hbares⟩ := mem_silentOnly.1 h
    exact leftSilent_or_belated hvisit hbares
  · rcases h with hsilent | hbelated
    · obtain ⟨hvisited, hbares⟩ := leftSilent_iff.1 hsilent
      obtain ⟨visit, hvisit, hstate, htimed⟩ := exists_last_visit hvisited
      exact mem_silentOnly.2 ⟨visit, hvisit, hstate, by rwa [htimed]⟩
    · obtain ⟨visit, hvisit, hstate, htimed⟩ := hbelated.early
      exact mem_silentOnly.2 ⟨visit, hvisit, hstate, by rw [htimed]; exact hbelated.bares⟩
  · obtain ⟨kept, hkept, hsource⟩ := hbelated.exists_edge
    exact hsilent.bare kept hkept hsource

/-- State 0 is explored first as one that is not timed, and entered at the end of a timed delay
    afterwards. -/
def turnstile : Automaton := .ofEdges 0 [⟨0, "", 1⟩, ⟨0, "time 2", 1⟩, ⟨1, "time 1", 0⟩]

theorem turnstile_not_bare :
    ¬ ∀ (a : Automaton) (names : Vocabulary) (s : StateId),
      s ∈ (a.maximalProgress names).silentOnly ↔ a.LeftSilent names s := by
  intro h
  have hreported : 0 ∈ (turnstile.maximalProgress {}).silentOnly := by decide +kernel
  have hkept : ⟨0, .timed "time 2", 1⟩ ∈ (turnstile.maximalProgress {}).edges := by decide +kernel
  exact ((h turnstile {} 0).1 hreported).bare _ hkept rfl

end InteractiveMarkov.Automaton
