import InteractiveMarkov.Execution
import InteractiveMarkov.Proofs.Warnings
import Mathlib.Data.Set.Card

set_option autoImplicit false

namespace InteractiveMarkov

/-- Sizes of groups by their labels, and the states of their first warnings. -/
abbrev Groups := Std.ExtTreeMap String (Nat × StateId) compare

variable {groups : Groups} {seen rest warnings : List Warning} {label : String} {w : Warning}

def Groups.add (groups : Groups) (w : Warning) : Groups :=
  match groups[w.label]? with
  | none => groups.insert w.label (1, w.state)
  | some (count, first) => groups.insert w.label (count + 1, first)

def Groups.Of (groups : Groups) (seen : List Warning) : Prop :=
  ∀ label : String, groups[label]? = (seen.find? (·.label = label)).map fun w =>
    (seen.countP (·.label = label), w.state)

theorem Groups.Of.add (h : groups.Of seen) (w : Warning) : (groups.add w).Of (seen ++ [w]) := by
  intro label
  have hgroup := h w.label
  by_cases hlabel : w.label = label
  · subst hlabel
    unfold Groups.add
    cases hfind : seen.find? (·.label = w.label) with
    | none =>
      have hcount : seen.countP (·.label = w.label) = 0 :=
        List.countP_eq_zero.2 (List.find?_eq_none.1 hfind)
      rw [hfind] at hgroup
      simp [hgroup, hfind, hcount, List.find?_append, List.countP_append]
    | some first =>
      rw [hfind] at hgroup
      simp [hgroup, hfind, List.find?_append, List.countP_append]
  · have hstay : (groups.add w)[label]? = groups[label]? := by
      unfold Groups.add
      split <;> simp [Std.ExtTreeMap.getElem?_insert, hlabel]
    rw [hstay, h label]
    simp [List.find?_append, List.countP_append, hlabel]

theorem Groups.Of.run (h : groups.Of seen) : (rest.foldl Groups.add groups).Of (seen ++ rest) := by
  induction rest generalizing groups seen with
  | nil => rwa [List.append_nil]
  | cons w rest ih =>
    have hrest := ih (h.add w)
    rwa [List.append_assoc] at hrest

theorem groupWarnings_of (warnings : List Warning) :
    Groups.Of (groupWarnings warnings) warnings := by
  have hempty : Groups.Of ∅ [] := fun _ => rfl
  exact hempty.run

/-- There is one group for each label that occurs. It has the weight of the label, and the state of
    the first warning with it. -/
structure Grouped (warnings : List Warning) (occurs : String → Set StateId)
    (weight : String → Nat) : Prop where
  mem : ∀ label, label ∈ groupWarnings warnings ↔ (occurs label).Nonempty
  entry : ∀ label count first, (groupWarnings warnings)[label]? = some (count, first) →
    count = weight label ∧ first ∈ occurs label ∧
      ∃ w, warnings.find? (·.label = label) = some w ∧ w.state = first

/-- What the line of a notice says is so. Only notices of unknown labels speak of states. -/
def Notice.IsTrue (occurs : String → Set StateId) : Notice → Prop
  | .unknownLabel label count first =>
    if count = 1 then occurs label = {first}
    else (occurs label).ncard = count ∧ first ∈ occurs label
  | _ => True

variable {occurs : String → Set StateId} {weight : String → Nat} {r : Reduction}

theorem grouped_of_mem (hmem : ∀ label s, s ∈ occurs label ↔ ⟨s, label⟩ ∈ warnings)
    (hweight : ∀ label, (occurs label).Nonempty →
      warnings.countP (·.label = label) = weight label) : Grouped warnings occurs weight := by
  have hgroups := groupWarnings_of warnings
  refine ⟨fun label => ?_, fun label count first hentry => ?_⟩
  · rw [Std.ExtTreeMap.mem_iff_isSome_getElem?, hgroups label, Option.isSome_map,
      List.find?_isSome]
    constructor
    · rintro ⟨⟨s, found⟩, hw, hlabel⟩
      obtain rfl : found = label := of_decide_eq_true hlabel
      exact ⟨s, (hmem found s).2 hw⟩
    · rintro ⟨s, hs⟩
      exact ⟨_, (hmem label s).1 hs, decide_eq_true rfl⟩
  · rw [hgroups label] at hentry
    obtain ⟨⟨s, found⟩, hfind, hvalue⟩ := Option.map_eq_some_iff.1 hentry
    cases hvalue
    have hlabel := List.find?_some hfind
    obtain rfl : found = label := of_decide_eq_true hlabel
    have hfirst : s ∈ occurs found := (hmem found s).2 (List.mem_of_find?_eq_some hfind)
    exact ⟨hweight found ⟨s, hfirst⟩, hfirst, _, hfind, rfl⟩

theorem isTrue_unknownLabel {count : Nat} {first : StateId} :
    (Notice.unknownLabel label count first).IsTrue occurs ↔
      (occurs label).ncard = count ∧ first ∈ occurs label := by
  by_cases hone : count = 1
  · rw [Notice.IsTrue, if_pos hone, hone, Set.ncard_eq_one]
    constructor
    · intro h
      exact ⟨⟨first, h⟩, h ▸ Set.mem_singleton first⟩
    · rintro ⟨⟨s, h⟩, hfirst⟩
      rw [h, Set.mem_singleton_iff] at hfirst
      rw [h, hfirst]
  · rw [Notice.IsTrue, if_neg hone]

theorem Grouped.isTrue_iff (h : Grouped r.warnings occurs weight) :
    (∀ notice ∈ r.notices, notice.IsTrue occurs) ↔
      ∀ label, (occurs label).Nonempty → (occurs label).ncard = weight label := by
  constructor
  · intro htrue label hlabel
    have hgroup := (h.mem label).2 hlabel
    rw [Std.ExtTreeMap.mem_iff_isSome_getElem?, Option.isSome_iff_exists] at hgroup
    obtain ⟨⟨count, first⟩, hentry⟩ := hgroup
    obtain ⟨hcount, -⟩ := h.entry label count first hentry
    have hnotice : Notice.unknownLabel label count first ∈ r.notices :=
      List.mem_append_right _ (List.mem_map.2
        ⟨(label, count, first), Std.ExtTreeMap.mem_toList_iff_getElem?_eq_some.2 hentry, rfl⟩)
    rw [← hcount]
    exact (isTrue_unknownLabel.1 (htrue _ hnotice)).1
  · intro hcounts notice hnotice
    rcases List.mem_append.1 hnotice with hsilent | hgroup
    · split at hsilent
      · cases hsilent
      · obtain rfl := List.mem_singleton.1 hsilent
        trivial
    · obtain ⟨⟨label, count, first⟩, hmem, rfl⟩ := List.mem_map.1 hgroup
      have hentry := Std.ExtTreeMap.mem_toList_iff_getElem?_eq_some.1 hmem
      obtain ⟨rfl, hfirst, -⟩ := h.entry label count first hentry
      exact isTrue_unknownLabel.2 ⟨hcounts label ⟨first, hfirst⟩, hfirst⟩

theorem countP_label_eq_ncard (hnodup : (warnings.map (·.state)).Nodup)
    (hmem : ∀ s, s ∈ occurs label ↔ ⟨s, label⟩ ∈ warnings) :
    warnings.countP (·.label = label) = (occurs label).ncard := by
  have hstates : ((warnings.filter (·.label = label)).map (·.state)).Nodup :=
    hnodup.sublist (List.filter_sublist.map _)
  have hlist : ∀ s, s ∈ occurs label ↔
      s ∈ (warnings.filter (·.label = label)).map (·.state) := by
    intro s
    rw [hmem, List.mem_map]
    constructor
    · intro hs
      exact ⟨_, List.mem_filter.2 ⟨hs, decide_eq_true rfl⟩, rfl⟩
    · rintro ⟨⟨t, found⟩, hkept, rfl⟩
      obtain ⟨hw, hlabel⟩ := List.mem_filter.1 hkept
      obtain rfl : found = label := of_decide_eq_true hlabel
      exact hw
  rw [ncard_eq_length hstates hlist, List.length_map, List.countP_eq_length_filter]

section Sums

variable {states : List StateId} {size : StateId → Nat}

theorem countP_pos_le_sum : states.countP (fun s => 0 < size s) ≤ (states.map size).sum := by
  induction states with
  | nil => exact Nat.le_refl 0
  | cons s rest ih =>
    rw [List.countP_cons, List.map_cons, List.sum_cons]
    simp only [decide_eq_true_eq]
    split <;> omega

/-- A sum of sizes counts the states with a positive one only if no size is above one. -/
theorem countP_pos_eq_sum_iff :
    states.countP (fun s => 0 < size s) = (states.map size).sum ↔ ∀ s ∈ states, size s ≤ 1 := by
  induction states with
  | nil => simp
  | cons s rest ih =>
    have hle : rest.countP (fun s => 0 < size s) ≤ (rest.map size).sum := countP_pos_le_sum
    rw [List.countP_cons, List.map_cons, List.sum_cons, List.forall_mem_cons, ← ih]
    simp only [decide_eq_true_eq]
    split <;> omega

end Sums

namespace Automaton

def occurrences (a : Automaton) (names : Vocabulary) (states : Set StateId) (label : String) :
    Set StateId :=
  {s | s ∈ states ∧ a.UnknownAt names s label}

variable {a : Automaton} {names : Vocabulary} {s : StateId} {states : StateSet}

theorem unknownAt_iff (hunknown : names.Unknown label) :
    a.UnknownAt names s label ↔ 0 < (a.outgoing s).countP (·.label = label) := by
  rw [UnknownAt, List.countP_pos_iff]
  simp only [hunknown, true_and, decide_eq_true_eq]

theorem ncard_occurrences (hunknown : names.Unknown label) :
    (a.occurrences names {s | s ∈ states} label).ncard =
      states.toList.countP fun s => 0 < (a.outgoing s).countP (·.label = label) := by
  have hlist : ∀ s, s ∈ a.occurrences names {s | s ∈ states} label ↔
      s ∈ states.toList.filter fun s => 0 < (a.outgoing s).countP (·.label = label) := by
    intro s
    rw [List.mem_filter, Std.ExtTreeSet.mem_toList, decide_eq_true_eq, ← unknownAt_iff hunknown]
    rfl
  rw [ncard_eq_length ((nodup_toList states).filter _) hlist, List.countP_eq_length_filter]

theorem mem_warnings_maximalProgress : w ∈ (a.maximalProgress names).warnings ↔
    w.state ∈ (a.maximalProgress names).visited ∧ a.UnknownAt names w.state w.label := by
  rw [(a.perm_warnings_maximalProgress names).mem_iff, List.mem_map]
  simp only [List.mem_filter, edgesFrom, decide_eq_true_eq, Std.ExtTreeSet.contains_iff_mem]
  constructor
  · rintro ⟨edge, ⟨⟨hedge, hvisited⟩, hunknown⟩, rfl⟩
    exact ⟨hvisited, hunknown, edge, List.mem_filter.2 ⟨hedge, decide_eq_true rfl⟩, rfl⟩
  · rintro ⟨hvisited, hunknown, edge, hedge, hlabel⟩
    obtain ⟨hmem, hsource⟩ := List.mem_filter.1 hedge
    have hsame : edge.source = w.state := of_decide_eq_true hsource
    rw [← hsame] at hvisited
    rw [← hlabel] at hunknown
    refine ⟨edge, ⟨⟨hmem, hvisited⟩, hunknown⟩, ?_⟩
    rw [Edge.warning, hsame, hlabel]

theorem countP_warnings_maximalProgress (hunknown : names.Unknown label) :
    (a.maximalProgress names).warnings.countP (·.label = label) =
      (a.edgesFrom (a.maximalProgress names).visited).countP (·.label = label) := by
  rw [(a.perm_warnings_maximalProgress names).countP_eq, List.countP_map, List.countP_filter]
  apply List.countP_congr
  intro edge _
  have hkeep : edge.label = label → names.Unknown edge.label := fun hlabel => hlabel ▸ hunknown
  rw [Bool.and_eq_true, Function.comp_apply, Edge.warning, decide_eq_true_eq, decide_eq_true_eq]
  exact ⟨And.left, fun hlabel => ⟨hlabel, hkeep hlabel⟩⟩

theorem WarnsOnce.grouped (h : a.WarnsOnce names warnings) :
    Grouped warnings (a.occurrences names {s | a.Visited names s}) fun label =>
      (a.occurrences names {s | a.Visited names s} label).ncard := by
  have hmem : ∀ label s, s ∈ a.occurrences names {s | a.Visited names s} label ↔
      ⟨s, label⟩ ∈ warnings := fun label s => (h.mem ⟨s, label⟩).symm
  exact grouped_of_mem hmem fun label _ => countP_label_eq_ncard h.nodup (hmem label)

theorem progress_grouped (a : Automaton) (names : Vocabulary) :
    Grouped (a.maximalProgress names).warnings
      (a.occurrences names {s | s ∈ (a.maximalProgress names).visited}) fun label =>
        (a.edgesFrom (a.maximalProgress names).visited).countP (·.label = label) := by
  refine grouped_of_mem (fun label s => ?_) fun label hlabel => ?_
  · exact (mem_warnings_maximalProgress (w := ⟨s, label⟩)).symm
  · obtain ⟨s, -, hunknown, -⟩ := hlabel
    exact countP_warnings_maximalProgress hunknown

theorem ncard_eq_countP_iff (hunknown : names.Unknown label) :
    (a.occurrences names {s | s ∈ states} label).ncard =
        (a.edgesFrom states).countP (·.label = label) ↔
      ∀ s ∈ states, (a.outgoing s).countP (·.label = label) ≤ 1 := by
  have hmem : ∀ s, s ∈ states.toList ↔ s ∈ states := fun s => Std.ExtTreeSet.mem_toList
  rw [ncard_occurrences hunknown, a.countP_edgesFrom (nodup_toList states) hmem,
    countP_pos_eq_sum_iff]
  simp only [hmem]

theorem progress_isTrue_iff (a : Automaton) (options : ReductionOptions) :
    (∀ notice ∈ (a.progressed options.names).notices, notice.IsTrue
      (a.occurrences options.names {s | s ∈ (a.maximalProgress options.names).visited})) ↔
    ∀ s ∈ (a.maximalProgress options.names).visited, ∀ label, options.names.Unknown label →
      (a.outgoing s).countP (·.label = label) ≤ 1 := by
  have hgrouped : Grouped (a.progressed options.names).warnings _ _ :=
    a.progress_grouped options.names
  rw [hgrouped.isTrue_iff]
  constructor
  · intro h s hs label hunknown
    by_contra hmany
    have hmem : s ∈ a.occurrences options.names
        {s | s ∈ (a.maximalProgress options.names).visited} label :=
      ⟨hs, (unknownAt_iff hunknown).2 (by omega)⟩
    exact hmany ((ncard_eq_countP_iff hunknown).1 (h label ⟨s, hmem⟩) s hs)
  · intro h label hlabel
    obtain ⟨_, -, hunknown, -⟩ := hlabel
    exact (ncard_eq_countP_iff hunknown).2 fun s hs => h s hs label hunknown

/-- For each unknown label that occurs at visited states there is one group, with the state of the
    first warning. After a reduction its size is the number of these states, and the lines about
    labels are true. After maximal progress it is the number of edges with the label that leave
    visited states; the lines are true exactly if no visited state has two such edges. -/
theorem notices_exact (a : Automaton) (options : ReductionOptions) :
    (∀ r, a.reduce options = .ok r →
      Grouped r.warnings (a.occurrences options.names {s | a.Visited options.names s})
        (fun label => (a.occurrences options.names {s | a.Visited options.names s} label).ncard) ∧
      ∀ notice ∈ r.notices,
        notice.IsTrue (a.occurrences options.names {s | a.Visited options.names s})) ∧
    ∃ r, a.progress options = .ok r ∧
      Grouped r.warnings
        (a.occurrences options.names {s | s ∈ (a.maximalProgress options.names).visited})
        (fun label =>
          (a.edgesFrom (a.maximalProgress options.names).visited).countP (·.label = label)) ∧
      ((∀ notice ∈ r.notices, notice.IsTrue
          (a.occurrences options.names {s | s ∈ (a.maximalProgress options.names).visited})) ↔
        ∀ s ∈ (a.maximalProgress options.names).visited, ∀ label, options.names.Unknown label →
          (a.outgoing s).countP (·.label = label) ≤ 1) := by
  refine ⟨fun r hr => ?_, _, progress_eq a options, a.progress_grouped options.names,
    a.progress_isTrue_iff options⟩
  have hgrouped := (reduce_warnsOnce hr).grouped
  exact ⟨hgrouped, hgrouped.isTrue_iff.2 fun _ _ => rfl⟩

theorem gate_notices : ∃ r q, gate.reduce {} = .ok r ∧ r.notices = [.unknownLabel "go" 1 0] ∧
    gate.occurrences {} {s | gate.Visited {} s} "go" = {0} ∧ gate.progress {} = .ok q ∧
      q.notices = [.unknownLabel "go" 2 0] ∧ ¬ ∀ notice ∈ q.notices,
        notice.IsTrue (gate.occurrences {} {s | s ∈ (gate.maximalProgress {}).visited}) := by
  have hrun : (gate.reduce {}).toOption.map (·.notices) = some [.unknownLabel "go" 1 0] := by
    decide +kernel
  have hnotices : (gate.progress {}).toOption.map (·.notices) = some [.unknownLabel "go" 2 0] := by
    decide +kernel
  obtain ⟨hreduce, q, hq, -, htrue⟩ := notices_exact gate {}
  have hcopies : ¬ (gate.outgoing 0).countP (·.label = "go") ≤ 1 := by decide
  obtain ⟨r, hr, hone⟩ := exists_ok_of_map hrun
  rw [hq] at hnotices
  have hline := (hreduce r hr).2 _ (hone ▸ List.mem_cons_self)
  refine ⟨r, q, hr, hone, hline, hq, Option.some.inj hnotices, fun h => hcopies ?_⟩
  exact htrue.1 h 0 (by decide +kernel) "go" (by decide)

/-- An unknown action with two targets. -/
def crossing : Automaton := .ofEdges 0 [⟨0, "go", 1⟩, ⟨0, "go", 2⟩]

theorem crossing_miscounted : ¬ ∀ (a : Automaton) (options : ReductionOptions) (r : Reduction),
    a.progress options = .ok r → ∀ label count first,
      (groupWarnings r.warnings)[label]? = some (count, first) → count = (a.occurrences
        options.names {s | s ∈ (a.maximalProgress options.names).visited} label).ncard := by
  intro h
  have hgroup : (groupWarnings (crossing.progressed {}).warnings)["go"]? = some (2, 0) := by
    decide +kernel
  have hstates : (crossing.maximalProgress {}).visited.toList.countP
      (fun s => 0 < (crossing.outgoing s).countP (·.label = "go")) = 1 := by
    decide +kernel
  have hcount := h crossing {} _ (progress_eq crossing {}) "go" 2 0 hgroup
  rw [ncard_occurrences (by decide), hstates] at hcount
  cases hcount

end Automaton

end InteractiveMarkov
