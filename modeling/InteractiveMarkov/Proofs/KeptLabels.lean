import InteractiveMarkov.Proofs.Reachability
import InteractiveMarkov.Proofs.Records

set_option autoImplicit false

namespace InteractiveMarkov

variable {names : Vocabulary} {label : String} {kept : KeptLabel}

theorem classify_rate (h : rateMark.isPrefixOf label.toList = true) : names.classify label =
    .rate (String.ofList (Text.trim (label.toList.drop rateMark.length))) := by
  have hne : label ≠ "" := by
    rintro rfl
    cases h
  rw [Vocabulary.classify, if_neg hne, if_pos h]

theorem classify_eq_silent_iff : names.classify label = .silent ↔ label = "" := by
  unfold Vocabulary.classify
  split_ifs with hempty
  · exact iff_of_true rfl hempty
  all_goals exact iff_of_false (fun h => by cases h) hempty

theorem isDelay_classify (names : Vocabulary) (label : String) :
    (names.classify label).isDelay =
      (rateMark.isPrefixOf label.toList || timeMark.isPrefixOf label.toList) := by
  by_cases hempty : label = ""
  · subst hempty
    rfl
  · rw [Vocabulary.classify, if_neg hempty]
    cases rateMark.isPrefixOf label.toList with
    | true => rfl
    | false =>
      cases timeMark.isPrefixOf label.toList with
      | true => rfl
      | false =>
        simp only [Bool.false_eq_true, if_false, Bool.or_self]
        split_ifs <;> rfl

theorem keep?_ne_none_iff {kind : LabelClass} : kind.keep? label ≠ none ↔ kind ≠ .silent := by
  cases kind <;> simp [LabelClass.keep?]

theorem classify_text (h : (names.classify label).keep? label = some kept) :
    names.classify kept.text = names.classify label ∧
      delayLabel kept.text = delayLabel label ∧
      ((names.classify label).isImmediate = true → kept.text = label) := by
  by_cases hrate : rateMark.isPrefixOf label.toList = true
  · rw [classify_rate hrate] at h
    cases h
    have htext : (KeptLabel.rate (String.ofList
        (Text.trim (label.toList.drop rateMark.length)))).text.toList =
        rateMark ++ Text.trim (label.toList.drop rateMark.length) := by
      rw [KeptLabel.text, String.toList_append, String.toList_ofList, String.toList_ofList]
    have hmark : rateMark.isPrefixOf (KeptLabel.rate (String.ofList
        (Text.trim (label.toList.drop rateMark.length)))).text.toList = true := by
      rw [htext, List.isPrefixOf_iff_prefix]
      exact List.prefix_append _ _
    refine ⟨?_, ?_, fun himm => ?_⟩
    · rw [classify_rate hmark, classify_rate hrate, htext, List.drop_left, Text.trim_trim]
    · rw [delayLabel, delayLabel, if_pos hmark, if_pos hrate, htext, List.drop_left,
        Text.trim_trim]
    · rw [classify_rate hrate] at himm
      cases himm
  · have hsame : kept.text = label := by
      unfold Vocabulary.classify at h
      split_ifs at h <;> cases h <;> rfl
    rw [hsame]
    exact ⟨rfl, rfl, fun _ => rfl⟩

theorem keep?_text (h : (names.classify label).keep? label = some kept) :
    (names.classify kept.text).keep? kept.text = some kept := by
  rw [(classify_text h).1]
  cases hkind : names.classify label with
  | silent =>
    rw [hkind] at h
    cases h
  | rate expr =>
    rw [hkind] at h
    exact h
  | interactive action =>
    rw [hkind] at h
    cases h
    rfl
  | timed =>
    rw [hkind] at h
    cases h
    rfl

theorem text_ne_empty (h : (names.classify label).keep? label = some kept) : kept.text ≠ "" := by
  intro hempty
  have hloud := keep?_ne_none_iff.1 (Option.ne_none_iff_exists'.2 ⟨kept, h⟩)
  rw [← (classify_text h).1] at hloud
  exact hloud (classify_eq_silent_iff.2 hempty)

/-- An edge with a label that is not empty keeps something of it. Written to a file, this has a text
    that is not empty and comes back as it is; an edge with it means and keeps the same. Even if the
    names of the actions have changed in the meantime, it is not silent, and it is a delay if the
    first edge was one and an action otherwise. -/
theorem keptLabel_stable (names : Vocabulary) (edge : Edge) (hlabel : edge.label ≠ "") :
    ∃ kept, (Step.ofEdge names edge).keep? = some kept ∧ kept.text ≠ "" ∧
      (∀ (s t : StateId) (line : Nat), s < stateBound → t < stateBound →
        Aldebaran.parseTransition (Aldebaran.record s kept.text t) line =
          .ok ⟨s, kept.text, t⟩) ∧
      ∀ again : Edge, again.label = kept.text →
        (Step.ofEdge names again).kind = (Step.ofEdge names edge).kind ∧
        (Step.ofEdge names again).keep? = some kept ∧
        ∀ others : Vocabulary, (Step.ofEdge others again).kind ≠ .silent ∧
          (Step.ofEdge others again).isDelay = (Step.ofEdge names edge).isDelay := by
  have hloud : names.classify edge.label ≠ .silent := fun h => hlabel (classify_eq_silent_iff.1 h)
  obtain ⟨kept, hkept⟩ := Option.ne_none_iff_exists'.1 (keep?_ne_none_iff.2 hloud)
  have hclass : names.classify kept.text = names.classify edge.label := (classify_text hkept).1
  refine ⟨kept, hkept, text_ne_empty hkept,
    fun s t line hs ht => Aldebaran.parseTransition_record kept.text hs ht, fun again hagain => ?_⟩
  have hothers : ∀ others : Vocabulary, (others.classify again.label).isDelay =
      (names.classify edge.label).isDelay := by
    intro others
    rw [← hclass, hagain, isDelay_classify, isDelay_classify]
  refine ⟨?_, ?_, fun others => ⟨?_, hothers others⟩⟩
  · exact (congrArg names.classify hagain).trans hclass
  · rw [Step.keep?, Step.ofEdge, hagain]
    exact keep?_text hkept
  · intro hsilent
    exact text_ne_empty hkept (hagain ▸ classify_eq_silent_iff.1 hsilent)

/-- The names of the actions look like delays. -/
def eccentric : Vocabulary := ⟨"rate 2", some "time 1"⟩

theorem eccentric_stable : (Step.ofEdge eccentric ⟨0, "rate  2\t", 1⟩).keep? = some (.rate "2") ∧
    eccentric.classify "rate 2" = .rate "2" ∧
    Aldebaran.parseTransition "(3, \"rate 2\", 4)" 1 = .ok ⟨3, "rate 2", 4⟩ ∧
    ∀ others : Vocabulary, (others.classify "rate 2").isDelay = true := by
  have hkeep : (Step.ofEdge eccentric ⟨0, "rate  2\t", 1⟩).keep? = some (.rate "2") := by decide
  obtain ⟨kept, hkept, -, hread, hagain⟩ :=
    keptLabel_stable eccentric ⟨0, "rate  2\t", 1⟩ (by decide)
  obtain rfl : kept = .rate "2" := Option.some.inj (hkept.symm.trans hkeep)
  obtain ⟨hkind, -, hothers⟩ := hagain ⟨3, "rate 2", 4⟩ (by decide)
  exact ⟨hkeep, hkind, hread 3 4 1 (by decide) (by decide), fun others => (hothers others).2⟩

end InteractiveMarkov
