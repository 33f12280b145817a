import InteractiveMarkov.Text.Blank
import Mathlib.Data.List.TakeWhile

set_option autoImplicit false

namespace InteractiveMarkov.Text

def Padded (inner text : List Char) : Prop :=
  ∃ before behind, allBlank before = true ∧ allBlank behind = true ∧
    text = before ++ inner ++ behind

/-- The inner text is the other without the white space at its ends. -/
structure IsTrimOf (inner text : List Char) : Prop where
  padded : Padded inner text
  head : ∀ c ∈ inner.head?, isBlank c = false
  last : ∀ c ∈ inner.getLast?, isBlank c = false

variable {c : Char} {blanks cs inner text rest : List Char}

theorem CodeRanges.disjoint {a b : CodeRanges}
    (h : ∀ x ∈ a, ∀ y ∈ b, x.2 < y.1 ∨ y.2 < x.1) (hc : a.contains c = true) :
    b.contains c = false := by
  rw [← Bool.not_eq_true]
  intro hother
  obtain ⟨x, hx, hin⟩ := List.any_eq_true.1 hc
  obtain ⟨y, hy, hout⟩ := List.any_eq_true.1 hother
  simp only [Bool.and_eq_true, decide_eq_true_eq] at hin hout
  have hapart := h x hx y hy
  omega

theorem not_isDecimal_of_isBlank (h : isBlank c = true) : isDecimal c = false :=
  CodeRanges.disjoint (by decide +kernel) h

theorem not_isBlank_of_isDecimal (h : isDecimal c = true) : isBlank c = false := by
  cases hc : isBlank c with
  | false => rfl
  | true => rw [not_isDecimal_of_isBlank hc] at h; cases h

theorem skipBlanks_append (h : allBlank blanks = true) (cs : List Char) :
    skipBlanks (blanks ++ cs) = skipBlanks cs :=
  List.dropWhile_append_of_pos (List.all_eq_true.1 h)

theorem skipBlanks_of_head (h : ∀ c ∈ cs.head?, isBlank c = false) : skipBlanks cs = cs := by
  cases cs with
  | nil => rfl
  | cons c cs => exact List.dropWhile_cons_of_neg (by simp [h c rfl])

theorem head_skipBlanks (cs : List Char) : ∀ c ∈ (skipBlanks cs).head?, isBlank c = false := by
  intro c hc
  have hnot := List.head?_dropWhile_not isBlank cs
  rw [← skipBlanks, Option.mem_def.1 hc] at hnot
  exact hnot

theorem skipBlanks_stop (hc : isBlank c = false) (cs rest : List Char) :
    skipBlanks (cs ++ c :: rest) = skipBlanks cs ++ c :: rest := by
  have hstop : skipBlanks (c :: rest) = c :: rest :=
    skipBlanks_of_head fun d hd => Option.some.inj hd ▸ hc
  rw [skipBlanks] at hstop ⊢
  rw [List.dropWhile_append, hstop, ← skipBlanks]
  split
  · rename_i hempty
    rw [List.isEmpty_iff.1 hempty]
    rfl
  · rfl

theorem exists_blanks (cs : List Char) :
    ∃ blanks, allBlank blanks = true ∧ cs = blanks ++ skipBlanks cs :=
  ⟨cs.takeWhile isBlank, List.all_takeWhile, List.takeWhile_append_dropWhile.symm⟩

theorem allBlank_append {cs ds : List Char} :
    allBlank (cs ++ ds) = true ↔ allBlank cs = true ∧ allBlank ds = true := by
  rw [allBlank, List.all_append, Bool.and_eq_true]
  rfl

theorem allBlank_reverse : allBlank cs.reverse = allBlank cs := List.all_reverse

theorem IsTrimOf.trim_eq (h : IsTrimOf inner text) : trim text = inner := by
  obtain ⟨⟨before, behind, hbefore, hbehind, rfl⟩, hhead, hlast⟩ := h
  rw [trim, List.append_assoc, skipBlanks_append hbefore]
  cases inner with
  | nil =>
    have hnone : skipBlanks behind = [] := List.dropWhile_eq_nil_iff.2 (List.all_eq_true.1 hbehind)
    rw [List.nil_append, hnone]
    rfl
  | cons c inner =>
    have hkeep : skipBlanks (c :: inner ++ behind) = c :: inner ++ behind :=
      skipBlanks_of_head fun d hd => hhead d hd
    rw [hkeep, trimEnd, List.reverse_append, skipBlanks_append (allBlank_reverse.trans hbehind),
      skipBlanks_of_head, List.reverse_reverse]
    rwa [List.head?_reverse]

theorem isTrimOf_trim (text : List Char) : IsTrimOf (trim text) text := by
  obtain ⟨before, hbefore, htext⟩ := exists_blanks text
  obtain ⟨behind, hbehind, hrest⟩ := exists_blanks (skipBlanks text).reverse
  have hsplit : skipBlanks text = trim text ++ behind.reverse := by
    rw [trim, trimEnd, ← List.reverse_append, ← hrest, List.reverse_reverse]
  refine ⟨⟨before, behind.reverse, hbefore, allBlank_reverse.trans hbehind, ?_⟩, ?_, ?_⟩
  · rw [List.append_assoc, ← hsplit]
    exact htext
  · intro c hc
    refine head_skipBlanks text c ?_
    rw [hsplit, List.head?_append, Option.mem_def.1 hc]
    rfl
  · intro c hc
    refine head_skipBlanks (skipBlanks text).reverse c ?_
    rwa [trim, trimEnd, List.getLast?_reverse] at hc

theorem trim_trim (cs : List Char) : trim (trim cs) = trim cs := by
  obtain ⟨-, hhead, hlast⟩ := isTrimOf_trim cs
  have hself : IsTrimOf (trim cs) (trim cs) := ⟨⟨[], [], rfl, rfl, by simp⟩, hhead, hlast⟩
  exact hself.trim_eq

theorem IsTrimOf.padded_text (h : IsTrimOf inner text) {padded : List Char}
    (hpadded : Padded text padded) : IsTrimOf inner padded := by
  obtain ⟨⟨before, behind, hbefore, hbehind, rfl⟩, hhead, hlast⟩ := h
  obtain ⟨left, right, hleft, hright, rfl⟩ := hpadded
  refine ⟨⟨left ++ before, behind ++ right, allBlank_append.2 ⟨hleft, hbefore⟩,
    allBlank_append.2 ⟨hbehind, hright⟩, ?_⟩, hhead, hlast⟩
  simp only [List.append_assoc]

theorem longest_iff {p : Char → Bool} {run : List Char} :
    cs.takeWhile p = run ∧ cs.drop (cs.takeWhile p).length = rest ↔
      cs = run ++ rest ∧ (∀ c ∈ run, p c = true) ∧ ∀ c ∈ rest.head?, p c = false := by
  constructor
  · rintro ⟨rfl, rfl⟩
    have hdrop : cs.drop (cs.takeWhile p).length = cs.dropWhile p := by
      have hsplit := congrArg (List.drop (cs.takeWhile p).length)
        (List.takeWhile_append_dropWhile (p := p) (l := cs))
      rw [List.drop_left] at hsplit
      exact hsplit.symm
    rw [hdrop]
    refine ⟨List.takeWhile_append_dropWhile.symm, fun c => List.mem_takeWhile_imp,
      fun c hc => ?_⟩
    have hnot := List.head?_dropWhile_not p cs
    rw [Option.mem_def.1 hc] at hnot
    exact hnot
  · rintro ⟨rfl, hrun, hrest⟩
    have hnone : rest.takeWhile p = [] := by
      cases rest with
      | nil => rfl
      | cons c rest => exact List.takeWhile_cons_of_neg (by simp [hrest c rfl])
    have htake : (run ++ rest).takeWhile p = run := by
      rw [List.takeWhile_append_of_pos hrun, hnone, List.append_nil]
    rw [htake]
    exact ⟨rfl, List.drop_left⟩

end InteractiveMarkov.Text
