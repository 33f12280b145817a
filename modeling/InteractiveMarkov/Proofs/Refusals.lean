import InteractiveMarkov.Proofs.Acceptance
import InteractiveMarkov.Proofs.Grammar

/-!
# The line that a refused text is blamed on

A text without a header is blamed on its first line that is not blank, or on line 1 if it has none;
a text with a header on the first later line that is neither blank nor a transition between declared
states. If there is no such line the count in the header is wrong, and the last line is blamed, with
one exception: if the header is the last line it is line 1, also where blank lines stand before the
header. These are all the texts that are refused.
-/

set_option autoImplicit false

namespace InteractiveMarkov.Aldebaran

/-- The line may stand behind the header: it is blank, or a transition between declared states. -/
def Admitted (states : Nat) (line : String) : Prop :=
  isBlankLine line = true ∨ ∃ edge, IsTransition states line edge

structure StartsAt (ls before : List String) (first : String) (rest : List String) : Prop where
  lines : ls = before ++ first :: rest
  blank : ∀ line ∈ before, isBlankLine line = true
  solid : isBlankLine first = false

inductive Blames (ls : List String) : Nat → Prop
  | blank (hall : ∀ line ∈ ls, isBlankLine line = true) : Blames ls 1
  | header {before rest : List String} {first : String} (hstart : StartsAt ls before first rest)
      (hheader : ∀ header, ¬ IsHeader first header) : Blames ls (before.length + 1)
  | transition {before good behind : List String} {first line : String} {header : Header}
      (hstart : StartsAt ls before first (good ++ line :: behind))
      (hheader : IsHeader first header) (hgood : ∀ l ∈ good, Admitted header.states l)
      (hline : ¬ Admitted header.states line) :
      Blames ls (before.length + 1 + good.length + 1)
  | count {before rest : List String} {first : String} {header : Header}
      (hstart : StartsAt ls before first rest) (hheader : IsHeader first header)
      (hgood : ∀ l ∈ rest, Admitted header.states l)
      (hcount : (records rest).length ≠ header.transitions) (hrest : rest ≠ []) :
      Blames ls ls.length
  | headerLast {before : List String} {first : String} {header : Header}
      (hstart : StartsAt ls before first []) (hheader : IsHeader first header)
      (hcount : 0 ≠ header.transitions) : Blames ls 1

variable {ls before rest good : List String} {first line : String} {header : Header} {edge : Edge}
  {states n : Nat} {a : Automaton}

theorem exists_first {α : Type} {P : α → Prop} {l : List α} (h : ¬ ∀ x ∈ l, P x) :
    ∃ good x behind, l = good ++ x :: behind ∧ (∀ y ∈ good, P y) ∧ ¬ P x := by
  classical
  have hfound : (l.find? fun x => !decide (P x)).isSome :=
    List.find?_isSome.2 (by simpa using h)
  obtain ⟨x, hx⟩ := Option.isSome_iff_exists.1 hfound
  obtain ⟨hfails, good, behind, hl, hgood⟩ := List.find?_eq_some_iff_append.1 hx
  exact ⟨good, x, behind, hl, by simpa using hgood, by simpa using hfails⟩

theorem findHeader_blanks (h : ∀ line ∈ before, isBlankLine line = true) (rest : List String)
    (n : Nat) : findHeader ((before ++ rest).map some) n =
      findHeader (rest.map some) (n + before.length) := by
  induction before generalizing n with
  | nil => rfl
  | cons line before ih =>
    obtain ⟨hline, hbefore⟩ := List.forall_mem_cons.1 h
    rw [List.length_cons, ← Nat.add_assoc, Nat.add_right_comm, ← ih hbefore (n + 1)]
    simp only [List.cons_append, List.map_cons, findHeader, decoded, bind, Except.bind, hline,
      if_true]

theorem StartsAt.findHeader (h : StartsAt ls before first rest) :
    findHeader (ls.map some) 1 = parseHeader first (before.length + 1) >>= fun header =>
      .ok (header, rest.map some, before.length + 1) := by
  obtain ⟨rfl, hblank, hsolid⟩ := h
  rw [findHeader_blanks hblank, Nat.add_comm]
  simp only [List.map_cons, Aldebaran.findHeader, decoded, bind, Except.bind, hsolid,
    Bool.false_eq_true, if_false]

theorem readTransitions_admitted (h : ∀ l ∈ good, Admitted states l) (rest : List String)
    (n last : Nat) (a : Automaton) : ∃ (edges : List Edge) (last' : Nat),
      edges.length = (records good).length ∧
      readTransitions states ((good ++ rest).map some) n ⟨a, last⟩ =
        readTransitions states (rest.map some) (n + good.length)
          ⟨edges.foldl Automaton.extend a, last'⟩ := by
  induction good generalizing n a last with
  | nil => exact ⟨[], last, rfl, rfl⟩
  | cons line good ih =>
    obtain ⟨hline, hgood⟩ := List.forall_mem_cons.1 h
    simp only [List.cons_append, List.map_cons, readTransitions, decoded, bind, Except.bind,
      List.length_cons, ← Nat.add_assoc, records_cons]
    rw [Nat.add_right_comm]
    by_cases hblank : isBlankLine line = true
    · rw [if_pos hblank, if_pos hblank]
      exact ih hgood (n + 1) n a
    · obtain ⟨edge, hparse, hsource, htarget⟩ := hline.resolve_left hblank
      obtain ⟨edges, last', hlength, hread⟩ := ih hgood (n + 1) n (a.extend edge)
      rw [if_neg hblank, if_neg hblank, hparse]
      dsimp only
      rw [inRange_ok hsource htarget]
      exact ⟨edge :: edges, last', congrArg (· + 1) hlength, hread⟩

theorem readTransitions_refused (h : ¬ Admitted states line) (rest : List String) (n : Nat)
    (body : Body) : ∃ fault, readTransitions states ((line :: rest).map some) n body =
      .error (.malformed n fault) := by
  obtain ⟨hsolid, hnone⟩ := not_or.1 h
  simp only [List.map_cons, readTransitions, decoded, bind, Except.bind, hsolid,
    Bool.false_eq_true, if_false]
  cases hparse : parseTransition line n with
  | error e =>
    obtain ⟨fault, rfl⟩ := parseTransition_error hparse
    exact ⟨fault, rfl⟩
  | ok edge =>
    dsimp only
    unfold inRange
    by_cases hsource : states ≤ edge.source
    · rw [if_pos hsource]
      exact ⟨_, rfl⟩
    · by_cases htarget : states ≤ edge.target
      · rw [if_neg hsource, if_pos htarget]
        exact ⟨_, rfl⟩
      · exact absurd ⟨edge, parseTransition_elsewhere hparse, Nat.lt_of_not_le hsource,
          Nat.lt_of_not_le htarget⟩ hnone

/-- The last line that is noted is the last one there is; without lines it stays what it was. -/
theorem last_readTransitions {lines : List (Option String)} {body done : Body}
    (h : readTransitions states lines n body = .ok done) :
    done.last = if lines.isEmpty then body.last else n + lines.length - 1 := by
  induction lines generalizing n body with
  | nil =>
    cases h
    rfl
  | cons line rest ih =>
    -- each way on has noted the line at hand before it takes the rest
    have hrest : ∀ {next : Body}, next.last = n →
        readTransitions states rest (n + 1) next = .ok done → done.last = n + rest.length := by
      intro next hnext hrun
      rw [ih hrun, hnext]
      cases rest with
      | nil => rfl
      | cons line rest => simp [Nat.add_right_comm n 1]
    obtain ⟨text, -, h⟩ := bind_ok h
    dsimp only at h
    split at h
    · exact hrest rfl h
    · obtain ⟨edge, -, h⟩ := bind_ok h
      obtain ⟨-, -, h⟩ := bind_ok h
      exact hrest rfl h

theorem parseHeader_error {e : Error} (h : parseHeader line n = .error e) :
    ∃ fault, e = .malformed n fault := by
  unfold parseHeader at h
  split at h
  · cases h
    exact ⟨_, rfl⟩
  · obtain hinitial | ⟨initial, -, h⟩ := bind_error h
    · exact number_error hinitial
    · obtain htransitions | ⟨transitions, -, h⟩ := bind_error h
      · exact number_error htransitions
      · obtain hstates | ⟨states, -, h⟩ := bind_error h
        · exact number_error hstates
        · dsimp only at h
          split at h
          · cases h
          · cases h
            exact ⟨_, rfl⟩

/-- The count of the transitions behind the header decides whether lines with nothing else to blame
    are read. -/
theorem StartsAt.readLines (h : StartsAt ls before first rest) (hheader : IsHeader first header)
    (hgood : ∀ l ∈ rest, Admitted header.states l) : ∃ a : Automaton,
      a.edgeCount = (records rest).length ∧ readLines (ls.map some) =
        if a.edgeCount = header.transitions then .ok a
        else .error (.malformed (if rest.isEmpty then 1 else ls.length)
          (.count header.transitions a.edgeCount)) := by
  obtain ⟨edges, last, hlength, hread⟩ := readTransitions_admitted hgood []
    (before.length + 1 + 1) 1 (Automaton.withDeclared header.initial header.states)
  rw [List.append_nil, List.map_nil, readTransitions] at hread
  refine ⟨_, (edgeCount_foldl header.initial header.states edges).trans hlength, ?_⟩
  have hlast : last = if rest.isEmpty then 1 else ls.length := by
    have hcount : before.length + 1 + 1 + rest.length - 1 = ls.length := by
      rw [h.lines, List.length_append, List.length_cons]
      omega
    have hnoted := last_readTransitions hread
    rwa [List.isEmpty_map, List.length_map, hcount] at hnoted
  rw [Aldebaran.readLines, h.findHeader, hheader]
  simp only [bind, Except.bind, hread, hlast]

theorem Blames.refused (h : Blames ls n) :
    ∃ fault, readLines (ls.map some) = .error (.malformed n fault) := by
  cases h with
  | blank hall =>
    have hnone := findHeader_blanks hall [] 1
    rw [List.append_nil] at hnone
    refine ⟨.empty, ?_⟩
    rw [Aldebaran.readLines, hnone]
    rfl
  | @header before rest first hstart hheader =>
    cases hparse : parseHeader first (before.length + 1) with
    | ok header => exact absurd (isHeader hparse) (hheader header)
    | error e =>
      obtain ⟨fault, rfl⟩ := parseHeader_error hparse
      refine ⟨fault, ?_⟩
      rw [Aldebaran.readLines, hstart.findHeader, hparse]
      rfl
  | @transition before good behind first line header hstart hheader hgood hline =>
    obtain ⟨edges, last, -, hread⟩ := readTransitions_admitted hgood (line :: behind)
      (before.length + 1 + 1) 1 (Automaton.withDeclared header.initial header.states)
    obtain ⟨fault, hfault⟩ := readTransitions_refused hline behind
      (before.length + 1 + 1 + good.length) ⟨edges.foldl Automaton.extend
        (Automaton.withDeclared header.initial header.states), last⟩
    refine ⟨fault, ?_⟩
    rw [Aldebaran.readLines, hstart.findHeader, hheader]
    simp only [bind, Except.bind, hread, hfault]
    rw [Nat.add_right_comm]
  | count hstart hheader hgood hcount hrest =>
    obtain ⟨a, ha, hread⟩ := hstart.readLines hheader hgood
    rw [hread, if_neg (ha ▸ hcount), if_neg (by simpa using hrest)]
    exact ⟨_, rfl⟩
  | headerLast hstart hheader hcount =>
    obtain ⟨a, ha, hread⟩ := hstart.readLines hheader fun l hl => absurd hl List.not_mem_nil
    rw [hread, if_neg (ha ▸ hcount), if_pos (by rfl)]
    exact ⟨_, rfl⟩

theorem exists_startsAt (h : ¬ ∀ line ∈ ls, isBlankLine line = true) :
    ∃ before first rest, StartsAt ls before first rest := by
  obtain ⟨before, first, rest, hlines, hblank, hsolid⟩ := exists_first h
  exact ⟨before, first, rest, hlines, hblank, by simpa using hsolid⟩

theorem read_or_blamed (ls : List String) :
    (∃ a, readLines (ls.map some) = .ok a) ∨ ∃ n, Blames ls n := by
  by_cases hall : ∀ line ∈ ls, isBlankLine line = true
  · exact .inr ⟨1, .blank hall⟩
  obtain ⟨before, first, rest, hstart⟩ := exists_startsAt hall
  by_cases hheader : ∃ header, IsHeader first header
  · obtain ⟨header, hheader⟩ := hheader
    by_cases hgood : ∀ l ∈ rest, Admitted header.states l
    · obtain ⟨a, ha, hread⟩ := hstart.readLines hheader hgood
      by_cases hcount : a.edgeCount = header.transitions
      · rw [if_pos hcount] at hread
        exact .inl ⟨a, hread⟩
      · rw [ha] at hcount
        by_cases hrest : rest = []
        · subst hrest
          exact .inr ⟨1, .headerLast hstart hheader hcount⟩
        · exact .inr ⟨_, .count hstart hheader hgood hcount hrest⟩
    · obtain ⟨good, line, behind, rfl, hadmitted, hline⟩ := exists_first hgood
      exact .inr ⟨_, .transition hstart hheader hadmitted hline⟩
  · exact .inr ⟨_, .header hstart fun header h => hheader ⟨header, h⟩⟩

/-- The texts that are refused for a line, and the line. -/
theorem readStored_blames (text : String) (n : Nat) :
    (∃ fault, readStored text.toUTF8 = .error (.malformed n fault)) ↔
      ∃ ls, Text.LinesOf text.toList ls ∧ Blames ls n := by
  constructor
  · rintro ⟨fault, h⟩
    have hlines : Text.LinesOf text.toList (Text.lines text) := Text.linesOf_iff.2 rfl
    rw [readStored_toUTF8 hlines] at h
    refine ⟨_, hlines, ?_⟩
    -- a text that is not read is blamed on some line, and is refused for that line only
    obtain ⟨a, ha⟩ | ⟨m, hm⟩ := read_or_blamed (Text.lines text)
    · rw [ha] at h
      cases h
    · obtain ⟨other, hother⟩ := hm.refused
      rw [hother] at h
      cases h
      exact hm
  · rintro ⟨ls, hlines, h⟩
    rw [readStored_toUTF8 hlines]
    exact h.refused

def lateHeader : String := "\ndes (0, 1, 2)\n"

/-- The wrong count in the header is not blamed on the last line, which is the second. -/
theorem lateHeader_blames_first :
    ¬ ∀ (text : String) (ls before rest : List String) (first : String) (header : Header) (n : Nat)
        (fault : SyntaxFault),
      Text.LinesOf text.toList ls → StartsAt ls before first rest → IsHeader first header →
      (∀ l ∈ rest, Admitted header.states l) → (records rest).length ≠ header.transitions →
      readStored text.toUTF8 = .error (.malformed n fault) → n = ls.length := by
  intro h
  have hlast := h lateHeader ["", "des (0, 1, 2)"] [""] [] "des (0, 1, 2)" ⟨0, 1, 2⟩ 1 (.count 1 0)
    (Text.linesOf_iff.2 rfl) ⟨rfl, by decide, by decide⟩ (@isHeader _ _ 2 (by rfl))
    (fun l hl => absurd hl List.not_mem_nil) (by decide) (by rfl)
  cases hlast

end InteractiveMarkov.Aldebaran
