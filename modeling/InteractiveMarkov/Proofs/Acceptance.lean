import InteractiveMarkov.Proofs.RoundTrip
import Mathlib.Data.List.Forall2

set_option autoImplicit false

namespace InteractiveMarkov

/-- The automaton is the one that the header and the edges describe. The deadlocks are the
    declared states that no edge leaves, with a node or without. -/
structure Automaton.ReadFrom (a : Automaton) (header : Aldebaran.Header) (edges : List Edge) :
    Prop where
  initial : a.initial = header.initial
  initial_lt : header.initial < header.states
  stateCount : a.stateCount = header.states
  nodup : a.nodes.toList.Nodup
  nodes : ∀ s, s ∈ a.nodes.toList ↔
    s = header.initial ∨ ∃ edge ∈ edges, s = edge.source ∨ s = edge.target
  deadlocks : a.shape.deadlocks + (edges.map Edge.source).dedup.length = header.states
  edges : a.edges.toList = edges

namespace Aldebaran

def records (ls : List String) : List String := ls.filter fun line => !isBlankLine line

/-- The line is the header, whichever line of a file it is. -/
def IsHeader (line : String) (header : Header) : Prop :=
  ∀ number, parseHeader line number = .ok header

/-- The line is the transition, and its ends are below the count. -/
def IsTransition (states : Nat) (line : String) (edge : Edge) : Prop :=
  (∀ number, parseTransition line number = .ok edge) ∧ edge.source < states ∧ edge.target < states

/-- The lines of the text that are not blank are a header and the transitions that it counts. -/
def Describes (text : String) (header : Header) (edges : List Edge) : Prop :=
  ∃ ls first rest, Text.LinesOf text.toList ls ∧ records ls = first :: rest ∧
    IsHeader first header ∧ List.Forall₂ (IsTransition header.states) rest edges ∧
    edges.length = header.transitions

variable {line : String} {ls : List String} {header : Header} {edge : Edge} {edges : List Edge}
  {states bound n m k last : Nat} {a b : Automaton}

theorem number_elsewhere {digits : List Char} (h : number bound m digits = .ok n) (k : Nat) :
    number bound k digits = .ok n := by
  unfold number at h ⊢
  split at h
  · exact h
  · cases h

theorem isHeader (h : parseHeader line m = .ok header) : IsHeader line header := by
  intro k
  unfold parseHeader at h ⊢
  split at h
  · cases h
  · obtain ⟨initial, hinitial, h⟩ := bind_ok h
    obtain ⟨transitions, htransitions, h⟩ := bind_ok h
    obtain ⟨states, hstates, h⟩ := bind_ok h
    simp only [number_elsewhere hinitial k, number_elsewhere htransitions k,
      number_elsewhere hstates k, bind, Except.bind]
    dsimp only at h
    split at h
    · rename_i hlt
      rw [if_pos hlt]
      exact h
    · cases h

theorem parseTransition_elsewhere (h : parseTransition line m = .ok edge) (k : Nat) :
    parseTransition line k = .ok edge := by
  unfold parseTransition at h ⊢
  split at h
  · cases h
  · obtain ⟨source, hsource, h⟩ := bind_ok h
    obtain ⟨target, htarget, h⟩ := bind_ok h
    simp only [number_elsewhere hsource k, number_elsewhere htarget k, bind, Except.bind]
    exact h

theorem records_cons (line : String) (ls : List String) : records (line :: ls) =
    if isBlankLine line = true then records ls else line :: records ls := by
  rw [records, List.filter_cons]
  cases isBlankLine line <;> rfl

theorem records_of_findHeader {after : List (Option String)}
    (h : findHeader (ls.map some) n = .ok (header, after, last)) : ∃ first rest,
      after = rest.map some ∧ records ls = first :: records rest ∧ IsHeader first header := by
  induction ls generalizing n with
  | nil => cases h
  | cons line ls ih =>
    rw [List.map_cons, findHeader] at h
    obtain ⟨text, htext, h⟩ := bind_ok h
    cases htext
    rw [records_cons]
    by_cases hblank : isBlankLine line = true
    · rw [if_pos hblank] at h ⊢
      exact ih h
    · rw [if_neg hblank] at h ⊢
      obtain ⟨found, hparse, h⟩ := bind_ok h
      cases h
      exact ⟨line, ls, rfl, rfl, isHeader hparse⟩

theorem findHeader_of_records {first : String} {kept : List String}
    (h : records ls = first :: kept) (hfirst : IsHeader first header) (n : Nat) : ∃ rest last,
      findHeader (ls.map some) n = .ok (header, rest.map some, last) ∧ records rest = kept := by
  induction ls generalizing n with
  | nil => cases h
  | cons line ls ih =>
    rw [records_cons] at h
    simp only [List.map_cons, findHeader, decoded, bind, Except.bind]
    by_cases hblank : isBlankLine line = true
    · rw [if_pos hblank] at h ⊢
      exact ih h (n + 1)
    · rw [if_neg hblank] at h ⊢
      obtain ⟨rfl, rfl⟩ := List.cons.inj h
      rw [hfirst n]
      exact ⟨ls, n, rfl, rfl⟩

theorem readTransitions_iff :
    (∃ last', readTransitions states (ls.map some) n ⟨a, last⟩ = .ok ⟨b, last'⟩) ↔
      ∃ edges, List.Forall₂ (IsTransition states) (records ls) edges ∧
        b = edges.foldl Automaton.extend a := by
  induction ls generalizing n a last with
  | nil =>
    constructor
    · rintro ⟨_, h⟩
      cases h
      exact ⟨[], .nil, rfl⟩
    · rintro ⟨edges, hedges, rfl⟩
      cases hedges
      exact ⟨last, rfl⟩
  | cons line ls ih =>
    simp only [List.map_cons, readTransitions, decoded, records_cons, bind, Except.bind]
    by_cases hblank : isBlankLine line = true
    · rw [if_pos hblank, if_pos hblank]
      exact ih
    · rw [if_neg hblank, if_neg hblank]
      constructor
      · rintro ⟨end', h⟩
        obtain ⟨edge, hparse, h⟩ := bind_ok h
        obtain ⟨u, hrange, h⟩ := bind_ok h
        obtain ⟨edges, hedges, rfl⟩ := ih.1 ⟨end', h⟩
        have hline : IsTransition states line edge :=
          ⟨parseTransition_elsewhere hparse, inRange_lt hrange⟩
        exact ⟨edge :: edges, .cons hline hedges, rfl⟩
      · rintro ⟨_, hall, rfl⟩
        cases hall with
        | @cons _ edge _ edges hline hedges =>
          obtain ⟨hparse, hsource, htarget⟩ := hline
          simp only [hparse n, inRange_ok hsource htarget]
          exact ih.2 ⟨edges, hedges, rfl⟩

theorem readStored_toUTF8 {text : String} (hlines : Text.LinesOf text.toList ls) :
    readStored text.toUTF8 = readLines (ls.map some) := by
  rw [readStored, Text.storedLines_toUTF8, Text.linesOf_iff.1 hlines]

theorem edgeCount_foldl (initial : StateId) (declared : Nat) (edges : List Edge) :
    (edges.foldl Automaton.extend (Automaton.withDeclared initial declared)).edgeCount =
      edges.length := by
  have hedges := (Automaton.extended_withDeclared initial declared edges).edges
  rw [Automaton.edgeCount, ← Array.length_toList, hedges]
  exact congrArg List.length (List.nil_append edges)

theorem describes_of_readStored {text : String} (h : readStored text.toUTF8 = .ok a) :
    ∃ header edges, Describes text header edges := by
  have hlines : Text.LinesOf text.toList (Text.lines text) := Text.linesOf_iff.2 rfl
  rw [readStored_toUTF8 hlines, readLines] at h
  obtain ⟨⟨header, after, last⟩, hheader, h⟩ := bind_ok h
  obtain ⟨first, rest, rfl, hrecords, hfirst⟩ := records_of_findHeader hheader
  obtain ⟨⟨read, last'⟩, hread, h⟩ := bind_ok h
  obtain ⟨edges, hedges, rfl⟩ := readTransitions_iff.1 ⟨last', hread⟩
  dsimp only at h
  split at h
  · rename_i hcount
    rw [edgeCount_foldl] at hcount
    exact ⟨header, edges, _, first, _, hlines, hrecords, hfirst, hedges, hcount⟩
  · cases h

theorem Describes.readStored {text : String} (h : Describes text header edges) :
    Aldebaran.readStored text.toUTF8 = .ok (edges.foldl Automaton.extend
      (Automaton.withDeclared header.initial header.states)) := by
  obtain ⟨ls, first, kept, hlines, hrecords, hfirst, hedges, hcount⟩ := h
  obtain ⟨rest, last, hheader, rfl⟩ := findHeader_of_records hrecords hfirst 1
  obtain ⟨last', hread⟩ : ∃ last', readTransitions header.states (rest.map some) (last + 1)
      ⟨Automaton.withDeclared header.initial header.states, 1⟩ = .ok ⟨_, last'⟩ :=
    readTransitions_iff.2 ⟨edges, hedges, rfl⟩
  rw [readStored_toUTF8 hlines, readLines]
  simp only [hheader, hread, bind, Except.bind]
  rw [if_pos]
  rw [edgeCount_foldl, hcount]

theorem Describes.bounds {text : String} (h : Describes text header edges) :
    header.initial < header.states ∧
      ∀ edge ∈ edges, edge.source < header.states ∧ edge.target < header.states := by
  obtain ⟨ls, first, rest, -, -, hfirst, hedges, -⟩ := h
  refine ⟨(parseHeader_ok (hfirst 1)).1, ?_⟩
  induction hedges with
  | nil => exact fun edge hedge => absurd hedge List.not_mem_nil
  | cons hline _ ih => exact List.forall_mem_cons.2 ⟨hline.2, ih⟩

/-- Exactly the texts that describe an automaton are read, and the automaton is the described one.
    Blank lines may stand anywhere. -/
theorem readStored_exact (text : String) :
    ((∃ a, readStored text.toUTF8 = .ok a) ↔ ∃ header edges, Describes text header edges) ∧
    ∀ header edges, Describes text header edges →
      ∃ a, readStored text.toUTF8 = .ok a ∧ a.ReadFrom header edges := by
  refine ⟨⟨?_, ?_⟩, fun header edges h => ⟨_, h.readStored, ?_⟩⟩
  · rintro ⟨a, ha⟩
    exact describes_of_readStored ha
  · rintro ⟨header, edges, h⟩
    exact ⟨_, h.readStored⟩
  · obtain ⟨hinitial, hbelow⟩ := h.bounds
    have hextended := Automaton.extended_withDeclared header.initial header.states edges
    exact {
      edges := hextended.edges
      initial := hextended.initial
      initial_lt := hinitial
      stateCount := hextended.stateCount_eq hinitial hbelow
      nodup := hextended.indexed.nodup
      nodes := fun s => by
        rw [hextended.nodes]
        exact or_congr_left List.mem_singleton
      deadlocks := hextended.deadlocks_eq hinitial hbelow }

/-- Blank lines, both ways to end a line, and both kinds of labels. The states 0 and 3 are declared
    but not named. -/
def spaced : String :=
  "\n des ( 1 , 3,5)\r\n\t\n(1, \"a\\\"b\", 2)\r\n( 1,rate 3 ,2)\n\n(4, , 1)"

theorem spaced_read :
    Describes spaced ⟨1, 3, 5⟩ [⟨1, "a\"b", 2⟩, ⟨1, "rate 3", 2⟩, ⟨4, "", 1⟩] ∧
      ∃ a, readStored spaced.toUTF8 = .ok a ∧
        a.ReadFrom ⟨1, 3, 5⟩ [⟨1, "a\"b", 2⟩, ⟨1, "rate 3", 2⟩, ⟨4, "", 1⟩] ∧
        a.shape.deadlocks + 2 = 5 := by
  have hrecords : records (Text.lines spaced) = [" des ( 1 , 3,5)", "(1, \"a\\\"b\", 2)",
      "( 1,rate 3 ,2)", "(4, , 1)"] := by decide +kernel
  have hheader : IsHeader " des ( 1 , 3,5)" ⟨1, 3, 5⟩ :=
    @isHeader _ _ 2 (by rfl)
  have hquoted : IsTransition 5 "(1, \"a\\\"b\", 2)" ⟨1, "a\"b", 2⟩ :=
    ⟨@parseTransition_elsewhere _ _ 4 (by rfl), by decide, by decide⟩
  have hbare : IsTransition 5 "( 1,rate 3 ,2)" ⟨1, "rate 3", 2⟩ :=
    ⟨@parseTransition_elsewhere _ _ 5 (by rfl), by decide, by decide⟩
  have hempty : IsTransition 5 "(4, , 1)" ⟨4, "", 1⟩ :=
    ⟨@parseTransition_elsewhere _ _ 7 (by rfl), by decide, by decide⟩
  have hdescribes : Describes spaced ⟨1, 3, 5⟩
      [⟨1, "a\"b", 2⟩, ⟨1, "rate 3", 2⟩, ⟨4, "", 1⟩] :=
    ⟨_, _, _, Text.linesOf_iff.2 rfl, hrecords, hheader,
      .cons hquoted (.cons hbare (.cons hempty .nil)), rfl⟩
  obtain ⟨a, ha, hread⟩ := (readStored_exact spaced).2 _ _ hdescribes
  exact ⟨hdescribes, a, ha, hread, hread.deadlocks⟩

end Aldebaran

end InteractiveMarkov
