import InteractiveMarkov.Aldebaran.Reader
import InteractiveMarkov.Proofs.Building
import InteractiveMarkov.Proofs.Lines
import InteractiveMarkov.Proofs.Records
import InteractiveMarkov.Proofs.Streams
import Mathlib.Order.Interval.Set.Defs

set_option autoImplicit false

namespace InteractiveMarkov

/-- The chain fits into an Aldebaran file: its numbers are those of its states, a label does not
    spread over lines, and the counts are below the bounds of their fields. -/
structure Chain.Writable (chain : Chain) : Prop where
  initial : chain.initial ∈ Set.Icc 1 chain.stateCount
  ends : ∀ transition ∈ chain.transitions, transition.source ∈ Set.Icc 1 chain.stateCount ∧
    transition.target ∈ Set.Icc 1 chain.stateCount
  noFeed : ∀ transition ∈ chain.transitions, '\n' ∉ transition.label.text.toList
  states : chain.stateCount < stateBound
  count : chain.transitions.length < countBound

/-- No number of the chain is 0, which is the number of no state. -/
structure Chain.FromOne (chain : Chain) : Prop where
  initial : 1 ≤ chain.initial
  ends : ∀ transition ∈ chain.transitions, 1 ≤ transition.source ∧ 1 ≤ transition.target

theorem Chain.Writable.fromOne {chain : Chain} (h : chain.Writable) : chain.FromOne where
  initial := h.initial.1
  ends transition hmem := ⟨(h.ends transition hmem).1.1, (h.ends transition hmem).2.1⟩

namespace Aldebaran

open Text

variable {chain : Chain} {start stream : Stream} {text : String} {s t : StateId} {states : Nat}

theorem fileNumber_pos {n : Nat} (h : 1 ≤ n) : fileNumber n = .ok (n - 1) := by
  cases n with
  | zero => cases h
  | succ n => rfl

def recordOf (transition : Transition) : String :=
  record (transition.source - 1) transition.label.text (transition.target - 1)

def fileLines (chain : Chain) : List String :=
  heading (chain.initial - 1) chain.transitions.length chain.stateCount ::
    chain.transitions.map recordOf

theorem transitionLine_eq {transition : Transition} (hsource : 1 ≤ transition.source)
    (htarget : 1 ≤ transition.target) :
    transitionLine transition = .ok (recordOf transition ++ "\n") := by
  rw [transitionLine, fileNumber_pos hsource, fileNumber_pos htarget]
  simp only [bind, Except.bind, recordOf, record, String.append_assoc, Except.ok.injEq]
  rfl

theorem writeTransitions_ok {transitions : List Transition}
    (hends : ∀ transition ∈ transitions, 1 ≤ transition.source ∧ 1 ≤ transition.target)
    (h : Stream.Written start text stream) : ∃ after,
    writeTransitions transitions stream = .ok (after, transitions.length) ∧
      Stream.Written start (text ++ unlines (transitions.map recordOf)) after :=
  h.putRecords fun transition hmem =>
    transitionLine_eq (hends transition hmem).1 (hends transition hmem).2

/-- What stands before the count field, and behind it up to the end of the header. -/
def fileOpening (chain : Chain) : String := "des (" ++ (chain.initial - 1).repr ++ ", "

def fileClosing (chain : Chain) : String := ", " ++ chain.stateCount.repr ++ ")\n"

/-- The file while its count field is blank, and the place of the field. -/
def draft (chain : Chain) (stream : Stream) : Except Error (Stream × Nat) := do
  let initial ← fileNumber chain.initial
  let stream ← stream.put ("des (" ++ initial.repr ++ ", ")
  let (stream, place) ← stream.reserve
  let stream ← stream.put (", " ++ chain.stateCount.repr ++ ")\n")
  let (stream, _) ← writeTransitions chain.transitions stream
  .ok (stream, place)

theorem write_eq_draft (chain : Chain) (stream : Stream) : write chain stream = (do
    let (stream, place) ← draft chain stream
    let stream ← stream.patch place chain.transitions.length
    .ok (stream, chain.transitions.length)) := by
  simp only [write, draft, bind_assoc]
  refine bind_congr fun initial => bind_congr fun opened => bind_congr fun reserved =>
    bind_congr fun headed => ?_
  exact Stream.putRecords_bind fun stream written => do
    let stream ← stream.patch reserved.2 written
    .ok (stream, written)

theorem draft_ok (h : chain.FromOne) (hstart : start.capacity = none) : ∃ drafted,
    draft chain start = .ok (drafted, start.position + (fileOpening chain).toUTF8.size) ∧
      Stream.Written start (fileOpening chain ++ Stream.blankField ++
        (fileClosing chain ++ unlines (chain.transitions.map recordOf))) drafted := by
  obtain ⟨first, hfirst, hwritten⟩ := (Stream.written_start hstart).put (fileOpening chain)
  rw [String.empty_append] at hwritten
  obtain ⟨second, hsecond, hwritten⟩ := hwritten.reserve
  obtain ⟨third, hthird, hwritten⟩ := hwritten.put (fileClosing chain)
  obtain ⟨drafted, hdrafted, hwritten⟩ := writeTransitions_ok h.ends hwritten
  rw [String.append_assoc] at hwritten
  refine ⟨drafted, ?_, hwritten⟩
  rw [fileOpening] at hfirst
  rw [fileClosing] at hthird
  rw [draft, fileNumber_pos h.initial]
  simp only [bind, Except.bind, hfirst, hsecond, hthird, hdrafted]

theorem unlines_fileLines (chain : Chain) : unlines (fileLines chain) =
    fileOpening chain ++ Stream.countField chain.transitions.length ++
      (fileClosing chain ++ unlines (chain.transitions.map recordOf)) := by
  rw [fileLines, unlines_cons, ← String.toList_inj]
  simp [heading, fileOpening, fileClosing]

theorem write_ok (h : chain.Writable) (hstart : start.capacity = none) : ∃ after,
    write chain start = .ok (after, chain.transitions.length) ∧
      Stream.Written start (unlines (fileLines chain)) after := by
  obtain ⟨drafted, hdrafted, hwritten⟩ := draft_ok h.fromOne hstart
  obtain ⟨after, hafter, hwritten⟩ := hwritten.patch h.count
  refine ⟨after, ?_, unlines_fileLines chain ▸ hwritten⟩
  rw [write_eq_draft]
  simp only [bind, Except.bind, hdrafted, hafter]

theorem digit_ne {c d : Char} (h : c.isDigit = true) (hd : d.isDigit = false) : c ≠ d := by
  rintro rfl
  rw [h] at hd
  cases hd

theorem feed_not_mem_toDigits (n : Nat) : '\n' ∉ Nat.toDigits 10 n := fun h =>
  digit_ne (isDigit_of_mem h) (by decide) rfl

theorem mem_escaped {c : Char} {label : List Char} (h : c ∈ escaped label) :
    c ∈ label ∨ c = '\\' := by
  obtain ⟨d, hd, hmem⟩ := List.mem_flatMap.1 h
  split at hmem
  · rcases List.mem_cons.1 hmem with rfl | hmem
    · exact .inr rfl
    · obtain rfl := List.mem_singleton.1 hmem
      exact .inl hd
  · obtain rfl := List.mem_singleton.1 hmem
    exact .inl hd

theorem isLine_heading (initial transitions states : Nat) :
    IsLine (heading initial transitions states) := by
  refine ⟨?_, ?_⟩
  · rw [toList_heading]
    simp [feed_not_mem_toDigits, List.mem_replicate]
  · rw [toList_heading]
    simp [List.getLast?_cons, List.getLast?_append]

theorem isLine_record {s t : StateId} (h : '\n' ∉ text.toList) : IsLine (record s text t) := by
  have hescaped : '\n' ∉ escaped text.toList := fun hmem =>
    (mem_escaped hmem).elim h (by decide)
  refine ⟨?_, ?_⟩
  · rw [toList_record]
    simp [feed_not_mem_toDigits, hescaped]
  · rw [toList_record]
    simp [List.getLast?_cons, List.getLast?_append]

theorem isLine_fileLines
    (hfeed : ∀ transition ∈ chain.transitions, '\n' ∉ transition.label.text.toList) :
    ∀ line ∈ fileLines chain, IsLine line := by
  intro line hline
  rcases List.mem_cons.1 hline with rfl | hline
  · exact isLine_heading _ _ _
  · obtain ⟨transition, hmem, rfl⟩ := List.mem_map.1 hline
    exact isLine_record (hfeed transition hmem)

theorem isBlankLine_heading (initial transitions states : Nat) :
    isBlankLine (heading initial transitions states) = false := by
  rw [isBlankLine, toList_heading]
  rfl

theorem isBlankLine_record (s t : StateId) (text : String) :
    isBlankLine (record s text t) = false := by
  rw [isBlankLine, toList_record]
  rfl

theorem inRange_ok {edge : Edge} (hs : edge.source < states) (ht : edge.target < states)
    (line : Nat) : inRange states edge line = .ok () := by
  rw [inRange, if_neg (Nat.not_le_of_lt hs), if_neg (Nat.not_le_of_lt ht)]

def fileEdge (transition : Transition) : Edge :=
  ⟨transition.source - 1, transition.label.text, transition.target - 1⟩

theorem readTransitions_records {transitions : List Transition} {number last : Nat} {a : Automaton}
    (hstates : states < stateBound) (hends : ∀ transition ∈ transitions,
      (fileEdge transition).source < states ∧ (fileEdge transition).target < states) :
    ∃ last', readTransitions states ((transitions.map recordOf).map some) number ⟨a, last⟩ =
      .ok ⟨(transitions.map fileEdge).foldl Automaton.extend a, last'⟩ := by
  induction transitions generalizing number a last with
  | nil => exact ⟨last, rfl⟩
  | cons transition rest ih =>
    obtain ⟨hs, ht⟩ := hends transition List.mem_cons_self
    have hparse : parseTransition (recordOf transition) number = .ok (fileEdge transition) :=
      parseTransition_record _ (Nat.lt_trans hs hstates) (Nat.lt_trans ht hstates)
    have hblank : isBlankLine (recordOf transition) = false := isBlankLine_record _ _ _
    rw [List.map_cons, List.map_cons, readTransitions]
    simp only [decoded, hblank, hparse, inRange_ok hs ht, bind, Except.bind]
    exact ih fun u hu => hends u (List.mem_cons_of_mem _ hu)

theorem lowered_lt {n count : Nat} (h : n ∈ Set.Icc 1 count) : n - 1 < count := by
  have hlow : 1 ≤ n := h.1
  have hhigh : n ≤ count := h.2
  omega

theorem readLines_fileLines (h : chain.Writable) :
    readLines ((fileLines chain).map some) = .ok ((chain.transitions.map fileEdge).foldl
      Automaton.extend (Automaton.withDeclared (chain.initial - 1) chain.stateCount)) := by
  have hheader : parseHeader (heading (chain.initial - 1) chain.transitions.length
      chain.stateCount) 1 = .ok ⟨chain.initial - 1, chain.transitions.length, chain.stateCount⟩ :=
    parseHeader_heading (lowered_lt h.initial) h.count h.states
  have hblank := isBlankLine_heading (chain.initial - 1) chain.transitions.length chain.stateCount
  obtain ⟨last, hrun⟩ : ∃ last, readTransitions chain.stateCount
      ((chain.transitions.map recordOf).map some) 2
      ⟨Automaton.withDeclared (chain.initial - 1) chain.stateCount, 1⟩ = .ok ⟨_, last⟩ :=
    readTransitions_records h.states fun transition hmem =>
      ⟨lowered_lt (h.ends transition hmem).1, lowered_lt (h.ends transition hmem).2⟩
  have hcount := congrArg List.length (Automaton.extended_withDeclared (chain.initial - 1)
    chain.stateCount (chain.transitions.map fileEdge)).edges
  rw [Array.length_toList, List.length_append, List.length_map] at hcount
  rw [fileLines, List.map_cons, readLines, findHeader]
  simp only [decoded, hblank, hheader, hrun, bind, Except.bind, Bool.false_eq_true, if_false]
  rw [if_pos]
  rw [Automaton.edgeCount, hcount]
  exact Nat.zero_add _

theorem readStored_fileLines (h : chain.Writable) : ∃ a,
    readStored (unlines (fileLines chain)).toUTF8 = .ok a ∧ a.Indexed ∧
      a.initial = chain.initial - 1 ∧ a.stateCount = chain.stateCount ∧
      a.edges.toList = chain.transitions.map fileEdge := by
  have hextended := Automaton.extended_withDeclared (chain.initial - 1) chain.stateCount
    (chain.transitions.map fileEdge)
  refine ⟨_, ?_, hextended.indexed, hextended.initial,
    hextended.stateCount_eq (lowered_lt h.initial) fun edge hedge => ?_, hextended.edges⟩
  · rw [readStored, storedLines_toUTF8, lines_unlines (isLine_fileLines h.noFeed)]
    exact readLines_fileLines h
  · obtain ⟨transition, hmem, rfl⟩ := List.mem_map.1 hedge
    exact ⟨lowered_lt (h.ends transition hmem).1, lowered_lt (h.ends transition hmem).2⟩

end Aldebaran

end InteractiveMarkov
