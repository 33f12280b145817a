import InteractiveMarkov.RateMatrix
import InteractiveMarkov.Proofs.Documents
import InteractiveMarkov.Proofs.Numerals
import InteractiveMarkov.Proofs.Streams

set_option autoImplicit false

namespace InteractiveMarkov

/-- The chain fits into the two tables: its numbers are those of its states, each state has a
    status, and the number of transitions is below the bound of its field. -/
structure Chain.Tabular (chain : Chain) : Prop extends chain.InRange where
  statuses : chain.statuses.length = chain.stateCount
  count : chain.transitions.length < countBound

namespace RateMatrix

open Text

variable {chain : Chain} {start stream : Stream} {label : KeptLabel} {u : Transition}
  {transitions : List Transition}

/-! ## Rates -/

/-- Without the blanks around it, the text of the rate denotes a finite number above zero. -/
def PositiveRate (label : KeptLabel) : Prop :=
  ∃ expr value, label = .rate expr ∧
    Decimal.Binary64.parse? (trim expr.toList) = some value ∧ value.isPositive = true

def rateText (label : KeptLabel) : String := trimmed label.body

theorem rateText?_positive (h : PositiveRate label) : rateText? label = some (rateText label) := by
  obtain ⟨expr, value, rfl, hvalue, hpositive⟩ := h
  have hany : (Decimal.Binary64.parse? (trim expr.toList)).any (·.isPositive) = true := by
    rw [hvalue]
    exact hpositive
  exact if_pos hany

theorem rateText?_eq_none (h : ¬PositiveRate label) : rateText? label = none := by
  cases label with
  | rate expr =>
    refine if_neg fun hany => h ?_
    obtain ⟨value, hvalue, hpositive⟩ := (Option.any_eq_true _ _).1 hany
    exact ⟨expr, value, rfl, hvalue, hpositive⟩
  | timed text => rfl
  | action name => rfl

theorem positiveRate_iff : PositiveRate label ↔ (rateText? label).isSome = true := by
  refine ⟨fun h => by rw [rateText?_positive h]; rfl, fun h => ?_⟩
  by_contra hnot
  rw [rateText?_eq_none hnot] at h
  cases h

instance decidablePositiveRate (label : KeptLabel) : Decidable (PositiveRate label) :=
  decidable_of_iff _ positiveRate_iff.symm

theorem PositiveRate.isWord (h : PositiveRate label) : IsWord (rateText label) := by
  obtain ⟨expr, value, rfl, hvalue, -⟩ := h
  exact Decimal.Binary64.isWord_of_parse? hvalue

/-! ## The order of the rows -/

def Precedes (u v : Transition) : Prop :=
  u.source < v.source ∨ u.source = v.source ∧ u.target ≤ v.target

/-- The given transitions sorted by source and target. The ones from one state to another keep their
    order. -/
structure StablySorted (given sorted : List Transition) : Prop where
  perm : sorted.Perm given
  ascending : sorted.Pairwise Precedes
  stable : ∀ s t, sorted.filter (fun u => u.source = s ∧ u.target = t) =
    given.filter fun u => u.source = s ∧ u.target = t

instance decidablePrecedes (u v : Transition) : Decidable (Precedes u v) :=
  inferInstanceAs (Decidable (_ ∨ _))

theorem Precedes.trans {u v w : Transition} (huv : Precedes u v) (hvw : Precedes v w) :
    Precedes u w := by
  unfold Precedes at *
  omega

theorem Precedes.total (u v : Transition) : Precedes u v ∨ Precedes v u := by
  unfold Precedes
  omega

theorem isLE_compare (u v : Transition) :
    (compare (u.source, u.target) (v.source, v.target)).isLE = decide (Precedes u v) := by
  have hpair : compare (u.source, u.target) (v.source, v.target) =
      (compare u.source v.source).then (compare u.target v.target) := rfl
  rw [hpair, Bool.eq_iff_iff, decide_eq_true_eq, Precedes]
  cases h : compare u.source v.source with
  | lt => simp [Nat.compare_eq_lt.1 h, Ordering.then]
  | eq => simp [Nat.compare_eq_eq.1 h, Ordering.then, Nat.isLE_compare]
  | gt =>
    have hgt := Nat.compare_eq_gt.1 h
    exact iff_of_false (by simp [Ordering.then]) (by omega)

theorem stablySorted_rows (chain : Chain) : StablySorted chain.transitions (rows chain) := by
  have hrows : rows chain = chain.transitions.mergeSort fun u v => decide (Precedes u v) := by
    simp only [rows, isLE_compare]
  have htrans : ∀ u v w : Transition, decide (Precedes u v) = true →
      decide (Precedes v w) = true → decide (Precedes u w) = true := fun u v w huv hvw =>
    decide_eq_true ((of_decide_eq_true huv).trans (of_decide_eq_true hvw))
  have htotal : ∀ u v : Transition, (decide (Precedes u v) || decide (Precedes v u)) = true := by
    intro u v
    rw [Bool.or_eq_true, decide_eq_true_eq, decide_eq_true_eq]
    exact Precedes.total u v
  rw [hrows]
  refine ⟨List.mergeSort_perm _ _, ?_, fun s t => ?_⟩
  · exact (List.pairwise_mergeSort htrans htotal _).imp of_decide_eq_true
  · -- those from `s` to `t` may stand in any order, so sorting keeps theirs
    have hties : (chain.transitions.filter fun u => u.source = s ∧ u.target = t).Pairwise
        fun u v => decide (Precedes u v) = true := by
      refine List.pairwise_of_forall_mem_list fun u hu v hv => decide_eq_true (.inr ?_)
      obtain ⟨hus, hut⟩ := of_decide_eq_true (List.mem_filter.1 hu).2
      obtain ⟨hvs, hvt⟩ := of_decide_eq_true (List.mem_filter.1 hv).2
      exact ⟨hus.trans hvs.symm, (hut.trans hvt.symm).le⟩
    have hsub := (List.sublist_mergeSort htrans htotal hties List.filter_sublist).filter
      fun u => u.source = s ∧ u.target = t
    simp only [List.filter_filter, Bool.and_self] at hsub
    exact (hsub.eq_of_length ((List.mergeSort_perm _ _).filter _).length_eq.symm).symm

/-! ## The written matrix -/

def tidy (u : Transition) : Transition := { u with label := .rate (rateText u.label) }

def tabled (chain : Chain) : List Transition := (rows chain).map tidy

def cells (u : Transition) : List String := [u.source.repr, u.target.repr, u.label.body]

def rowLine (u : Transition) : String := unwords (cells (tidy u))

/-- The error of the first transition without a positive rate. -/
inductive Refuses : List Transition → Error → Prop
  | here {u : Transition} {rest : List Transition} (h : ¬PositiveRate u.label) :
      Refuses (u :: rest) (.unsupportedLabel .rateMatrix u.label.text)
  | later {u : Transition} {rest : List Transition} {e : Error} (hu : PositiveRate u.label)
      (h : Refuses rest e) : Refuses (u :: rest) e

theorem positive_or_refuses (transitions : List Transition) :
    (∀ u ∈ transitions, PositiveRate u.label) ∨ ∃ e, Refuses transitions e := by
  induction transitions with
  | nil => exact .inl fun u hu => nomatch hu
  | cons u rest ih =>
    by_cases hu : PositiveRate u.label
    · rcases ih with hrest | ⟨e, he⟩
      · exact .inl (List.forall_mem_cons.2 ⟨hu, hrest⟩)
      · exact .inr ⟨e, .later hu he⟩
    · exact .inr ⟨_, .here hu⟩

theorem row_ok (h : PositiveRate u.label) : row u = .ok (rowLine u ++ "\n") := by
  rw [row, rateText?_positive h]
  rfl

theorem row_error (h : ¬PositiveRate u.label) :
    row u = .error (.unsupportedLabel .rateMatrix u.label.text) := by
  rw [row, rateText?_eq_none h]

theorem isWord_of_mem_cells (h : PositiveRate u.label) : ∀ word ∈ cells (tidy u), IsWord word := by
  intro word hword
  rcases List.mem_cons.1 hword with rfl | hword
  · exact Decimal.isWord_repr _
  · rcases List.mem_cons.1 hword with rfl | hword
    · exact Decimal.isWord_repr _
    · obtain rfl := List.mem_singleton.1 hword
      exact h.isWord

theorem isLine_rowLine (h : PositiveRate u.label) : IsLine (rowLine u) :=
  isLine_unwords (isWord_of_mem_cells h)

theorem words_rowLine (h : PositiveRate u.label) : words (rowLine u) = cells (tidy u) :=
  words_unwords (isWord_of_mem_cells h)

def countLine (count : Nat) : String := "TRANSITIONS " ++ Stream.countField count

theorem words_countLine (count : Nat) : words (countLine count) = ["TRANSITIONS", count.repr] := by
  have hline : countLine count = "TRANSITIONS" ++ " " ++ Stream.countField count := by
    rw [← String.toList_inj]
    simp [countLine]
  have hword : words "TRANSITIONS" = ["TRANSITIONS"] := by decide
  rw [hline, words_append, Stream.countField_eq, words_replicate, (Decimal.isWord_repr count).words, hword]
  rfl

def tableLines (chain : Chain) : List String :=
  ("STATES " ++ chain.stateCount.repr) :: countLine chain.transitions.length ::
    (rows chain).map rowLine

theorem writeRows_ok {text : String} (h : ∀ u ∈ transitions, PositiveRate u.label)
    (hstream : Stream.Written start text stream) : ∃ after,
    writeRows transitions stream = .ok (after, transitions.length) ∧
      Stream.Written start (text ++ unlines (transitions.map rowLine)) after :=
  hstream.putRecords fun u hu => row_ok (h u hu)

theorem foldlM_putRecord_error {e : Error} {text : String} {written : Nat}
    (h : Refuses transitions e) (hstream : Stream.Written start text stream) :
    transitions.foldlM (Stream.putRecord row) (stream, written) = .error e := by
  induction h generalizing text stream written with
  | here hbad =>
    rw [List.foldlM_cons, Stream.putRecord, row_error hbad]
    rfl
  | @later u rest e hu _ ih =>
    obtain ⟨next, hput, hnext⟩ := hstream.put (rowLine u ++ "\n")
    rw [List.foldlM_cons, Stream.putRecord_ok_iff.2 ⟨_, row_ok hu, hput, rfl⟩]
    exact ih hnext

theorem writeRows_error {e : Error} {text : String} (h : Refuses transitions e)
    (hstream : Stream.Written start text stream) : writeRows transitions stream = .error e :=
  foldlM_putRecord_error h hstream

def heading (chain : Chain) : String := "STATES " ++ chain.stateCount.repr ++ "\n" ++ "TRANSITIONS "

def draft (chain : Chain) (stream : Stream) : Except Error (Stream × Nat) := do
  let stream ← stream.put ("STATES " ++ chain.stateCount.repr ++ "\n")
  let stream ← stream.put "TRANSITIONS "
  let (stream, place) ← stream.reserve
  let stream ← stream.put "\n"
  let (stream, _) ← writeRows (rows chain) stream
  .ok (stream, place)

theorem write_eq_draft (chain : Chain) (stream : Stream) : write chain stream = (do
    let (stream, place) ← draft chain stream
    let stream ← stream.patch place chain.transitions.length
    .ok (stream, chain.transitions.length)) := by
  simp only [write, draft, bind_assoc]
  refine bind_congr fun first => bind_congr fun second => bind_congr fun reserved =>
    bind_congr fun headed => ?_
  rw [← (stablySorted_rows chain).perm.length_eq]
  exact Stream.putRecords_bind fun stream written => do
    let stream ← stream.patch reserved.2 written
    .ok (stream, written)

theorem draft_eq (chain : Chain) (hstart : start.capacity = none) : ∃ headed,
    Stream.Written start (heading chain ++ Stream.blankField ++ "\n") headed ∧
      draft chain start = (do
        let (stream, _) ← writeRows (rows chain) headed
        .ok (stream, start.position + (heading chain).toUTF8.size)) := by
  obtain ⟨first, hfirst, hwritten⟩ :=
    (Stream.written_start hstart).put ("STATES " ++ chain.stateCount.repr ++ "\n")
  obtain ⟨second, hsecond, hwritten⟩ := hwritten.put "TRANSITIONS "
  rw [String.empty_append, ← heading] at hwritten
  obtain ⟨third, hthird, hwritten⟩ := hwritten.reserve
  obtain ⟨headed, hheaded, hwritten⟩ := hwritten.put "\n"
  refine ⟨headed, hwritten, ?_⟩
  rw [draft]
  simp only [bind, Except.bind, hfirst, hsecond, hthird, hheaded]

theorem draft_ok (hstart : start.capacity = none)
    (hrates : ∀ u ∈ rows chain, PositiveRate u.label) : ∃ drafted,
    draft chain start = .ok (drafted, start.position + (heading chain).toUTF8.size) ∧
      Stream.Written start (heading chain ++ Stream.blankField ++
        ("\n" ++ unlines ((rows chain).map rowLine))) drafted := by
  obtain ⟨headed, hheaded, hdraft⟩ := draft_eq chain hstart
  obtain ⟨drafted, hdrafted, hwritten⟩ := writeRows_ok hrates hheaded
  rw [String.append_assoc] at hwritten
  refine ⟨drafted, ?_, hwritten⟩
  rw [hdraft]
  simp only [bind, Except.bind, hdrafted]

theorem unlines_tableLines (chain : Chain) : unlines (tableLines chain) =
    heading chain ++ Stream.countField chain.transitions.length ++
      ("\n" ++ unlines ((rows chain).map rowLine)) := by
  rw [tableLines, unlines_cons, unlines_cons, countLine, heading]
  simp only [String.append_assoc]

theorem write_ok (hcount : chain.transitions.length < countBound)
    (hstart : start.capacity = none) (hrates : ∀ u ∈ rows chain, PositiveRate u.label) :
    ∃ after, write chain start = .ok (after, chain.transitions.length) ∧
      Stream.Written start (unlines (tableLines chain)) after := by
  obtain ⟨drafted, hdrafted, hwritten⟩ := draft_ok hstart hrates
  obtain ⟨after, hafter, hwritten⟩ := hwritten.patch hcount
  refine ⟨after, ?_, unlines_tableLines chain ▸ hwritten⟩
  rw [write_eq_draft]
  simp only [bind, Except.bind, hdrafted, hafter]

theorem write_error {e : Error} (hstart : start.capacity = none) (h : Refuses (rows chain) e) :
    write chain start = .error e := by
  obtain ⟨headed, hheaded, hdraft⟩ := draft_eq chain hstart
  rw [write_eq_draft, hdraft, writeRows_error h hheaded]
  rfl

/-- The text of the matrix: the number of states, the number of transitions, and three words for
    each transition. -/
def Tabulates (chain : Chain) (text : String) : Prop :=
  ∃ counts table, lines text = ("STATES " ++ chain.stateCount.repr) :: counts :: table ∧
    words counts = ["TRANSITIONS", chain.transitions.length.repr] ∧
    table.map words = (tabled chain).map cells

theorem states_eq_unwords (n : Nat) : "STATES " ++ n.repr = unwords ["STATES", n.repr] := by
  rw [← String.toList_inj]
  simp [unwords]

theorem isWord_of_mem_states (n : Nat) : ∀ word ∈ ["STATES", n.repr], IsWord word := by
  intro word hword
  rcases List.mem_cons.1 hword with rfl | hword
  · decide
  · obtain rfl := List.mem_singleton.1 hword
    exact Decimal.isWord_repr n

theorem isLine_countLine (count : Nat) : IsLine (countLine count) := by
  have hchars : (countLine count).toList = "TRANSITIONS ".toList ++
      (List.replicate (Stream.countWidth - (Nat.toDigits 10 count).length) ' ' ++
        Nat.toDigits 10 count) := by
    simp [countLine, Stream.countField]
  have hname : "TRANSITIONS ".toList.all isSpaced = true := by decide
  have hblanks : ∀ k, (List.replicate k ' ').all isSpaced = true := fun k =>
    List.all_eq_true.2 fun c hc => (List.eq_of_mem_replicate hc) ▸ rfl
  have hdigits : (Nat.toDigits 10 count).all isSpaced = true :=
    List.all_eq_true.2 fun c hc => by
      simp [isSpaced, Aldebaran.isBlank_of_isDigit (Aldebaran.isDigit_of_mem hc)]
  refine isLine_of_spaced ?_
  rw [hchars, List.all_append, List.all_append, hname, hblanks, hdigits]
  rfl

theorem isLine_tableLines (hrates : ∀ u ∈ rows chain, PositiveRate u.label) :
    ∀ line ∈ tableLines chain, IsLine line := by
  intro line hline
  rcases List.mem_cons.1 hline with rfl | hline
  · rw [states_eq_unwords]
    exact isLine_unwords (isWord_of_mem_states _)
  · rcases List.mem_cons.1 hline with rfl | hline
    · exact isLine_countLine _
    · obtain ⟨u, hu, rfl⟩ := List.mem_map.1 hline
      exact isLine_rowLine (hrates u hu)

theorem tabulates_tableLines (hrates : ∀ u ∈ rows chain, PositiveRate u.label) :
    Tabulates chain (unlines (tableLines chain)) := by
  refine ⟨_, _, lines_unlines (isLine_tableLines hrates), words_countLine _, ?_⟩
  rw [tabled, List.map_map, List.map_map]
  refine List.map_congr_left fun u hu => ?_
  rw [Function.comp_apply, Function.comp_apply, words_rowLine (hrates u hu)]

/-! ## The written labels -/

def labelHeader : List String := ["#DECLARATION", "init failed", "#END"]

abbrev Entry := Nat × List String

def Marks (entries : List Entry) (name : String) (n : Nat) : Prop :=
  ∃ entry ∈ entries, entry.1 = n ∧ name ∈ entry.2

instance decidableMarks (entries : List Entry) (name : String) (n : Nat) :
    Decidable (Marks entries name n) :=
  inferInstanceAs (Decidable (∃ entry ∈ entries, entry.1 = n ∧ name ∈ entry.2))

/-- What the label lines say: the states that have one ascend, `init` marks the initial state alone,
    and `failed` the failed states. -/
structure Labelling (chain : Chain) (entries : List Entry) : Prop where
  ascending : entries.Pairwise fun first second => first.1 < second.1
  state : ∀ entry ∈ entries, entry.1 ∈ Set.Icc 1 chain.stateCount
  names : ∀ entry ∈ entries, entry.2 ≠ [] ∧ entry.2.Sublist ["init", "failed"]
  initial : ∀ n, Marks entries "init" n ↔ n = chain.initial
  failed : ∀ n, Marks entries "failed" n ↔ chain.status? n = some .failed

def entryWords (entry : Entry) : List String := entry.1.repr :: entry.2

def entryLine (entry : Entry) : String := unwords (entryWords entry)

/-- The text of the labels: the header, and a line for each state in which a proposition holds. -/
def Labels (chain : Chain) (text : String) : Prop :=
  ∃ entries table, Labelling chain entries ∧ lines text = labelHeader ++ table ∧
    table.map words = entries.map entryWords

def marked? (chain : Chain) (n : Nat) : Option Entry :=
  if propositions chain n = [] then none else some (n, propositions chain n)

def entries (chain : Chain) : List Entry := chain.states.filterMap (marked? chain)

theorem labelLine?_eq (chain : Chain) (n : Nat) : labelLine? chain n =
    (marked? chain n).map fun entry => entryLine entry ++ "\n" := by
  rw [labelLine?, marked?]
  cases propositions chain n with
  | nil => rfl
  | cons name names =>
    rw [if_neg (List.cons_ne_nil name names), Option.map_some, entryLine, entryWords,
      unwords_cons_cons]
    rfl

theorem marked?_eq_some {n : Nat} {entry : Entry} : marked? chain n = some entry ↔
    propositions chain n ≠ [] ∧ (n, propositions chain n) = entry := by
  unfold marked?
  split
  · simp [*]
  · simp [*]

theorem mem_entries {n : Nat} {names : List String} : (n, names) ∈ entries chain ↔
    n ∈ Set.Icc 1 chain.stateCount ∧ names ≠ [] ∧ names = propositions chain n := by
  simp only [entries, List.mem_filterMap, marked?_eq_some, Chain.states, List.mem_range'_1,
    Set.mem_Icc]
  constructor
  · rintro ⟨k, hk, hne, heq⟩
    cases heq
    exact ⟨by omega, hne, rfl⟩
  · rintro ⟨hn, hne, rfl⟩
    exact ⟨n, by omega, hne, rfl⟩

theorem propositions_sublist (chain : Chain) (n : Nat) :
    (propositions chain n).Sublist ["init", "failed"] := by
  have hnames : ["init", "failed"] = ["init"] ++ ["failed"] := rfl
  rw [propositions, hnames]
  refine List.Sublist.append ?_ ?_ <;> split <;> simp

theorem init_mem_propositions {n : Nat} : "init" ∈ propositions chain n ↔ n = chain.initial := by
  simp [propositions]

theorem failed_mem_propositions {n : Nat} :
    "failed" ∈ propositions chain n ↔ chain.status? n = some .failed := by
  simp [propositions, Chain.isFailed_iff]

theorem marks_entries {name : String} {n : Nat} : Marks (entries chain) name n ↔
    n ∈ Set.Icc 1 chain.stateCount ∧ name ∈ propositions chain n := by
  constructor
  · rintro ⟨⟨k, names⟩, hentry, rfl, hname⟩
    obtain ⟨hk, -, rfl⟩ := mem_entries.1 hentry
    exact ⟨hk, hname⟩
  · rintro ⟨hn, hname⟩
    exact ⟨(n, propositions chain n), mem_entries.2 ⟨hn, List.ne_nil_of_mem hname, rfl⟩, rfl, hname⟩

theorem labelling_entries (h : chain.Tabular) : Labelling chain (entries chain) where
  ascending := by
    refine List.Pairwise.filterMap (marked? chain) ?_ List.pairwise_lt_range'
    rintro m n hlt first hfirst second hsecond
    obtain ⟨-, rfl⟩ := marked?_eq_some.1 hfirst
    obtain ⟨-, rfl⟩ := marked?_eq_some.1 hsecond
    exact hlt
  state entry hentry := (mem_entries.1 hentry).1
  names entry hentry := by
    obtain ⟨-, hne, heq⟩ := mem_entries.1 hentry
    exact ⟨hne, heq ▸ propositions_sublist chain entry.1⟩
  initial n := by
    rw [marks_entries, init_mem_propositions]
    exact ⟨And.right, fun hn => ⟨hn ▸ h.initial, hn⟩⟩
  failed n := by
    rw [marks_entries, failed_mem_propositions]
    exact ⟨And.right, fun hn => ⟨Chain.bounds_of_status? h.statuses hn, hn⟩⟩

theorem isWord_of_mem_entryWords {entry : Entry} (h : entry ∈ entries chain) :
    ∀ word ∈ entryWords entry, IsWord word := by
  intro word hword
  rcases List.mem_cons.1 hword with rfl | hword
  · exact Decimal.isWord_repr _
  · obtain ⟨-, -, heq⟩ := mem_entries.1 h
    have hmem := (propositions_sublist chain entry.1).subset (heq ▸ hword)
    rcases List.mem_cons.1 hmem with rfl | hmem
    · decide
    · obtain rfl := List.mem_singleton.1 hmem
      decide

def labelLines (chain : Chain) : List String := labelHeader ++ (entries chain).map entryLine

theorem labels_labelLines (h : chain.Tabular) : Labels chain (unlines (labelLines chain)) := by
  have hheader : labelHeader.all (fun line => line.toList.all isSpaced) = true := by decide
  have hlines : ∀ line ∈ labelLines chain, IsLine line := by
    intro line hline
    rcases List.mem_append.1 hline with hline | hline
    · exact isLine_of_spaced (List.all_eq_true.1 hheader line hline)
    · obtain ⟨entry, hentry, rfl⟩ := List.mem_map.1 hline
      exact isLine_unwords (isWord_of_mem_entryWords hentry)
  refine ⟨_, _, labelling_entries h, lines_unlines hlines, ?_⟩
  rw [List.map_map]
  refine List.map_congr_left fun entry hentry => ?_
  rw [Function.comp_apply, entryLine, words_unwords (isWord_of_mem_entryWords hentry)]

theorem writeLabels_ok (chain : Chain) (hstart : start.capacity = none) : ∃ after,
    writeLabels chain start = .ok after ∧
      Stream.Written start (unlines (labelLines chain)) after := by
  have hlines : ["#DECLARATION\n", "init failed\n", "#END\n"] ++
      chain.states.filterMap (labelLine? chain) = (labelLines chain).map (· ++ "\n") := by
    have hentries : labelLine? chain = fun n =>
        (marked? chain n).map fun entry => entryLine entry ++ "\n" :=
      funext (labelLine?_eq chain)
    rw [labelLines, List.map_append, List.map_map, entries, List.map_filterMap, hentries]
    rfl
  obtain ⟨after, hafter, hwritten⟩ := (Stream.written_start hstart).putLines (labelLines chain)
  rw [String.empty_append] at hwritten
  exact ⟨after, by rw [writeLabels, hlines, hafter], hwritten⟩

/-! ## Reading the tables -/

def number? (word : String) : Option Nat := Aldebaran.value? word.toList

def readCount? (name line : String) : Option Nat :=
  match words line with
  | [first, second] => if first = name then number? second else none
  | _ => none

def readRow? : List String → Option Transition
  | [source, target, rate] => do some ⟨← number? source, .rate rate, ← number? target⟩
  | _ => none

def readMatrix? (text : String) : Option (Nat × List Transition) :=
  match lines text with
  | first :: second :: table => do
    let stateCount ← readCount? "STATES" first
    let count ← readCount? "TRANSITIONS" second
    let transitions ← (table.map words).mapM readRow?
    if transitions.length = count then some (stateCount, transitions) else none
  | _ => none

def readMarks? : List String → Option Entry
  | state :: names => (number? state).map fun n => (n, names)
  | [] => none

def readLabels? (text : String) : Option (List Entry) :=
  if (lines text).take labelHeader.length = labelHeader then
    (((lines text).drop labelHeader.length).map words).mapM readMarks?
  else none

/-- The chain that a matrix and labels describe. States without a mark are operational. -/
def readPair? (matrix labels : String) : Option Chain := do
  let (stateCount, transitions) ← readMatrix? matrix
  let entries ← readLabels? labels
  let initial ← entries.find? fun entry => "init" ∈ entry.2
  some {
    initial := initial.1
    stateCount, transitions
    statuses := (List.range' 1 stateCount).map fun n =>
      if Marks entries "failed" n then .failed else .operational }

theorem number?_repr (n : Nat) : number? n.repr = some n := by
  have hchars : n.repr.toList = Nat.toDigits 10 n := by simp
  rw [number?, hchars, Aldebaran.value?_toDigits]

theorem readCount?_eq {name line : String} {n : Nat} (h : words line = [name, n.repr]) :
    readCount? name line = some n := by
  rw [readCount?, h]
  exact (if_pos rfl).trans (number?_repr n)

theorem readMatrix?_eq {text : String} (h : Tabulates chain text) :
    readMatrix? text = some (chain.stateCount, tabled chain) := by
  obtain ⟨counts, table, hlines, hcounts, htable⟩ := h
  have hrows : (table.map words).mapM readRow? = some (tabled chain) := by
    rw [htable]
    refine mapM_map_some fun v hv => ?_
    obtain ⟨u, -, rfl⟩ := List.mem_map.1 hv
    simp [readRow?, cells, number?_repr, tidy, KeptLabel.body]
  have hlength : (tabled chain).length = chain.transitions.length := by
    rw [tabled, List.length_map, (stablySorted_rows chain).perm.length_eq]
  have hstates : words ("STATES " ++ chain.stateCount.repr) =
      ["STATES", chain.stateCount.repr] := by
    rw [states_eq_unwords, words_unwords (isWord_of_mem_states _)]
  rw [readMatrix?, hlines]
  simp only [readCount?_eq hstates, readCount?_eq hcounts, hrows, Option.bind_eq_bind,
    Option.bind_some, if_pos hlength]

theorem readLabels?_eq {text : String} {entries : List Entry} {table : List String}
    (hlines : lines text = labelHeader ++ table)
    (htable : table.map words = entries.map entryWords) : readLabels? text = some entries := by
  rw [readLabels?, hlines, List.take_left, if_pos rfl, List.drop_left, htable]
  exact mapM_map_some fun entry _ => by simp [readMarks?, entryWords, number?_repr]

theorem Labelling.find?_init {entries : List Entry} (h : Labelling chain entries) :
    ∃ names, entries.find? (fun entry => "init" ∈ entry.2) = some (chain.initial, names) := by
  obtain ⟨marked, hmarked, -, hinit⟩ := (h.initial chain.initial).2 rfl
  have hsome : (entries.find? fun entry => decide ("init" ∈ entry.2)).isSome :=
    List.find?_isSome.2 ⟨marked, hmarked, decide_eq_true hinit⟩
  obtain ⟨⟨n, names⟩, hfound⟩ := Option.isSome_iff_exists.1 hsome
  have hname : decide ("init" ∈ names) = true :=
    List.find?_some (p := fun entry : Entry => decide ("init" ∈ entry.2)) hfound
  have hn : n = chain.initial := (h.initial n).1
    ⟨_, List.mem_of_find?_eq_some hfound, rfl, of_decide_eq_true hname⟩
  exact ⟨names, hn ▸ hfound⟩

theorem Labelling.statuses_eq {entries : List Entry} (h : Labelling chain entries)
    (hstatuses : chain.statuses.length = chain.stateCount) :
    (List.range' 1 chain.stateCount).map (fun n =>
      if Marks entries "failed" n then Status.failed else .operational) = chain.statuses := by
  refine List.ext_getElem (by simp [hstatuses]) fun place hrange hplace => ?_
  have hstatus : chain.status? (place + 1) = some chain.statuses[place] :=
    List.getElem?_eq_getElem hplace
  have hmark := h.failed (place + 1)
  rw [List.getElem_map, List.getElem_range', Nat.one_mul, Nat.add_comm]
  rw [hstatus, Option.some.injEq] at hmark
  cases hvalue : chain.statuses[place] with
  | failed => exact if_pos (hmark.2 hvalue)
  | operational => exact if_neg fun hmarked => nomatch (hmark.1 hmarked).symm.trans hvalue

theorem readPair?_eq {matrix labels : String} (h : chain.Tabular) (hmatrix : Tabulates chain matrix)
    (hlabels : Labels chain labels) :
    readPair? matrix labels = some { chain with transitions := tabled chain } := by
  obtain ⟨entries, table, hlabelling, hlines, htable⟩ := hlabels
  obtain ⟨names, hinit⟩ := hlabelling.find?_init
  rw [readPair?, readMatrix?_eq hmatrix, readLabels?_eq hlines htable]
  simp only [Option.bind_eq_bind, Option.bind_some, hinit, hlabelling.statuses_eq h.statuses]

/-! ## The pair of tables -/

theorem mem_rows : u ∈ rows chain ↔ u ∈ chain.transitions :=
  (stablySorted_rows chain).perm.mem_iff

theorem positive_of_write {result : Stream × Nat} (hstart : start.capacity = none)
    (h : write chain start = .ok result) : ∀ u ∈ chain.transitions, PositiveRate u.label := by
  intro u hu
  rcases positive_or_refuses (rows chain) with hrates | ⟨e, he⟩
  · exact hrates u (mem_rows.2 hu)
  · cases h.symm.trans (write_error hstart he)

theorem exists_write_ok_iff (hstart : start.capacity = none) :
    (∃ result, write chain start = .ok result) ↔
      ∀ u ∈ chain.transitions, PositiveRate u.label := by
  constructor
  · rintro ⟨result, hok⟩
    exact positive_of_write hstart hok
  · intro hrates
    obtain ⟨drafted, hdrafted, hwritten⟩ := draft_ok hstart fun u hu => hrates u (mem_rows.1 hu)
    obtain ⟨after, hafter⟩ := Stream.exists_patch hwritten.capacity
      (start.position + (heading chain).toUTF8.size) chain.transitions.length
    refine ⟨(after, chain.transitions.length), ?_⟩
    rw [write_eq_draft]
    simp only [bind, Except.bind, hdrafted, hafter]

theorem refuses_of_write {e : Error} (hcount : chain.transitions.length < countBound)
    (hstart : start.capacity = none) (h : write chain start = .error e) :
    Refuses (rows chain) e := by
  rcases positive_or_refuses (rows chain) with hrates | ⟨e', he'⟩
  · obtain ⟨after, hok, -⟩ := write_ok hcount hstart hrates
    cases h.symm.trans hok
  · cases h.symm.trans (write_error hstart he')
    exact he'

theorem tabulates_of_write {after : Stream} {count : Nat}
    (hcount : chain.transitions.length < countBound) (hstart : start.capacity = none)
    (h : write chain start = .ok (after, count)) : count = chain.transitions.length ∧
      Stream.Written start (unlines (tableLines chain)) after ∧
      Tabulates chain (unlines (tableLines chain)) := by
  have hrates : ∀ u ∈ rows chain, PositiveRate u.label := fun u hu =>
    positive_of_write hstart h u (mem_rows.1 hu)
  obtain ⟨_, hok, hwritten⟩ := write_ok hcount hstart hrates
  cases h.symm.trans hok
  exact ⟨rfl, hwritten, tabulates_tableLines hrates⟩

/-- On unbounded streams the matrix is written exactly if all transitions have positive rates, and
    else the first one without is refused; the labels are always written. The texts are those of the
    chain, and together they give it back, its transitions sorted and their rates trimmed. -/
theorem tables_exact {labelStart : Stream} (h : chain.Tabular) (hstart : start.capacity = none)
    (hlabelStart : labelStart.capacity = none) :
    StablySorted chain.transitions (rows chain) ∧
    ((∃ result, write chain start = .ok result) ↔ ∀ u ∈ chain.transitions, PositiveRate u.label) ∧
    (∀ e, write chain start = .error e → Refuses (rows chain) e) ∧
    ∃ labelled labels, writeLabels chain labelStart = .ok labelled ∧
      Stream.Written labelStart labels labelled ∧ Labels chain labels ∧
      ∀ after count, write chain start = .ok (after, count) →
        count = chain.transitions.length ∧
        ∃ matrix, Stream.Written start matrix after ∧ Tabulates chain matrix ∧
          readPair? matrix labels = some { chain with transitions := tabled chain } := by
  obtain ⟨labelled, hlabelled, hwrittenLabels⟩ := writeLabels_ok chain hlabelStart
  have hlabels := labels_labelLines h
  refine ⟨stablySorted_rows chain, exists_write_ok_iff hstart,
    fun _ => refuses_of_write h.count hstart, labelled, _, hlabelled, hwrittenLabels, hlabels,
    fun after count hok => ?_⟩
  obtain ⟨hlength, hwritten, hmatrix⟩ := tabulates_of_write h.count hstart hok
  exact ⟨hlength, _, hwritten, hmatrix, readPair?_eq h hmatrix hlabels⟩

/-- Two states, with two delays from the first to itself and blanks around a rate. -/
def furnace : Chain where
  initial := 2
  stateCount := 2
  transitions := [⟨2, .rate " 1.5 ", 1⟩, ⟨1, .rate "3", 1⟩, ⟨1, .rate "0.25", 2⟩,
    ⟨1, .rate "1e-2", 1⟩]
  statuses := [.failed, .operational]

theorem tabled_furnace : tabled furnace = [⟨1, .rate "3", 1⟩, ⟨1, .rate "1e-2", 1⟩,
    ⟨1, .rate "0.25", 2⟩, ⟨2, .rate "1.5", 1⟩] := by
  have hrows : rows furnace = [⟨1, .rate "3", 1⟩, ⟨1, .rate "1e-2", 1⟩, ⟨1, .rate "0.25", 2⟩,
      ⟨2, .rate " 1.5 ", 1⟩] := by
    simp [rows, isLE_compare, furnace, List.mergeSort, Precedes]
  rw [tabled, hrows]
  decide +kernel

theorem furnace_tables : furnace.Tabular ∧ (∀ u ∈ furnace.transitions, PositiveRate u.label) ∧
    Stream.empty.capacity = none ∧ ∃ after matrix labelled labels,
      write furnace Stream.empty = .ok (after, 4) ∧ Stream.Written Stream.empty matrix after ∧
      writeLabels furnace Stream.empty = .ok labelled ∧
      Stream.Written Stream.empty labels labelled ∧
      readPair? matrix labels = some ⟨2, 2, [⟨1, .rate "3", 1⟩, ⟨1, .rate "1e-2", 1⟩,
        ⟨1, .rate "0.25", 2⟩, ⟨2, .rate "1.5", 1⟩], [.failed, .operational]⟩ := by
  have htabular : furnace.Tabular :=
    ⟨⟨⟨by decide, by decide⟩, by simp [furnace]⟩, rfl, by decide⟩
  have hrates : ∀ u ∈ furnace.transitions, PositiveRate u.label := by decide +kernel
  obtain ⟨-, hok, -, labelled, labels, hlabelled, hlabels, -, hread⟩ :=
    tables_exact htabular (rfl : Stream.empty.capacity = none) (rfl : Stream.empty.capacity = none)
  obtain ⟨⟨after, count⟩, hwrite⟩ := hok.2 hrates
  obtain ⟨rfl, matrix, hmatrix, -, hpair⟩ := hread after count hwrite
  rw [tabled_furnace] at hpair
  exact ⟨htabular, hrates, rfl, after, matrix, labelled, labels, hwrite, hmatrix, hlabelled,
    hlabels, hpair⟩

end RateMatrix

end InteractiveMarkov
