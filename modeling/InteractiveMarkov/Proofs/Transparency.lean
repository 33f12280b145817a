import InteractiveMarkov.Proofs.Embedding
import InteractiveMarkov.Proofs.KeptLabels
import InteractiveMarkov.Proofs.RoundTrip
import Mathlib.Data.Set.Finite.Lattice

set_option autoImplicit false

namespace InteractiveMarkov

variable {names : Vocabulary}

theorem Stream.Written.bytes_eq {text : String} {after : Stream}
    (h : Stream.empty.Written text after) : after.bytes = text.toUTF8 := by
  rw [h.bytes (Nat.le_refl _)]
  exact ByteArray.empty_append

theorem Aldebaran.exists_stored {chain : Chain} (h : chain.Writable) : ∃ after b,
    write chain Stream.empty = .ok (after, chain.transitions.length) ∧
      readStored after.bytes = .ok b ∧ b.initial = chain.initial - 1 ∧
      b.edges.toList = chain.transitions.map fileEdge := by
  obtain ⟨after, hwrite, hwritten⟩ := @write_ok _ Stream.empty h rfl
  obtain ⟨b, hread, -, hinitial, -, hedges⟩ := readStored_fileLines h
  exact ⟨after, b, hwrite, hwritten.bytes_eq.symm ▸ hread, hinitial, hedges⟩

theorem exists_enumeration (live : StateSet) {bound : Nat} (h : ∀ s ∈ live, s < bound) :
    ∃ g : Nat → StateId, StrictMono g ∧ (∀ s ∈ live, g (rank live s - 1) = s) ∧
      ∀ n, live.size ≤ n → bound ≤ g n := by
  have hplace : ∀ n (hn : n < live.toList.length), live.toList.getD n (bound + n) =
      live.toList[n] := by
    intro n hn
    rw [List.getD_eq_getElem?_getD, List.getElem?_eq_getElem hn]
    rfl
  have hbehind : ∀ n, live.toList.length ≤ n → live.toList.getD n (bound + n) = bound + n := by
    intro n hn
    rw [List.getD_eq_getElem?_getD, List.getElem?_eq_none hn]
    rfl
  refine ⟨fun n => live.toList.getD n (bound + n), fun m n hlt => ?_, fun s hs => ?_,
    fun n hn => ?_⟩
  · by_cases hn : n < live.toList.length
    · have hm := Nat.lt_trans hlt hn
      simp only [hplace m hm, hplace n hn]
      exact List.pairwise_iff_getElem.1 (pairwise_toList live) m n hm hn hlt
    · simp only [hbehind n (Nat.le_of_not_lt hn)]
      by_cases hm : m < live.toList.length
      · simp only [hplace m hm]
        have hsmall := h _ (Std.ExtTreeSet.mem_toList.1 (List.getElem_mem hm))
        exact Nat.lt_of_lt_of_le hsmall (Nat.le_add_right bound n)
      · simp only [hbehind m (Nat.le_of_not_lt hm)]
        exact Nat.add_lt_add_left hlt bound
  · obtain ⟨i, hi, hget, hrank⟩ := exists_place hs
    rw [hrank, Nat.add_sub_cancel_left]
    exact (hplace i hi).trans hget
  · rw [← Std.ExtTreeSet.length_toList] at hn
    simp only [hbehind n hn]
    exact Nat.le_add_right bound n

theorem map_filter_filterMap {α β γ : Type} {f : α → Option β} {q : β → Bool} {g : β → γ}
    {q' : α → Bool} {g' : α → γ} {l : List α} (hnone : ∀ x ∈ l, f x = none → q' x = false)
    (hsome : ∀ x ∈ l, ∀ y, f x = some y → q y = q' x ∧ (q' x = true → g y = g' x)) :
    ((l.filterMap f).filter q).map g = (l.filter q').map g' := by
  induction l with
  | nil => rfl
  | cons x rest ih =>
    have hrest := ih (fun y hy => hnone y (List.mem_cons_of_mem x hy))
      fun y hy => hsome y (List.mem_cons_of_mem x hy)
    cases hx : f x with
    | none =>
      rw [List.filterMap_cons_none hx, hrest, List.filter_cons_of_neg]
      rw [hnone x List.mem_cons_self hx]
      exact Bool.false_ne_true
    | some y =>
      obtain ⟨hq, hg⟩ := hsome x List.mem_cons_self y hx
      rw [List.filterMap_cons_some hx, List.filter_cons, List.filter_cons, hq]
      by_cases hkept : q' x = true
      · rw [if_pos hkept, if_pos hkept, List.map_cons, List.map_cons, hrest, hg hkept]
      · rw [if_neg hkept, if_neg hkept, hrest]

namespace Automaton

variable {a b : Automaton} {s t : StateId} {edge : Edge} {timed : Bool} {n : Nat}

theorem outgoing_of_file {chain : Chain}
    (hedges : b.edges.toList = chain.transitions.map Aldebaran.fileEdge)
    (hpos : ∀ transition ∈ chain.transitions, 1 ≤ transition.source) (n : Nat) :
    b.outgoing n = (chain.outgoing (n + 1)).map Aldebaran.fileEdge := by
  rw [outgoing, hedges, List.filter_map, Chain.outgoing]
  congr 1
  apply List.filter_congr
  intro transition hmem
  have hsource := hpos transition hmem
  refine decide_eq_decide.2 (?_ : transition.source - 1 = n ↔ transition.source = n + 1)
  omega

section Written

/-- The edges of an automaton are those that maximal progress leaves of another one, as they stand
    in the file of its chain. -/
def WrittenFrom (names : Vocabulary) (a b : Automaton) : Prop :=
  b.edges.toList = (a.progressChain names).transitions.map Aldebaran.fileEdge

variable (h : WrittenFrom names a b)

include h

theorem WrittenFrom.outgoing_file (n : Nat) :
    b.outgoing n = ((a.progressChain names).outgoing (n + 1)).map Aldebaran.fileEdge := by
  apply outgoing_of_file h
  intro transition hmem
  obtain ⟨s, hs, edge, -, label, -, -, rfl⟩ := mem_progressChain hmem
  exact (rank_mem hs).1

theorem WrittenFrom.outgoing_eq (hs : s ∈ (a.swept names).visited) :
    b.outgoing (rank (a.swept names).visited s - 1) =
      ((a.outgoing s).filterMap (a.remnant? names ((a.swept names).timed.contains s))).map
        fun kept => ⟨rank (a.swept names).visited s - 1, kept.label.text,
          rank (a.swept names).visited kept.target - 1⟩ := by
  rw [h.outgoing_file, Nat.sub_add_cancel (rank_mem hs).1, outgoing_progressChain hs, List.map_map]
  apply List.map_congr_left
  intro kept hkept
  obtain ⟨edge, hedge, hsome⟩ := List.mem_filterMap.1 hkept
  obtain ⟨-, label, -, rfl⟩ := remnant?_some hedge hsome
  rfl

theorem WrittenFrom.outgoing_nil (hn : (a.swept names).visited.size ≤ n) : b.outgoing n = [] := by
  have hsources : ∀ transition ∈ (a.progressChain names).transitions,
      transition.source ∈ Set.Icc 1 (a.swept names).visited.size := by
    intro transition hmem
    obtain ⟨s, hs, edge, -, label, -, -, rfl⟩ := mem_progressChain hmem
    exact rank_mem hs
  have hout : n + 1 ∉ Set.Icc 1 (a.swept names).visited.size := fun hin =>
    Nat.not_succ_le_self n (Nat.le_trans hin.2 hn)
  rw [h.outgoing_file, Chain.outgoing_nil hsources hout]
  rfl

end Written

/-- The map takes the numbers of the file to the visited states, and every other number to a state
    that no edge leaves. -/
structure Listing (names : Vocabulary) (g : Nat → StateId) (a : Automaton) : Prop where
  mono : StrictMono g
  state : ∀ s ∈ (a.swept names).visited, g (rank (a.swept names).visited s - 1) = s
  behind : ∀ n, (a.swept names).visited.size ≤ n → a.outgoing (g n) = []

theorem exists_listing (a : Automaton) (names : Vocabulary) : ∃ g, Listing names g a := by
  obtain ⟨top, htop⟩ := (List.finite_toSet ((a.swept names).visited.toList ++
    a.edges.toList.map Edge.source)).bddAbove
  have hbound : ∀ s ∈ (a.swept names).visited, s < top + 1 := fun s hs =>
    Nat.lt_succ_of_le (htop (List.mem_append_left _ (Std.ExtTreeSet.mem_toList.2 hs)))
  obtain ⟨g, hmono, hg, hbehind⟩ := exists_enumeration _ hbound
  refine ⟨g, hmono, hg, fun n hn => ?_⟩
  rw [outgoing, List.filter_eq_nil_iff]
  intro edge hedge heq
  have hle := htop (List.mem_append_right _ (List.mem_map_of_mem (f := Edge.source) hedge))
  rw [of_decide_eq_true heq] at hle
  exact Nat.not_succ_le_self top (Nat.le_trans (hbehind n hn) hle)

section Embedding

variable {g : Nat → StateId} (hg : Listing names g a) (h : WrittenFrom names a b)
  (hsilent : ∀ s ∈ (a.swept names).visited, ∀ edge ∈ a.outgoing s,
    names.classify edge.label ≠ .silent)

include hg h hsilent

theorem immediates_written (hs : s ∈ (a.swept names).visited) :
    ((b.immediates names (rank (a.swept names).visited s - 1)).map fun edge =>
      (edge.label, g edge.target)) =
        (a.immediates names s).map fun edge => (edge.label, edge.target) := by
  rw [immediates, immediates, h.outgoing_eq hs, List.filter_map, List.map_map]
  apply map_filter_filterMap
  · intro edge hedge hlost
    rcases remnant?_none hedge hlost with hkind | ⟨hkind, -⟩
    · exact absurd hkind (hsilent s hs edge hedge)
    · exact hkind
  · intro edge hedge kept hsome
    have htarget := target_visited hs hedge hsome
    obtain ⟨-, label, hlabel, rfl⟩ := remnant?_some hedge hsome
    obtain ⟨hclass, -, htext⟩ := classify_text hlabel
    refine ⟨congrArg LabelClass.isImmediate hclass, fun himm => ?_⟩
    rw [Function.comp_apply, htext himm, hg.state _ htarget]

theorem delays_written (hs : s ∈ (a.swept names).visited) (hstable : a.urgentEdge? names s = none) :
    ((b.delays names (rank (a.swept names).visited s - 1)).map fun edge =>
      (delayLabel edge.label, g edge.target)) =
        (a.delays names s).map fun edge => (delayLabel edge.label, edge.target) := by
  rw [delays, delays, h.outgoing_eq hs, List.filter_map, List.map_map]
  apply map_filter_filterMap
  · intro edge hedge hlost
    rcases remnant?_none hedge hlost with hkind | ⟨-, hurgent⟩
    · exact absurd hkind (hsilent s hs edge hedge)
    · exact absurd hstable hurgent
  · intro edge hedge kept hsome
    have htarget := target_visited hs hedge hsome
    obtain ⟨-, label, hlabel, rfl⟩ := remnant?_some hedge hsome
    obtain ⟨hclass, hdelay, -⟩ := classify_text hlabel
    refine ⟨congrArg LabelClass.isDelay hclass, fun _ => ?_⟩
    rw [Function.comp_apply, hdelay, hg.state _ htarget]

theorem Listing.embeds (hinitial : b.initial = rank (a.swept names).visited a.initial - 1) :
    Embeds names g b a := by
  have hcases : ∀ n, (∃ s ∈ (a.swept names).visited, n = rank (a.swept names).visited s - 1) ∨
      b.outgoing n = [] ∧ a.outgoing (g n) = [] := by
    intro n
    rcases Nat.lt_or_ge n (a.swept names).visited.size with hn | hn
    · obtain ⟨s, hs, hrank⟩ := exists_rank (Nat.succ_pos n) (Nat.succ_le_of_lt hn)
      exact .inl ⟨s, hs, by omega⟩
    · exact .inr ⟨h.outgoing_nil hn, hg.behind n hn⟩
  have himmediates : ∀ n, ((a.immediates names (g n)).map fun edge => (edge.label, edge.target)) =
      (b.immediates names n).map fun edge => (edge.label, g edge.target) := by
    intro n
    rcases hcases n with ⟨s, hs, rfl⟩ | ⟨hfile, hnone⟩
    · rw [hg.state s hs]
      exact (immediates_written hg h hsilent hs).symm
    · rw [immediates, immediates, hfile, hnone]
      rfl
  refine ⟨hg.mono, ?_, himmediates, fun n hstable => ?_⟩
  · rw [hinitial, hg.state _ (finds_swept a names).start]
  · have hstable' : a.urgentEdge? names (g n) = none := by
      have hfirst := congrArg List.head? (himmediates n)
      rw [List.head?_map, List.head?_map, ← urgentEdge?_eq, ← urgentEdge?_eq, hstable] at hfirst
      exact Option.map_eq_none_iff.1 hfirst
    rcases hcases n with ⟨s, hs, rfl⟩ | ⟨hfile, hnone⟩
    · rw [hg.state s hs] at hstable' ⊢
      exact (delays_written hg h hsilent hs hstable').symm
    · rw [delays, delays, hfile, hnone]
      rfl

end Embedding

/-- Reducing what maximal progress left of an automaton, after it was written to a file and read
    back, gives the chain that reducing the automaton gives, or fails with the same kind of error.
    Silent edges are followed but not written, so none may leave a visited state; the counts and
    labels have to fit into the file. -/
theorem progress_transparent (a : Automaton) (options : ReductionOptions)
    (hsilent : ∀ s ∈ (a.maximalProgress options.names).visited, ∀ edge ∈ a.outgoing s,
      options.names.classify edge.label ≠ .silent)
    (hfeed : ∀ edge ∈ a.edges.toList, '\n' ∉ edge.label.toList)
    (hstates : (a.maximalProgress options.names).visited.size < stateBound)
    (hcount : a.edges.size < countBound) :
    ∃ r after b, a.progress options = .ok r ∧
      Aldebaran.write r.chain Stream.empty = .ok (after, r.chain.transitions.length) ∧
      Aldebaran.readStored after.bytes = .ok b ∧
      Agrees (fun q r => r.chain = q.chain) (b.reduce options) (a.reduce options) := by
  obtain ⟨r, hr, hchain⟩ := a.progress_ok options
  have hwritable : (a.progressChain options.names).Writable :=
    progress_writable hfeed hstates hcount
  obtain ⟨after, hwrite, hwritten⟩ := @Aldebaran.write_ok _ Stream.empty hwritable rfl
  obtain ⟨b, hread, -, hinitial, -, hedges⟩ := Aldebaran.readStored_fileLines hwritable
  obtain ⟨g, hg⟩ := exists_listing a options.names
  refine ⟨r, after, b, hr, ?_, ?_, (hg.embeds hedges hsilent hinitial).reduce_agrees options.merge⟩
  · rw [hchain]
    exact hwrite
  · rw [hwritten.bytes_eq]
    exact hread

/-- A pump that fails and is restarted. The second delay of state 9 is preempted. -/
def pump : Automaton := .ofEdges 4
  [⟨4, "rate 1", 9⟩, ⟨9, "FAIL", 6⟩, ⟨9, "rate 7", 2⟩, ⟨6, "time 2", 3⟩, ⟨3, "FIX", 4⟩]

def pumpChain : Chain :=
  ⟨1, 2, [⟨1, .rate "1", 2⟩, ⟨2, .timed "time 2", 1⟩], [.operational, .failed]⟩

theorem pump_transparent : ∃ r after b q, pump.progress ⟨relayNames, false⟩ = .ok r ∧
    Aldebaran.write r.chain Stream.empty = .ok (after, r.chain.transitions.length) ∧
    Aldebaran.readStored after.bytes = .ok b ∧ b.reduce ⟨relayNames, false⟩ = .ok q ∧
    q.chain = pumpChain := by
  have hloud : ∀ edge ∈ pump.edges.toList, relayNames.classify edge.label ≠ .silent := by
    decide +kernel
  have hfeed : ∀ edge ∈ pump.edges.toList, '\n' ∉ edge.label.toList := by decide +kernel
  have hsize : (pump.maximalProgress relayNames).visited.size = 4 := by decide +kernel
  have hrun : (pump.reduce ⟨relayNames, false⟩).toOption.map (·.chain) = some pumpChain := by
    decide +kernel
  obtain ⟨r, after, b, hr, hwrite, hread, hagrees⟩ := progress_transparent pump
    ⟨relayNames, false⟩ (fun s _ edge hedge => hloud edge (mem_edges_of_outgoing hedge)) hfeed
    (by rw [hsize]; decide) (by decide +kernel)
  rcases hagrees.cases with ⟨q, x, hb, hx, hsame⟩ | ⟨e, f, -, hx, -⟩
  · rw [hx] at hrun
    exact ⟨r, after, b, q, hr, hwrite, hread, hb, hsame.symm.trans (Option.some.inj hrun)⟩
  · rw [hx] at hrun
    cases hrun

end Automaton

end InteractiveMarkov
