import InteractiveMarkov.Proofs.ChainFiles
import InteractiveMarkov.Proofs.Progress
import Mathlib.Algebra.Order.BigOperators.Group.List

set_option autoImplicit false

namespace InteractiveMarkov

namespace Automaton

variable {a b : Automaton} {names : Vocabulary} {s t : StateId} {edge : Edge}

/-- What reading a file ensures of an automaton. -/
structure FromFile (a : Automaton) : Prop where
  initial : a.initial < a.declared
  ends : ∀ edge ∈ a.edges.toList, edge.source < a.declared ∧ edge.target < a.declared
  noFeed : ∀ edge ∈ a.edges.toList, '\n' ∉ edge.label.toList
  states : a.declared < stateBound
  count : a.edges.size < countBound

end Automaton

namespace Aldebaran

variable {states number last last' : Nat} {lines : List (Option String)} {a b : Automaton}
  {header : Header}

theorem decoded_ok {line : Option String} {text : String} (h : decoded line = .ok text) :
    line = some text := by
  cases line with
  | none => cases h
  | some found =>
    cases h
    rfl

theorem inRange_lt {edge : Edge} {line : Nat} {u : Unit} (h : inRange states edge line = .ok u) :
    edge.source < states ∧ edge.target < states := by
  unfold inRange at h
  split at h
  · cases h
  · rename_i hsource
    split at h
    · cases h
    · rename_i htarget
      exact ⟨Nat.lt_of_not_le hsource, Nat.lt_of_not_le htarget⟩

theorem findHeader_ok {rest : List (Option String)} {last : Nat}
    (h : findHeader lines number = .ok (header, rest, last)) :
    (header.initial < header.states ∧ header.states < stateBound ∧
      header.transitions < countBound) ∧ rest ⊆ lines := by
  induction lines generalizing number with
  | nil => cases h
  | cons line lines ih =>
    rw [findHeader] at h
    obtain ⟨text, -, h⟩ := bind_ok h
    split at h
    · obtain ⟨hheader, hsub⟩ := ih h
      exact ⟨hheader, List.Subset.trans hsub (List.subset_cons_self _ _)⟩
    · obtain ⟨found, hparse, h⟩ := bind_ok h
      cases h
      exact ⟨parseHeader_ok hparse, List.subset_cons_self _ _⟩

theorem readTransitions_ok (hlines : ∀ line, some line ∈ lines → '\n' ∉ line.toList)
    (h : readTransitions states lines number ⟨a, last⟩ = .ok ⟨b, last'⟩) :
    ∃ edges : List Edge, b = edges.foldl Automaton.extend a ∧
      ∀ edge ∈ edges, (edge.source < states ∧ edge.target < states) ∧
        '\n' ∉ edge.label.toList := by
  induction lines generalizing number a last with
  | nil =>
    cases h
    exact ⟨[], rfl, by simp⟩
  | cons line lines ih =>
    have hrest : ∀ other, some other ∈ lines → '\n' ∉ other.toList :=
      fun other hother => hlines other (List.mem_cons_of_mem _ hother)
    rw [readTransitions] at h
    obtain ⟨text, htext, hrun⟩ := bind_ok h
    obtain rfl := decoded_ok htext
    split at hrun
    · exact ih hrest hrun
    · obtain ⟨edge, hparse, hrun⟩ := bind_ok hrun
      obtain ⟨u, hrange, hrun⟩ := bind_ok hrun
      obtain ⟨edges, hedges, hall⟩ := ih hrest hrun
      refine ⟨edge :: edges, hedges, fun other hother => ?_⟩
      rcases List.mem_cons.1 hother with rfl | hother
      · exact ⟨inRange_lt hrange, fun hfeed =>
          hlines text List.mem_cons_self (parseTransition_ok hparse hfeed)⟩
      · exact hall other hother

theorem readLines_ok (hlines : ∀ line, some line ∈ lines → '\n' ∉ line.toList)
    (h : readLines lines = .ok a) : a.FromFile ∧ a.stateCount = a.declared := by
  unfold readLines at h
  obtain ⟨⟨header, rest, number⟩, hheader, h⟩ := bind_ok h
  obtain ⟨⟨hinitial, hstates, htransitions⟩, hsub⟩ := findHeader_ok hheader
  obtain ⟨⟨read, last⟩, hread, h⟩ := bind_ok h
  obtain ⟨edges, rfl, hedges⟩ := readTransitions_ok (fun line hline => hlines line (hsub hline)) hread
  have hextended := Automaton.extended_withDeclared header.initial header.states edges
  dsimp only at h
  split at h
  · rename_i hcount
    cases h
    have hlist : ∀ edge ∈ (edges.foldl Automaton.extend
        (Automaton.withDeclared header.initial header.states)).edges.toList, edge ∈ edges := by
      intro edge hedge
      rw [hextended.edges] at hedge
      exact hedge
    refine ⟨⟨?_, fun edge hedge => ?_, fun edge hedge => (hedges edge (hlist edge hedge)).2, ?_,
      ?_⟩, ?_⟩
    · rw [hextended.initial, hextended.declared]
      exact hinitial
    · rw [hextended.declared]
      exact (hedges edge (hlist edge hedge)).1
    · rw [hextended.declared]
      exact hstates
    · rw [Automaton.edgeCount] at hcount
      rwa [hcount]
    · rw [hextended.stateCount_eq hinitial fun edge hedge => (hedges edge hedge).1,
        hextended.declared]
      rfl
  · cases h

theorem readStored_ok {bytes : ByteArray} (h : readStored bytes = .ok a) :
    a.FromFile ∧ a.stateCount = a.declared :=
  readLines_ok (fun _ => Text.not_mem_of_mem_storedLines) h

end Aldebaran

theorem text_subset_of_keep? {names : Vocabulary} {label : String} {kept : KeptLabel}
    (h : (names.classify label).keep? label = some kept) :
    kept.text.toList ⊆ rateMark ++ label.toList := by
  have hfull : label.toList ⊆ rateMark ++ label.toList := List.subset_append_right _ _
  unfold Vocabulary.classify at h
  split_ifs at h
  · cases h
  · cases h
    intro c hc
    rw [KeptLabel.text, String.toList_append, String.toList_ofList, String.toList_ofList] at hc
    refine (List.mem_append.1 hc).elim (List.mem_append_left _) fun hc => ?_
    exact hfull (List.mem_of_mem_drop (Aldebaran.trim_subset _ hc))
  all_goals
    cases h
    exact hfull

theorem size_le_of_below {live : StateSet} {n : Nat} (h : ∀ s ∈ live, s < n) : live.size ≤ n := by
  have hlen : live.size ≤ (List.range n).length := size_le_length fun s hs => List.mem_range.2 (h s hs)
  rwa [List.length_range] at hlen

namespace Automaton

variable {a : Automaton} {names : Vocabulary} {s t : StateId} {edge : Edge}

theorem length_outgoing_cons (order : List StateId) (edge : Edge) (edges : List Edge) :
    (order.flatMap fun s => (edge :: edges).filter (·.source = s)).length =
      order.count edge.source + (order.flatMap fun s => edges.filter (·.source = s)).length := by
  induction order with
  | nil => rfl
  | cons s rest ih =>
    rw [List.flatMap_cons, List.flatMap_cons, List.length_append, List.length_append, ih,
      List.count_cons, List.filter_cons]
    by_cases hs : edge.source = s
    · simp [hs]
      omega
    · have hne : ¬ s = edge.source := fun heq => hs heq.symm
      simp [hs, hne]
      omega

theorem length_outgoing_le {order : List StateId} (h : order.Nodup) (edges : List Edge) :
    (order.flatMap fun s => edges.filter (·.source = s)).length ≤ edges.length := by
  induction edges with
  | nil => simp
  | cons edge rest ih =>
    have honce := List.nodup_iff_count_le_one.1 h edge.source
    rw [length_outgoing_cons, List.length_cons]
    omega

theorem length_flatMap_le {order : List StateId} (h : order.Nodup) {f : StateId → List KeptEdge}
    (hf : ∀ s, (f s).length ≤ (a.outgoing s).length) :
    (order.flatMap f).length ≤ a.edges.size := by
  refine Nat.le_trans ?_ (Nat.le_trans (length_outgoing_le h a.edges.toList)
    (Nat.le_of_eq Array.length_toList))
  rw [List.length_flatMap, List.length_flatMap]
  exact List.sum_le_sum fun s _ => hf s

theorem mem_edges_of_outgoing (h : edge ∈ a.outgoing s) : edge ∈ a.edges.toList :=
  (List.mem_filter.1 h).1

theorem FromFile.reached_lt (h : a.FromFile) (hs : a.Reached names s) : s < a.declared := by
  induction hs with
  | initial => exact h.initial
  | urgent _ hedge _ => exact (h.ends _ (mem_edges_of_outgoing (urgentEdge?_some hedge).1)).2
  | patient _ _ hedge _ => exact (h.ends _ (mem_edges_of_outgoing (List.mem_filter.1 hedge).1)).2

theorem FromFile.visited_lt (h : a.FromFile) (hs : s ∈ (a.swept names).visited) :
    s < a.declared := by
  have hclosed : a.ClosedPair names {s | s < a.declared} {s | s < a.declared} := by
    have htarget : ∀ s, ∀ edge ∈ a.outgoing s, edge.target < a.declared := fun s edge hedge =>
      (h.ends edge (mem_edges_of_outgoing hedge)).2
    exact ⟨h.initial, fun s _ edge hedge _ => ⟨htarget s edge hedge, fun _ => htarget s edge hedge⟩,
      fun s _ edge hedge _ _ => ⟨htarget s edge hedge, htarget s edge hedge⟩,
      fun s _ edge hedge _ _ _ => htarget s edge hedge⟩
  exact hclosed.within.1 s hs

theorem noFeed_of_keep? (hfeed : ∀ edge ∈ a.edges.toList, '\n' ∉ edge.label.toList)
    {kept : KeptLabel} (hedge : edge ∈ a.outgoing s)
    (hkeep : (names.classify edge.label).keep? edge.label = some kept) :
    '\n' ∉ kept.text.toList := by
  intro hmem
  rcases List.mem_append.1 (text_subset_of_keep? hkeep hmem) with hmem | hmem
  · revert hmem
    decide
  · exact hfeed edge (mem_edges_of_outgoing hedge) hmem

theorem progress_writable (hfeed : ∀ edge ∈ a.edges.toList, '\n' ∉ edge.label.toList)
    (hstates : (a.swept names).visited.size < stateBound) (hcount : a.edges.size < countBound) :
    (a.progressChain names).Writable := by
  refine ⟨rank_mem (finds_swept a names).start, fun transition hmem => ?_,
    fun transition hmem => ?_, hstates, ?_⟩
  · obtain ⟨s, hs, edge, hedge, label, htarget, -, rfl⟩ := mem_progressChain hmem
    exact ⟨rank_mem hs, rank_mem htarget⟩
  · obtain ⟨s, hs, edge, hedge, label, -, hlabel, rfl⟩ := mem_progressChain hmem
    exact noFeed_of_keep? hfeed hedge hlabel
  · refine Nat.lt_of_le_of_lt ?_ hcount
    rw [progressChain, List.length_map, edges_maximalProgress]
    exact length_flatMap_le (nodup_toList _) fun s => List.length_filterMap_le _ _

theorem FromFile.progress_writable (h : a.FromFile) : (a.progressChain names).Writable ∧
    (a.progressChain names).stateCount ≤ a.declared := by
  have hsize : (a.swept names).visited.size ≤ a.declared := size_le_of_below fun s => h.visited_lt
  exact ⟨Automaton.progress_writable h.noFeed (Nat.lt_of_le_of_lt hsize h.states) h.count, hsize⟩

theorem Prepares.transition_of_delay {p : Prepared} (hp : a.Prepares names p) (identical : Bool)
    {transition : Transition} (hmem : transition ∈ (p.chain a.initial identical).transitions) :
    ∃ s ∈ (p.merge identical).live, a.Live names s ∧ ∃ edge ∈ a.delays names s,
      transition = ⟨rank (p.merge identical).live s, delayLabel edge.label,
        rank (p.merge identical).live (p.target identical edge.target)⟩ := by
  obtain ⟨kept, hkept, rfl⟩ := List.mem_map.1 hmem
  obtain ⟨hfound, hsource⟩ := List.mem_filter.1 hkept
  obtain ⟨s, hs, edge, hedge, rfl⟩ := (hp.explored.mem_edges kept).1 hfound
  obtain rfl := source_of_mem_outgoing (List.mem_filter.1 hedge).1
  exact ⟨edge.source, of_decide_eq_true hsource, hs, edge, hedge, rfl⟩

theorem Prepares.writable {p : Prepared} (hp : a.Prepares names p) (identical : Bool)
    (hfeed : ∀ edge ∈ a.edges.toList, '\n' ∉ edge.label.toList)
    (hstates : (p.merge identical).live.size < stateBound) (hcount : a.edges.size < countBound) :
    (p.chain a.initial identical).Writable := by
  refine ⟨rank_mem (hp.target_mem identical .initial), fun transition hmem => ?_,
    fun transition hmem => ?_, hstates, ?_⟩
  · obtain ⟨s, hlive, hs, edge, hedge, rfl⟩ := hp.transition_of_delay identical hmem
    exact ⟨rank_mem hlive, rank_mem (hp.target_mem identical (hs.reached_target hedge))⟩
  · obtain ⟨s, -, hs, edge, hedge, rfl⟩ := hp.transition_of_delay identical hmem
    obtain ⟨hout, hdelay⟩ := List.mem_filter.1 hedge
    exact noFeed_of_keep? hfeed hout (keep?_of_isDelay hdelay)
  · refine Nat.lt_of_le_of_lt ?_ hcount
    rw [Prepared.chain, List.length_map]
    refine Nat.le_trans (List.length_filter_le _ _) ?_
    rw [hp.explored.edges]
    refine length_flatMap_le (nodup_breadthFirst _ _) fun s => ?_
    split
    · rw [List.length_map]
      exact List.length_filter_le _ _
    · exact Nat.zero_le _

theorem FromFile.reduce_writable (h : a.FromFile) {p : Prepared} (hp : a.Prepares names p)
    (identical : Bool) : (p.chain a.initial identical).Writable ∧
      (p.chain a.initial identical).stateCount ≤ a.declared := by
  have hsize : (p.merge identical).live.size ≤ a.declared :=
    Nat.le_trans (represents_merge p identical).size_le
      (size_le_of_below fun s hs => h.reached_lt (hp.explored.mem_live.1 hs).1)
  exact ⟨hp.writable identical h.noFeed (Nat.lt_of_le_of_lt hsize h.states) h.count, hsize⟩

end Automaton

namespace Aldebaran

theorem writable_of_readStored {bytes : ByteArray} {a : Automaton} {options : ReductionOptions}
    {r : Reduction} (h : readStored bytes = .ok a)
    (hr : a.reduce options = .ok r ∨ a.progress options = .ok r) :
    r.chain.Writable ∧ r.chain.stateCount ≤ a.stateCount := by
  obtain ⟨hfile, hcount⟩ := readStored_ok h
  rw [hcount]
  rcases hr with hr | hr
  · obtain ⟨p, hp, -, rfl⟩ := Automaton.reduce_ok hr
    exact hfile.reduce_writable hp options.merge
  · obtain ⟨found, hfound, hchain⟩ := a.progress_ok options
    rw [hfound] at hr
    cases hr
    rw [hchain]
    exact hfile.progress_writable

/-- A chain in range is written to every unbounded stream, and what was written reads back as the
    chain with its numbers lowered by one. All chains of automata that were read are in range. -/
theorem write_read :
    (∀ (chain : Chain) (start : Stream), chain.Writable → start.capacity = none →
      ∃ after text, write chain start = .ok (after, chain.transitions.length) ∧
        start.Written text after ∧ ∃ a, readStored text.toUTF8 = .ok a ∧
          a.initial = chain.initial - 1 ∧ a.stateCount = chain.stateCount ∧
          a.edges.toList = chain.transitions.map fileEdge) ∧
    ∀ (bytes : ByteArray) (a : Automaton) (options : ReductionOptions) (r : Reduction),
      readStored bytes = .ok a → a.reduce options = .ok r ∨ a.progress options = .ok r →
        r.chain.Writable ∧ r.chain.stateCount ≤ a.stateCount := by
  refine ⟨fun chain start h hstart => ?_, fun bytes a options r => writable_of_readStored⟩
  obtain ⟨after, hwrite, hwritten⟩ := write_ok h hstart
  obtain ⟨a, hread, -, hinitial, hcount, hedges⟩ := readStored_fileLines h
  exact ⟨after, _, hwrite, hwritten, a, hread, hinitial, hcount, hedges⟩

/-- Two states and an action whose name looks like the rest of a line. -/
def marked : Chain := ⟨1, 2, [⟨1, .action " \"a\\, 1)\r", 2⟩], [.operational, .operational]⟩

theorem marked_writable : marked.Writable := by
  have honly : ∀ transition ∈ marked.transitions,
      transition = ⟨1, .action " \"a\\, 1)\r", 2⟩ := fun _ => List.mem_singleton.1
  refine ⟨⟨by decide, by decide⟩, fun transition hmem => ?_, fun transition hmem => ?_, by decide,
    by decide⟩
  · obtain rfl := honly transition hmem
    exact ⟨⟨by decide, by decide⟩, by decide, by decide⟩
  · obtain rfl := honly transition hmem
    decide

theorem marked_write_read : marked.Writable ∧ Stream.empty.capacity = none ∧
    ∃ after text a r, write marked Stream.empty = .ok (after, 1) ∧
      Stream.empty.Written text after ∧ readStored text.toUTF8 = .ok a ∧ a.initial = 0 ∧
      a.stateCount = 2 ∧ a.edges.toList = [⟨0, " \"a\\, 1)\r", 1⟩] ∧
      a.progress {} = .ok r ∧ r.chain.Writable ∧ r.chain.stateCount ≤ 2 := by
  obtain ⟨after, text, hwrite, hwritten, a, hread, hinitial, hcount, hedges⟩ :=
    write_read.1 marked Stream.empty marked_writable rfl
  obtain ⟨r, hr, -⟩ := a.progress_ok {}
  obtain ⟨hwritable, hle⟩ := write_read.2 _ a {} r hread (.inr hr)
  exact ⟨marked_writable, rfl, after, text, a, r, hwrite, hwritten, hread, hinitial, hcount, hedges,
    hr, hwritable, Nat.le_trans hle (Nat.le_of_eq hcount)⟩

end Aldebaran

end InteractiveMarkov
