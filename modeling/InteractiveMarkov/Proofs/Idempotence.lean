import InteractiveMarkov.Proofs.Transparency

set_option autoImplicit false

namespace InteractiveMarkov

namespace Automaton

variable {names : Vocabulary} {a b : Automaton} {s t : StateId} {edge : Edge} {n : Nat}

abbrev place (a : Automaton) (names : Vocabulary) (s : StateId) : Nat :=
  rank (a.swept names).visited s - 1

theorem place_inj (hs : s ∈ (a.swept names).visited) (ht : t ∈ (a.swept names).visited) :
    a.place names s = a.place names t ↔ s = t := by
  have hlow := (rank_mem hs).1
  have hlow' := (rank_mem ht).1
  rw [← rank_inj hs ht]
  unfold place
  omega

/-- What is followed from a visited state leads to a visited state, and to a timed one if it enters
    that state at the end of a timed delay. -/
theorem followed_found (hs : s ∈ (a.swept names).visited) (hedge : edge ∈ a.outgoing s)
    (hkept : (Step.ofEdge names edge).isPreempted (a.urgentEdge? names s).isSome
      ((a.swept names).timed.contains s) = false) :
    edge.target ∈ (a.swept names).visited ∧
      ((Step.ofEdge names edge).entersTimed ((a.swept names).timed.contains s) = true →
        edge.target ∈ (a.swept names).timed) :=
  (finds_swept a names).closed s hs _ (mem_entries.2 ⟨edge, hedge, hkept, rfl⟩)

section Written

variable (h : WrittenFrom names a b)

include h

theorem WrittenFrom.mem_outgoing (hs : s ∈ (a.swept names).visited) {written : Edge} :
    written ∈ b.outgoing (a.place names s) ↔ ∃ edge ∈ a.outgoing s, ∃ label,
      (Step.ofEdge names edge).isPreempted (a.urgentEdge? names s).isSome
        ((a.swept names).timed.contains s) = false ∧
      (names.classify edge.label).keep? edge.label = some label ∧
      written = ⟨a.place names s, label.text, a.place names edge.target⟩ := by
  rw [h.outgoing_eq hs, List.mem_map]
  constructor
  · rintro ⟨kept, hkept, rfl⟩
    obtain ⟨edge, hedge, hsome⟩ := List.mem_filterMap.1 hkept
    obtain ⟨hfollowed, label, hlabel, rfl⟩ := remnant?_some hedge hsome
    exact ⟨edge, hedge, label, hfollowed, hlabel, rfl⟩
  · rintro ⟨edge, hedge, label, hfollowed, hlabel, rfl⟩
    refine ⟨⟨s, label, edge.target⟩, List.mem_filterMap.2 ⟨edge, hedge, ?_⟩, rfl⟩
    rw [remnant?_eq hedge, if_neg (by simp [hfollowed])]
    exact congrArg (Option.map _) hlabel

theorem WrittenFrom.closedPair_image (hinitial : b.initial = a.place names a.initial) :
    b.ClosedPair names {n | ∃ s ∈ (a.swept names).visited, a.place names s = n}
      {n | ∃ s ∈ (a.swept names).timed, a.place names s = n} := by
  have hfinds := finds_swept a names
  refine ⟨⟨a.initial, hfinds.start, hinitial.symm⟩, ?_, ?_, ?_⟩
  · rintro _ ⟨s, hs, rfl⟩ written hwritten himm
    obtain ⟨edge, hedge, label, hfollowed, hlabel, rfl⟩ := (h.mem_outgoing hs).1 hwritten
    obtain ⟨hvisited, htimed⟩ := followed_found hs hedge hfollowed
    refine ⟨⟨_, hvisited, rfl⟩, ?_⟩
    rintro ⟨t, ht, heq⟩
    obtain rfl := (place_inj (hfinds.timed t ht) hs).1 heq
    have himm' : (names.classify edge.label).isImmediate = true := by
      rwa [(classify_text hlabel).1] at himm
    refine ⟨_, htimed ?_, rfl⟩
    rw [(follows_of_isImmediate (Step.ofEdge names edge) himm' true).2]
    exact Std.ExtTreeSet.contains_iff_mem.2 ht
  · rintro _ ⟨s, hs, rfl⟩ written hwritten hkind -
    obtain ⟨edge, hedge, label, hfollowed, hlabel, rfl⟩ := (h.mem_outgoing hs).1 hwritten
    obtain ⟨hvisited, htimed⟩ := followed_found hs hedge hfollowed
    rw [(classify_text hlabel).1] at hkind
    refine ⟨⟨_, hvisited, rfl⟩, _, htimed ?_, rfl⟩
    simp only [Step.entersTimed, kind_ofEdge, hkind]
  · rintro _ ⟨s, hs, rfl⟩ written hwritten expr - -
    obtain ⟨edge, hedge, label, hfollowed, hlabel, rfl⟩ := (h.mem_outgoing hs).1 hwritten
    exact ⟨_, (followed_found hs hedge hfollowed).1, rfl⟩

section Loud

variable (hsilent : ∀ s ∈ (a.swept names).visited, ∀ edge ∈ a.outgoing s,
  names.classify edge.label ≠ .silent)

include hsilent

theorem WrittenFrom.exists_written (hs : s ∈ (a.swept names).visited) (hedge : edge ∈ a.outgoing s)
    (hfollowed : (Step.ofEdge names edge).isPreempted (a.urgentEdge? names s).isSome
      ((a.swept names).timed.contains s) = false) :
    ∃ written ∈ b.outgoing (a.place names s), written.target = a.place names edge.target ∧
      names.classify written.label = names.classify edge.label := by
  obtain ⟨label, hlabel⟩ : ∃ label, (names.classify edge.label).keep? edge.label = some label := by
    have hloud := hsilent s hs edge hedge
    cases hkind : names.classify edge.label with
    | silent => exact absurd hkind hloud
    | _ => exact ⟨_, rfl⟩
  exact ⟨_, (h.mem_outgoing hs).2 ⟨edge, hedge, label, hfollowed, hlabel, rfl⟩, rfl,
    (classify_text hlabel).1⟩

theorem WrittenFrom.stable_iff (hs : s ∈ (a.swept names).visited) :
    b.Stable names (a.place names s) ↔ a.Stable names s := by
  constructor
  · rintro hstable t ⟨edge, hedge, himm, rfl⟩
    obtain ⟨written, hwritten, -, hclass⟩ := h.exists_written hsilent hs hedge
      (follows_of_isImmediate (Step.ofEdge names edge) himm _).1
    exact hstable written.target ⟨written, hwritten, by rwa [hclass], rfl⟩
  · rintro hstable n ⟨written, hwritten, himm, rfl⟩
    obtain ⟨edge, hedge, label, -, hlabel, rfl⟩ := (h.mem_outgoing hs).1 hwritten
    exact hstable edge.target ⟨edge, hedge, by rwa [← (classify_text hlabel).1], rfl⟩

theorem WrittenFrom.closedPair_preimage (hinitial : b.initial = a.place names a.initial) :
    a.ClosedPair names
      {s | s ∈ (a.swept names).visited ∧ a.place names s ∈ (b.swept names).visited}
      {s | s ∈ (a.swept names).timed ∧ a.place names s ∈ (b.swept names).timed} := by
  have hfound := closedPair_swept a names
  have hwritten := closedPair_swept b names
  -- an edge that is followed was written, so what is found along it is found in both automata
  refine ⟨⟨hfound.initial, hinitial ▸ hwritten.initial⟩, ?_, ?_, ?_⟩
  · rintro s ⟨hs, hs'⟩ edge hedge himm
    obtain ⟨written, hmem, htarget, hclass⟩ := h.exists_written hsilent hs hedge
      (follows_of_isImmediate (Step.ofEdge names edge) himm _).1
    obtain ⟨hvisited, htimed⟩ := hfound.immediate s hs edge hedge himm
    obtain ⟨hvisited', htimed'⟩ := hwritten.immediate _ hs' written hmem (by rwa [hclass])
    rw [htarget] at hvisited' htimed'
    exact ⟨⟨hvisited, hvisited'⟩, fun ⟨ht, ht'⟩ => ⟨htimed ht, htimed' ht'⟩⟩
  · rintro s ⟨hs, hs'⟩ edge hedge hkind hcase
    have hcase' : s ∈ (a.swept names).timed ∨ a.Stable names s := hcase.imp_left And.left
    have hfollowed : (Step.ofEdge names edge).isPreempted (a.urgentEdge? names s).isSome
        ((a.swept names).timed.contains s) = false := by
      simp only [Step.isPreempted, kind_ofEdge, hkind, Bool.and_eq_false_iff, Bool.not_eq_false']
      exact hcase'.symm.imp stable_iff_isSome.1 Std.ExtTreeSet.contains_iff_mem.2
    obtain ⟨written, hmem, htarget, hclass⟩ := h.exists_written hsilent hs hedge hfollowed
    obtain ⟨hvisited, htimed⟩ := hfound.timed s hs edge hedge hkind hcase'
    obtain ⟨hvisited', htimed'⟩ := hwritten.timed _ hs' written hmem (by rwa [hclass])
      (hcase.imp And.right (h.stable_iff hsilent hs).2)
    rw [htarget] at hvisited' htimed'
    exact ⟨⟨hvisited, hvisited'⟩, htimed, htimed'⟩
  · rintro s ⟨hs, hs'⟩ edge hedge expr hkind hstable
    have hfollowed : (Step.ofEdge names edge).isPreempted (a.urgentEdge? names s).isSome
        ((a.swept names).timed.contains s) = false := by
      simp only [Step.isPreempted, kind_ofEdge, hkind]
      exact stable_iff_isSome.1 hstable
    obtain ⟨written, hmem, htarget, hclass⟩ := h.exists_written hsilent hs hedge hfollowed
    have hvisited' := hwritten.rate _ hs' written hmem expr (by rwa [hclass])
      ((h.stable_iff hsilent hs).2 hstable)
    rw [htarget] at hvisited'
    exact ⟨hfound.rate s hs edge hedge expr hkind hstable, hvisited'⟩

section Least

variable (hinitial : b.initial = a.place names a.initial)

include hinitial

theorem WrittenFrom.mem_visited : n ∈ (b.swept names).visited ↔
    ∃ s ∈ (a.swept names).visited, a.place names s = n := by
  refine ⟨(h.closedPair_image hinitial).within.1 n, ?_⟩
  rintro ⟨s, hs, rfl⟩
  exact ((h.closedPair_preimage hsilent hinitial).within.1 s hs).2

theorem WrittenFrom.mem_timed : n ∈ (b.swept names).timed ↔
    ∃ s ∈ (a.swept names).timed, a.place names s = n := by
  refine ⟨(h.closedPair_image hinitial).within.2 n, ?_⟩
  rintro ⟨s, hs, rfl⟩
  exact ((h.closedPair_preimage hsilent hinitial).within.2 s hs).2

theorem WrittenFrom.mem_visited_lt : n ∈ (b.swept names).visited ↔
    n < (a.swept names).visited.size := by
  rw [h.mem_visited hsilent hinitial]
  constructor
  · rintro ⟨s, hs, rfl⟩
    have hrank := rank_mem hs
    unfold place
    omega
  · intro hn
    obtain ⟨s, hs, hrank⟩ := exists_rank (Nat.succ_pos n) (Nat.succ_le_of_lt hn)
    exact ⟨s, hs, by unfold place; omega⟩

theorem WrittenFrom.toList_visited :
    (b.swept names).visited.toList = (a.swept names).visited.toList.map (a.place names) := by
  rw [toList_eq_range fun k => h.mem_visited_lt hsilent hinitial, ← map_rank_toList]

theorem WrittenFrom.rank_place (hs : s ∈ (a.swept names).visited) :
    rank (b.swept names).visited (a.place names s) = rank (a.swept names).visited s := by
  have hrank := rank_mem hs
  rw [rank_eq_succ (fun k => h.mem_visited_lt hsilent hinitial) (by unfold place; omega)]
  unfold place
  omega

theorem WrittenFrom.timed_place (hs : s ∈ (a.swept names).visited) :
    (b.swept names).timed.contains (a.place names s) = (a.swept names).timed.contains s := by
  rw [Bool.eq_iff_iff, Std.ExtTreeSet.contains_iff_mem, Std.ExtTreeSet.contains_iff_mem,
    h.mem_timed hsilent hinitial]
  constructor
  · rintro ⟨t, ht, heq⟩
    rwa [← (place_inj ((finds_swept a names).timed t ht) hs).1 heq]
  · exact fun ht => ⟨s, ht, rfl⟩

theorem WrittenFrom.remnant?_place (hs : s ∈ (a.swept names).visited) {kept : KeptEdge}
    (hkept : kept ∈ (a.outgoing s).filterMap
      (a.remnant? names ((a.swept names).timed.contains s))) :
    b.remnant? names ((b.swept names).timed.contains (a.place names s))
      ⟨a.place names s, kept.label.text, a.place names kept.target⟩ =
        some ⟨a.place names s, kept.label, a.place names kept.target⟩ := by
  obtain ⟨edge, hedge, hsome⟩ := List.mem_filterMap.1 hkept
  obtain ⟨hfollowed, label, hlabel, rfl⟩ := remnant?_some hedge hsome
  have hwritten : ⟨a.place names s, label.text, a.place names edge.target⟩ ∈
      b.outgoing (a.place names s) :=
    (h.mem_outgoing hs).2 ⟨edge, hedge, label, hfollowed, hlabel, rfl⟩
  have hurgent : (b.urgentEdge? names (a.place names s)).isSome =
      (a.urgentEdge? names s).isSome := by
    have hstable := h.stable_iff hsilent hs
    rw [stable_iff_isSome, stable_iff_isSome] at hstable
    rw [Bool.eq_iff_iff, ← Bool.not_eq_false, ← Bool.not_eq_false, hstable]
  rw [remnant?_eq hwritten, h.timed_place hsilent hinitial hs, hurgent, if_neg]
  · exact congrArg (Option.map _) (keep?_text hlabel)
  · simp only [Step.isPreempted, kind_ofEdge, (classify_text hlabel).1] at hfollowed ⊢
    exact Bool.eq_false_iff.1 hfollowed

theorem WrittenFrom.edges_maximalProgress : (b.maximalProgress names).edges =
    (a.maximalProgress names).edges.map fun kept =>
      ⟨a.place names kept.source, kept.label, a.place names kept.target⟩ := by
  rw [Automaton.edges_maximalProgress, Automaton.edges_maximalProgress,
    h.toList_visited hsilent hinitial, List.flatMap_map, List.map_flatMap]
  refine List.flatMap_congr fun s hs => ?_
  rw [Std.ExtTreeSet.mem_toList] at hs
  rw [h.outgoing_eq hs, List.filterMap_map, ← List.filterMap_eq_map]
  refine List.filterMap_congr fun kept hkept => (h.remnant?_place hsilent hinitial hs hkept).trans ?_
  obtain ⟨edge, hedge, hsome⟩ := List.mem_filterMap.1 hkept
  obtain ⟨-, label, -, rfl⟩ := remnant?_some hedge hsome
  rfl

theorem WrittenFrom.preempted_maximalProgress : (b.maximalProgress names).preempted = 0 := by
  rw [Automaton.preempted_maximalProgress, List.length_eq_zero_iff, List.flatMap_eq_nil_iff]
  intro n hn
  rw [Std.ExtTreeSet.mem_toList, h.mem_visited hsilent hinitial] at hn
  obtain ⟨s, hs, rfl⟩ := hn
  rw [List.filter_eq_nil_iff]
  intro written hwritten
  have hout := (List.mem_filter.1 hwritten).1
  rw [h.outgoing_eq hs] at hout
  obtain ⟨kept, hkept, rfl⟩ := List.mem_map.1 hout
  simp [h.remnant?_place hsilent hinitial hs hkept]

theorem WrittenFrom.progressChain_eq : b.progressChain names = a.progressChain names := by
  have hsize : (b.swept names).visited.size = (a.swept names).visited.size := by
    rw [← Std.ExtTreeSet.length_toList, h.toList_visited hsilent hinitial, List.length_map,
      Std.ExtTreeSet.length_toList]
  have htransitions : (b.progressChain names).transitions = (a.progressChain names).transitions := by
    simp only [progressChain, h.edges_maximalProgress hsilent hinitial, List.map_map]
    refine List.map_congr_left fun kept hkept => ?_
    obtain ⟨s, hs, edge, hedge, hsome⟩ := mem_edges_maximalProgress.1 hkept
    have htarget := target_visited hs hedge hsome
    obtain ⟨-, label, -, rfl⟩ := remnant?_some hedge hsome
    simp only [Function.comp_apply, rankedEdge, id, h.rank_place hsilent hinitial hs,
      h.rank_place hsilent hinitial htarget]
  have hstatuses : (b.progressChain names).statuses = (a.progressChain names).statuses := by
    simp only [progressChain, h.toList_visited hsilent hinitial, List.map_map]
    exact List.map_congr_left fun s _ => by simp [StatusTable.resolved]
  simp only [progressChain] at htransitions hstatuses ⊢
  rw [hsize, htransitions, hstatuses, hinitial,
    h.rank_place hsilent hinitial (finds_swept a names).start]

end Least

end Loud

end Written

/-- Applying maximal progress to its own result, after that was written to a file and read back,
    gives the same chain, preempts nothing and marks the same states as timed, up to their numbers.
    Silent edges are followed but not written, so none may leave a visited state; the counts and
    labels have to fit into the file. -/
theorem progress_idempotent (a : Automaton) (options : ReductionOptions)
    (hsilent : ∀ s ∈ (a.maximalProgress options.names).visited, ∀ edge ∈ a.outgoing s,
      options.names.classify edge.label ≠ .silent)
    (hfeed : ∀ edge ∈ a.edges.toList, '\n' ∉ edge.label.toList)
    (hstates : (a.maximalProgress options.names).visited.size < stateBound)
    (hcount : a.edges.size < countBound) :
    ∃ r after b q, a.progress options = .ok r ∧
      Aldebaran.write r.chain Stream.empty = .ok (after, r.chain.transitions.length) ∧
      Aldebaran.readStored after.bytes = .ok b ∧ b.progress options = .ok q ∧
      q.chain = r.chain ∧ q.statistics.preempted = 0 ∧
      ∀ n, n ∈ (b.maximalProgress options.names).timed ↔
        ∃ s ∈ (a.maximalProgress options.names).timed,
          rank (a.maximalProgress options.names).visited s - 1 = n := by
  have hwritable : (a.progressChain options.names).Writable :=
    progress_writable hfeed hstates hcount
  obtain ⟨after, b, hwrite, hread, hinitial, hedges⟩ := Aldebaran.exists_stored hwritable
  have h : WrittenFrom options.names a b := hedges
  exact ⟨_, after, b, _, a.progress_eq options, hwrite, hread, b.progress_eq options,
    h.progressChain_eq hsilent hinitial, h.preempted_maximalProgress hsilent hinitial,
    fun n => h.mem_timed hsilent hinitial⟩

/-- State 9 is entered at the end of a timed delay. So its timed delay stays, but not its rate. -/
def valve : Automaton := .ofEdges 4
  [⟨4, "time 1", 9⟩, ⟨9, "FAIL", 6⟩, ⟨9, "time 2", 4⟩, ⟨9, "rate 7", 2⟩, ⟨6, "rate 3", 4⟩]

def valveChain : Chain :=
  ⟨1, 3, [⟨1, .timed "time 1", 3⟩, ⟨2, .rate "3", 1⟩, ⟨3, .action "FAIL", 2⟩,
    ⟨3, .timed "time 2", 1⟩], [.operational, .operational, .operational]⟩

theorem valve_idempotent : ∃ r after b q, valve.progress ⟨relayNames, false⟩ = .ok r ∧
    r.chain = valveChain ∧ r.statistics.preempted = 1 ∧
    Aldebaran.write r.chain Stream.empty = .ok (after, r.chain.transitions.length) ∧
    Aldebaran.readStored after.bytes = .ok b ∧ b.progress ⟨relayNames, false⟩ = .ok q ∧
    q.chain = valveChain ∧ q.statistics.preempted = 0 ∧
    ∀ n ∈ [0, 1, 2], n ∈ (b.maximalProgress relayNames).timed := by
  have hloud : ∀ edge ∈ valve.edges.toList, relayNames.classify edge.label ≠ .silent := by
    decide +kernel
  have hfeed : ∀ edge ∈ valve.edges.toList, '\n' ∉ edge.label.toList := by decide +kernel
  have hsize : (valve.maximalProgress relayNames).visited.size = 3 := by decide +kernel
  have hrun : (valve.progress ⟨relayNames, false⟩).toOption.map
      (fun r => (r.chain, r.statistics.preempted)) = some (valveChain, 1) := by
    decide +kernel
  have htimed : (valve.maximalProgress relayNames).timed.toList.map
      (rank (valve.maximalProgress relayNames).visited · - 1) = [0, 1, 2] := by
    decide +kernel
  obtain ⟨r, after, b, q, hr, hwrite, hread, hq, hsame, hnone, hplaces⟩ := progress_idempotent valve
    ⟨relayNames, false⟩ (fun s _ edge hedge => hloud edge (mem_edges_of_outgoing hedge)) hfeed
    (by rw [hsize]; decide) (by decide +kernel)
  rw [hr] at hrun
  obtain ⟨hchain, hpreempted⟩ := Prod.mk.inj (Option.some.inj hrun)
  refine ⟨r, after, b, q, hr, hchain, hpreempted, hwrite, hread, hq, hsame.trans hchain, hnone, ?_⟩
  intro n hn
  rw [← htimed] at hn
  obtain ⟨s, hs, hplace⟩ := List.mem_map.1 hn
  exact (hplaces n).2 ⟨s, Std.ExtTreeSet.mem_toList.1 hs, hplace⟩

end Automaton

end InteractiveMarkov
