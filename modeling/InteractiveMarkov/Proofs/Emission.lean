import InteractiveMarkov.Proofs.Numbering

set_option autoImplicit false

namespace InteractiveMarkov

variable {initial : StateId} {live : StateSet} {edges : List KeptEdge}
  {resolve : StateId → StateId} {statuses : StatusTable} {edge : KeptEdge}

/-- The edge leaves a remaining state and ends in one that does not remain. -/
def KeptEdge.LeadsOut (edge : KeptEdge) (live : StateSet) (resolve : StateId → StateId) : Prop :=
  edge.source ∈ live ∧ resolve edge.target ∉ live

instance decidableLeadsOut (edge : KeptEdge) (live : StateSet) (resolve : StateId → StateId) :
    Decidable (edge.LeadsOut live resolve) :=
  inferInstanceAs (Decidable (_ ∧ _))

/-- The error of the first end that does not remain; the initial state is asked before the edges. -/
inductive Dangles (initial : StateId) (live : StateSet) (edges : List KeptEdge)
    (resolve : StateId → StateId) : Error → Prop
  | initial (h : resolve initial ∉ live) :
      Dangles initial live edges resolve (.dangling initial (resolve initial))
  | edge {before behind : List KeptEdge} {edge : KeptEdge} (h : resolve initial ∈ live)
      (hedges : edges = before ++ edge :: behind)
      (hbefore : ∀ other ∈ before, ¬ other.LeadsOut live resolve)
      (hedge : edge.LeadsOut live resolve) :
      Dangles initial live edges resolve (.dangling edge.source (resolve edge.target))

/-- The chain of the remaining states. The number of a state is one more than the count of the
    smaller ones, in every place that names it. -/
structure Chain.Emitted (chain : Chain) (initial : StateId) (live : StateSet)
    (edges : List KeptEdge) (resolve : StateId → StateId) (statuses : StatusTable) : Prop where
  numbers : Set.BijOn (numberAmong (· ∈ live)) {s | s ∈ live} (Set.Icc 1 chain.stateCount)
  ascending : StrictMonoOn (numberAmong (· ∈ live)) {s | s ∈ live}
  initial : chain.initial = numberAmong (· ∈ live) (resolve initial)
  stateCount : chain.stateCount = {s | s ∈ live}.ncard
  transitions : chain.transitions = (edges.filter fun edge => edge.source ∈ live).map fun edge =>
    ⟨numberAmong (· ∈ live) edge.source, edge.label, numberAmong (· ∈ live) (resolve edge.target)⟩
  status : ∀ s ∈ live, chain.status? (numberAmong (· ∈ live) s) = some (statuses.resolved s)
  outside : ∀ n ∉ Set.Icc 1 chain.stateCount, chain.status? n = none
  failed : ∀ n, n ∈ chain.failedStates ↔
    ∃ s ∈ live, statuses.resolved s = .failed ∧ numberAmong (· ∈ live) s = n
  failedAscending : chain.failedStates.Pairwise (· < ·)

theorem mapM_first {α β ε : Type} {f : α → Except ε β} {g : α → β} {before behind : List α}
    {x : α} {e : ε} (hbefore : ∀ y ∈ before, f y = .ok (g y)) (hx : f x = .error e) :
    (before ++ x :: behind).mapM f = .error e := by
  rw [List.mapM_append, mapM_ok hbefore, List.mapM_cons, hx]
  rfl

theorem renumber?_ok (h : ¬ edge.LeadsOut live resolve) :
    renumber? (numbering live) resolve edge =
      .ok (if edge.source ∈ live then some (rankedEdge live resolve edge) else none) := by
  rw [renumber?, getElem?_numbering]
  by_cases hsource : edge.source ∈ live
  · have htarget : resolve edge.target ∈ live := by
      by_contra hout
      exact h ⟨hsource, hout⟩
    rw [if_pos hsource, if_pos hsource]
    simp only [numberOf, getElem?_numbering, if_pos htarget]
    rfl
  · rw [if_neg hsource, if_neg hsource]

theorem renumber?_error (h : edge.LeadsOut live resolve) :
    renumber? (numbering live) resolve edge =
      .error (.dangling edge.source (resolve edge.target)) := by
  rw [renumber?, getElem?_numbering, if_pos h.1]
  simp only [numberOf, getElem?_numbering, if_neg h.2]
  rfl

theorem emit_error {e : Error} (h : Dangles initial live edges resolve e) :
    emit initial live edges resolve statuses = .error e := by
  cases h with
  | initial hout =>
    rw [emit, numberOf, getElem?_numbering, if_neg hout]
    rfl
  | @edge before behind edge hinitial hedges hbefore hedge =>
    have hmap : (before ++ edge :: behind).mapM (renumber? (numbering live) resolve) =
        .error (.dangling edge.source (resolve edge.target)) :=
      mapM_first (fun other hother => renumber?_ok (hbefore other hother)) (renumber?_error hedge)
    rw [emit, numberOf, getElem?_numbering, if_pos hinitial, hedges]
    simp only [hmap, bind, Except.bind]

theorem within_or_dangles (initial : StateId) (live : StateSet) (edges : List KeptEdge)
    (resolve : StateId → StateId) :
    (resolve initial ∈ live ∧
      ∀ edge ∈ edges, edge.source ∈ live → resolve edge.target ∈ live) ∨
    ∃ e, Dangles initial live edges resolve e := by
  by_cases hinitial : resolve initial ∈ live
  · cases hfind : edges.find? fun edge => decide (edge.LeadsOut live resolve) with
    | none =>
      refine .inl ⟨hinitial, fun edge hedge hsource => ?_⟩
      by_contra hout
      exact List.find?_eq_none.1 hfind edge hedge (decide_eq_true ⟨hsource, hout⟩)
    | some edge =>
      obtain ⟨hedge, before, behind, hedges, hbefore⟩ := List.find?_eq_some_iff_append.1 hfind
      refine .inr ⟨_, .edge hinitial hedges (fun other hother hout => ?_) (of_decide_eq_true hedge)⟩
      have hnot := hbefore other hother
      rw [decide_eq_true hout] at hnot
      cases hnot
  · exact .inr ⟨_, .initial hinitial⟩

theorem numberAmong_live (live : StateSet) : numberAmong (· ∈ live) = rank live :=
  (rank_eq_numberAmong fun _ => Iff.rfl).symm

theorem ncard_live (live : StateSet) : {s | s ∈ live}.ncard = live.size := by
  have hlength := ncard_eq_length (S := {s | s ∈ live}) (nodup_toList live)
    fun s => Std.ExtTreeSet.mem_toList.symm
  rw [hlength, Std.ExtTreeSet.length_toList]

theorem pairwise_failedStates (chain : Chain) : chain.failedStates.Pairwise (· < ·) :=
  List.Pairwise.filter _ List.pairwise_lt_range'

theorem Chain.emitted_of_parts {chain : Chain}
    (hinitial : chain.initial = rank live (resolve initial)) (hcount : chain.stateCount = live.size)
    (htransitions : chain.transitions =
      (edges.filter fun edge => edge.source ∈ live).map (rankedEdge live resolve))
    (hstatuses : chain.statuses = live.toList.map statuses.resolved) :
    chain.Emitted initial live edges resolve statuses where
  numbers := by
    rw [numberAmong_live, hcount]
    exact bijOn_rank live
  ascending := by
    rw [numberAmong_live]
    exact fun s hs t _ hlt => rank_lt_rank hs hlt
  initial := by rw [numberAmong_live, hinitial]
  stateCount := by rw [ncard_live, hcount]
  transitions := by
    rw [numberAmong_live, htransitions]
    rfl
  status s hs := by
    rw [numberAmong_live]
    exact status?_rank hstatuses hs
  outside n hn := by
    have hlength : chain.statuses.length = chain.stateCount := by
      rw [hstatuses, hcount, List.length_map, Std.ExtTreeSet.length_toList]
    exact Option.eq_none_iff_forall_ne_some.2 fun status hstatus =>
      hn (Chain.bounds_of_status? hlength hstatus)
  failed n := by
    rw [numberAmong_live, Chain.mem_failedStates, hcount]
    constructor
    · rintro ⟨⟨hlow, hhigh⟩, hfailed⟩
      obtain ⟨s, hs, rfl⟩ := exists_rank hlow hhigh
      rw [status?_rank hstatuses hs] at hfailed
      exact ⟨s, hs, Option.some.inj hfailed, rfl⟩
    · rintro ⟨s, hs, hfailed, rfl⟩
      exact ⟨rank_mem hs, (status?_rank hstatuses hs).trans (congrArg some hfailed)⟩
  failedAscending := pairwise_failedStates chain

/-- Numbering succeeds exactly if nothing leads out of the remaining states, blames the first thing
    that does, and otherwise numbers all of the chain by one order isomorphism. -/
theorem emit_exact (initial : StateId) (live : StateSet) (edges : List KeptEdge)
    (resolve : StateId → StateId) (statuses : StatusTable) :
    ((∃ chain, emit initial live edges resolve statuses = .ok chain) ↔
      resolve initial ∈ live ∧
        ∀ edge ∈ edges, edge.source ∈ live → resolve edge.target ∈ live) ∧
    (∀ e, emit initial live edges resolve statuses = .error e ↔
      Dangles initial live edges resolve e) ∧
    ∀ chain, emit initial live edges resolve statuses = .ok chain →
      chain.Emitted initial live edges resolve statuses := by
  rcases within_or_dangles initial live edges resolve with ⟨hinitial, hedges⟩ | ⟨e, he⟩
  · have hemit := emit_eq statuses hinitial hedges
    refine ⟨⟨fun _ => ⟨hinitial, hedges⟩, fun _ => ⟨_, hemit⟩⟩, fun e => ⟨fun h => ?_, fun h => ?_⟩,
      fun chain h => ?_⟩
    · cases h.symm.trans hemit
    · exact emit_error h
    · cases h.symm.trans hemit
      exact Chain.emitted_of_parts rfl rfl rfl rfl
  · have hemit : emit initial live edges resolve statuses = .error e := emit_error he
    refine ⟨⟨fun ⟨chain, h⟩ => ?_, fun h => ?_⟩, fun e' => ⟨fun h => ?_, emit_error⟩, fun chain h => ?_⟩
    · cases h.symm.trans hemit
    · cases (emit_eq statuses h.1 h.2).symm.trans hemit
    · cases h.symm.trans hemit
      exact he
    · cases h.symm.trans hemit

/-- Three states remain, one of them failed; state 5 stands for state 10. -/
def remnants : StateSet := .ofList [10, 3, 7]

def leftEdges : List KeptEdge := [⟨10, .rate "1", 3⟩, ⟨4, .rate "9", 8⟩, ⟨3, .timed "time 2", 5⟩]

theorem remnants_emitted : ∃ chain,
    emit 5 remnants leftEdges (fun s => if s = 5 then 10 else s)
      ((∅ : StatusTable).insert 7 .failed) = .ok chain ∧
    chain.Emitted 5 remnants leftEdges (fun s => if s = 5 then 10 else s)
      ((∅ : StatusTable).insert 7 .failed) ∧
    chain.transitions = [⟨3, .rate "1", 1⟩, ⟨1, .timed "time 2", 3⟩] ∧ chain.failedStates = [2] := by
  have hread : (emit 5 remnants leftEdges (fun s => if s = 5 then 10 else s)
      ((∅ : StatusTable).insert 7 .failed)).toOption.map
        (fun chain => (chain.transitions, chain.failedStates)) =
      some ([⟨3, .rate "1", 1⟩, ⟨1, .timed "time 2", 3⟩], [2]) := by
    decide +kernel
  obtain ⟨chain, hchain, hparts⟩ := exists_ok_of_map hread
  obtain ⟨htransitions, hfailed⟩ := Prod.mk.inj hparts
  exact ⟨chain, hchain, (emit_exact 5 remnants leftEdges _ _).2.2 chain hchain, htransitions, hfailed⟩

end InteractiveMarkov
