import InteractiveMarkov.Reduction
import InteractiveMarkov.Proofs.Exploration
import InteractiveMarkov.Proofs.Merging
import InteractiveMarkov.Proofs.Redirect

set_option autoImplicit false

namespace InteractiveMarkov

namespace Automaton

variable {a : Automaton} {names : Vocabulary} {x : Exploration} {s t c : StateId} {z : Status}

theorem Explored.redirect_of_urgent (h : a.Explored names x) (hs : a.Reached names s)
    {edge : Edge} (hedge : a.urgentEdge? names s = some edge) :
    x.redirects[s]? = some ⟨edge.target, edge.label⟩ :=
  (h.redirects s _).2 ⟨hs, edge, hedge, rfl⟩

theorem Explored.redirect_none (h : a.Explored names x)
    (hs : a.Reached names s → a.urgentEdge? names s = none) : x.redirects[s]? = none := by
  refine Option.eq_none_iff_forall_ne_some.2 fun redirect hsome => ?_
  obtain ⟨hreached, edge, hedge, -⟩ := (h.redirects s redirect).1 hsome
  rw [hs hreached] at hedge
  cases hedge

theorem Explored.ends_iff (h : a.Explored names x) (hs : a.Reached names s) :
    x.redirects.Ends s c ↔ a.Settles names s c := by
  constructor
  · intro hends
    induction hends with
    | @stop s hnone =>
      cases hedge : a.urgentEdge? names s with
      | none => exact .stable hedge
      | some edge =>
        rw [h.redirect_of_urgent hs hedge] at hnone
        cases hnone
    | @step s c redirect hsome _ ih =>
      obtain ⟨-, edge, hedge, rfl⟩ := (h.redirects s redirect).1 hsome
      exact .follow hedge (ih (hs.urgent hedge))
  · intro hsettles
    induction hsettles with
    | stable hnone => exact .stop (h.redirect_none fun _ => hnone)
    | follow hedge _ ih => exact .step (h.redirect_of_urgent hs hedge) (ih (hs.urgent hedge))

theorem Explored.all_end_iff (h : a.Explored names x) :
    (∀ s, ∃ c, x.redirects.Ends s c) ↔ ∀ s, a.Reached names s → ∃ c, a.Settles names s c := by
  constructor
  · intro hall s hs
    obtain ⟨c, hc⟩ := hall s
    exact ⟨c, (h.ends_iff hs).1 hc⟩
  · intro hall s
    by_cases hs : a.Reached names s
    · obtain ⟨c, hc⟩ := hall s hs
      exact ⟨c, (h.ends_iff hs).2 hc⟩
    · exact ⟨s, .stop (h.redirect_none fun hreached => absurd hreached hs)⟩

theorem Explored.basin_iff (h : a.Explored names x) :
    x.redirects.Basin x.statuses c z ↔ a.Marked names z c := by
  unfold RedirectMap.Basin Marked
  constructor
  · rintro ⟨s, hends, hz⟩
    have hentered := (h.statuses s z).1 hz
    exact ⟨s, hentered, (h.ends_iff (hentered.reached h.uniform)).1 hends⟩
  · rintro ⟨s, hentered, hsettles⟩
    exact ⟨s, (h.ends_iff (hentered.reached h.uniform)).2 hsettles, (h.statuses s z).2 hentered⟩

structure Collapsed (a : Automaton) (names : Vocabulary) (resolve : StateId → StateId)
    (table : StatusTable) : Prop where
  settles : ∀ s, a.Reached names s → a.Settles names s (resolve s)
  statuses : ∀ (s : StateId) (z : Status),
    table[s]? = some z ↔ a.Entered names z s ∨ a.Marked names z s

variable {resolve : StateId → StateId} {table after : StatusTable}

theorem Collapsed.resolve_eq (h : a.Collapsed names resolve table) (hs : a.Reached names s) :
    resolve s = c ↔ a.Settles names s c := by
  constructor
  · rintro rfl
    exact h.settles s hs
  · exact settles_unique (h.settles s hs)

theorem Collapsed.live_resolve (h : a.Collapsed names resolve table) (hs : a.Reached names s) :
    a.Live names (resolve s) :=
  hs.live (h.settles s hs)

theorem Collapsed.status_of_live (h : a.Collapsed names resolve table) (hs : a.Live names s) :
    table[s]? = some z ↔ a.Marked names z s := by
  rw [h.statuses]
  refine or_iff_right_of_imp fun hentered => ?_
  exact ⟨s, hentered, hs.settles⟩

theorem Collapsed.mem_of_live (h : a.Collapsed names resolve table) (hs : a.Live names s) :
    s ∈ table ↔ a.Explicit names s := by
  rw [StateMap.mem_iff_exists]
  exact exists_congr fun z => h.status_of_live hs

theorem Explored.collapsed (h : a.Explored names x) {initial : StateId} {redirects : RedirectMap}
    (hrun : x.redirects.collapse initial x.statuses = ⟨redirects, table, none⟩) :
    a.Collapsed names redirects.resolve table := by
  obtain ⟨hends, -, hget⟩ := RedirectMap.collapse_none hrun
  refine ⟨fun s hs => (h.ends_iff hs).1 (hends s), fun s z => ?_⟩
  rw [hget, h.statuses, h.basin_iff]

theorem Explored.passes_iff (h : a.Explored names x) (hto : a.Collapsed names resolve table) :
    table.Passes x.live x.edges.toList resolve s t ↔ a.Flows names s t := by
  constructor
  · rintro ⟨hs, ht, kept, hkept, hsource, -, rfl⟩
    obtain ⟨r, hr, edge, hedge, rfl⟩ := (h.mem_edges kept).1 hkept
    obtain rfl : r = s := by
      rw [← source_of_mem_outgoing (List.mem_filter.1 hedge).1]
      exact hsource
    have hreached := hr.reached_target hedge
    refine ⟨⟨hr, edge, hedge, hto.settles _ hreached⟩, ?_⟩
    exact fun hexplicit => ht ((hto.mem_of_live (hto.live_resolve hreached)).2 hexplicit)
  · rintro ⟨⟨hs, edge, hedge, hsettles⟩, ht⟩
    have hreached := hs.reached_target hedge
    have hlive := hreached.live hsettles
    refine ⟨h.mem_live.2 hs, by rwa [hto.mem_of_live hlive], keptDelay edge,
      (h.mem_edges _).2 ⟨s, hs, edge, hedge, rfl⟩, ?_, isDelay_delayLabel edge.label,
      (hto.resolve_eq hreached).2 hsettles⟩
    exact source_of_mem_outgoing (List.mem_filter.1 hedge).1

theorem Explored.spreads_iff (h : a.Explored names x) (hto : a.Collapsed names resolve table) :
    table.Spreads x.live x.edges.toList resolve z t ↔ a.Inherits names z t := by
  have hpasses : table.Passes x.live x.edges.toList resolve = a.Flows names :=
    funext fun r => funext fun d => propext (h.passes_iff hto)
  unfold StatusTable.Spreads Inherits
  rw [hpasses]
  constructor
  · rintro ⟨s, hs, hpath⟩
    have hlive : a.Live names s := by
      obtain ⟨d, hfirst, -⟩ := Relation.TransGen.head'_iff.1 hpath
      exact hfirst.1.1
    exact ⟨s, hlive, (hto.status_of_live hlive).1 hs, hpath⟩
  · rintro ⟨s, hlive, hs, hpath⟩
    exact ⟨s, (hto.status_of_live hlive).2 hs, hpath⟩

structure Prepared where
  found : Exploration
  resolve : StateId → StateId
  statuses : StatusTable
  unknown : Nat

def prepare (a : Automaton) (names : Vocabulary) : Except Error Prepared :=
  match a.explore names with
  | .error e => .error e
  | .ok found =>
    match found.redirects.collapse a.initial found.statuses with
    | ⟨_, _, some e⟩ => .error e
    | ⟨redirects, table, none⟩ =>
      match table.propagate found.live found.edges.toList redirects.resolve with
      | (_, .error e) => .error e
      | (statuses, .ok unknown) => .ok ⟨found, redirects.resolve, statuses, unknown⟩

/-- What is known of the passes before merging when they succeed. -/
structure Prepares (a : Automaton) (names : Vocabulary) (p : Prepared) : Prop where
  explored : a.Explored names p.found
  settles : ∀ s, a.Reached names s → a.Settles names s (p.resolve s)
  statuses : ∀ s : StateId, a.Live names s → ∀ z : Status,
    p.statuses[s]? = some z ↔ a.Marked names z s ∨ a.Inherits names z s
  unknown : p.unknown = p.found.live.toList.countP fun s => !p.statuses.contains s

/-- The automaton has one behaviour under maximal progress, and no state two statuses. -/
structure Reducible (a : Automaton) (names : Vocabulary) : Prop where
  uniform : ∀ s, a.Reached names s → a.Uniform names s
  settles : ∀ s, a.Reached names s → ∃ c, a.Settles names s c
  marked : ∀ c x y, a.Marked names x c → a.Marked names y c → x = y
  inherited : ∀ c x y, a.Inherits names x c → a.Inherits names y c → x = y

theorem prepare_ok {p : Prepared} (h : a.prepare names = .ok p) :
    a.Prepares names p ∧ a.Reducible names := by
  unfold prepare at h
  split at h
  · cases h
  · rename_i found hfound
    have hexplored := explore_ok hfound
    split at h
    · cases h
    · rename_i redirects table hcollapse
      have hto := hexplored.collapsed hcollapse
      split at h
      · cases h
      · rename_i statuses unknown hspread
        cases h
        obtain ⟨hget, hunknown⟩ := StatusTable.propagate_ok hspread
        have hfault : (found.redirects.collapse a.initial found.statuses).fault = none := by
          rw [hcollapse]
        obtain ⟨hends, hbasin⟩ := (RedirectMap.collapse_none_iff _ _ _).1 hfault
        have hagree := (StatusTable.propagate_ok_iff _ _ _ _).1 ⟨_, _, hspread⟩
        refine ⟨⟨hexplored, hto.settles, fun s hs z => ?_, hunknown⟩,
          ⟨hexplored.uniform, hexplored.all_end_iff.1 hends, fun c x y hx hy => ?_,
            fun c x y hx hy => ?_⟩⟩
        · rw [hget, hto.status_of_live hs, hexplored.spreads_iff hto]
        · exact hbasin c x y (hexplored.basin_iff.2 hx) (hexplored.basin_iff.2 hy)
        · exact hagree c x y ((hexplored.spreads_iff hto).2 hx)
            ((hexplored.spreads_iff hto).2 hy)

theorem prepare_error {e : Error} (h : a.prepare names = .error e) : ¬ a.Reducible names ∧
    ((∃ s first second, e = .nondeterminism s first second) ∨
      (∃ c x y cause, e = .conflict c x y cause) ∨
      (∃ s, e = .initialCycle s) ∨ ∃ s, e = .redirectCycle s) := by
  unfold prepare at h
  split at h
  · rename_i fault hfault
    cases h
    rcases explore_error hfault with ⟨s, hs, hnot, hform⟩ | ⟨t, x, y, cause, hne, hx, hy, rfl⟩
    · exact ⟨fun hreducible => hnot (hreducible.uniform s hs), .inl ⟨s, hform⟩⟩
    · refine ⟨fun hreducible => ?_, .inr (.inl ⟨t, x, y, cause, rfl⟩)⟩
      -- a state entered with both statuses settles in one that is marked with both
      obtain ⟨c, hc⟩ := hreducible.settles t (hx.reached hreducible.uniform)
      exact hne (hreducible.marked c x y ⟨t, hx, hc⟩ ⟨t, hy, hc⟩)
  · rename_i found hfound
    have hexplored := explore_ok hfound
    split at h
    · rename_i redirects table fault hcollapse
      cases h
      rcases RedirectMap.collapseFrom_some RedirectMap.collapseTo_start
        (fun s hs => Std.ExtTreeMap.mem_of_mem_keys hs) hcollapse with
        ⟨s, -, t, passed, known, hto, hwalk, rfl⟩ | ⟨c, x, y, cause, hne, hx, hy, rfl⟩
      · refine ⟨fun hreducible => ?_, ?_⟩
        · obtain ⟨c, hc⟩ := hexplored.all_end_iff.2 hreducible.settles s
          exact RedirectMap.not_ends_of_returns hwalk ((hto.ends s c).2 hc)
        · unfold RedirectMap.cycleError
          split
          · exact .inr (.inr (.inl ⟨_, rfl⟩))
          · exact .inr (.inr (.inr ⟨_, rfl⟩))
      · exact ⟨fun hreducible => hne (hreducible.marked c x y (hexplored.basin_iff.1 hx)
          (hexplored.basin_iff.1 hy)), .inr (.inl ⟨c, x, y, cause, rfl⟩)⟩
    · rename_i redirects table hcollapse
      have hto := hexplored.collapsed hcollapse
      split at h
      · rename_i statuses fault hspread
        cases h
        obtain ⟨t, x, y, cause, hne, -, hx, hy, rfl⟩ := StatusTable.propagate_error hspread
        exact ⟨fun hreducible => hne (hreducible.inherited t x y
          ((hexplored.spreads_iff hto).1 hx) ((hexplored.spreads_iff hto).1 hy)),
          .inr (.inl ⟨t, x, y, cause, rfl⟩)⟩
      · cases h

namespace Prepared

def merge (p : Prepared) (identical : Bool) : Merge :=
  if identical then mergeIdentical p.found.live p.found.edges.toList p.resolve p.statuses
  else Merge.trivial p.found.live

def target (p : Prepared) (identical : Bool) (s : StateId) : StateId :=
  (p.merge identical).representative (p.resolve s)

def chain (p : Prepared) (initial : StateId) (identical : Bool) : Chain where
  initial := rank (p.merge identical).live (p.target identical initial)
  stateCount := (p.merge identical).live.size
  transitions := (p.found.edges.toList.filter fun edge =>
    edge.source ∈ (p.merge identical).live).map
      (rankedEdge (p.merge identical).live (p.target identical))
  statuses := (p.merge identical).live.toList.map p.statuses.resolved

def outcome (p : Prepared) (a : Automaton) (identical : Bool) : Reduction where
  chain := p.chain a.initial identical
  statistics := {
    inputStates := a.stateCount
    inputEdges := a.edgeCount
    reachable := p.found.visited.size
    redirected := p.found.redirects.size
    merged := (p.merge identical).mergedCount
    preempted := p.found.preempted
    unknown := p.unknown
    outputStates := (p.merge identical).live.size
    outputTransitions := (p.chain a.initial identical).transitions.length
    failed := (p.chain a.initial identical).failedStates.length }
  warnings := p.found.warnings.toList
  silentOnly := 0

end Prepared

theorem represents_merge (p : Prepared) (identical : Bool) :
    (p.merge identical).Represents p.found.live := by
  unfold Prepared.merge
  cases identical with
  | false => exact (represents_trivial _).1
  | true => exact represents_mergeIdentical _ _ _ _

theorem Prepares.live_resolve {p : Prepared} (h : a.Prepares names p)
    (hs : a.Reached names s) : p.resolve s ∈ p.found.live :=
  h.explored.mem_live.2 (hs.live (h.settles s hs))

theorem Prepares.target_mem {p : Prepared} (h : a.Prepares names p) (identical : Bool)
    (hs : a.Reached names s) : p.target identical s ∈ (p.merge identical).live :=
  (represents_merge p identical).mem_live (h.live_resolve hs)

theorem Prepares.emit_eq {p : Prepared} (h : a.Prepares names p) (identical : Bool) :
    emit a.initial (p.merge identical).live p.found.edges.toList (p.target identical)
      p.statuses = .ok (p.chain a.initial identical) := by
  refine InteractiveMarkov.emit_eq p.statuses (h.target_mem identical .initial) ?_
  intro kept hkept _
  obtain ⟨s, hs, edge, hedge, rfl⟩ := (h.explored.mem_edges kept).1 hkept
  exact h.target_mem identical (hs.reached_target hedge)

theorem merge_false_live (p : Prepared) : (p.merge false).live = p.found.live := rfl

theorem target_false (p : Prepared) : p.target false = p.resolve :=
  funext fun s => (represents_trivial p.found.live).2 (p.resolve s)

theorem Prepares.transitions_eq {p : Prepared} (h : a.Prepares names p) (initial : StateId)
    (identical : Bool) (hs : s ∈ (p.merge identical).live) :
    ((p.chain initial identical).transitions.filter fun transition =>
        transition.source = rank (p.merge identical).live s) =
      (a.delays names s).map fun edge => ⟨rank (p.merge identical).live s,
        delayLabel edge.label, rank (p.merge identical).live (p.target identical edge.target)⟩ := by
  have hlive : a.Live names s :=
    h.explored.mem_live.1 ((represents_merge p identical).fixed hs).1
  unfold Prepared.chain
  rw [filter_rankedEdge hs, h.explored.edges_of_live hlive, List.map_map]
  refine List.map_congr_left fun edge hedge => ?_
  rw [← source_of_mem_outgoing (List.mem_filter.1 hedge).1]
  rfl

/-- A reduction fails exactly with the errors of the passes before merging. -/
theorem reduce_eq (a : Automaton) (options : ReductionOptions) : a.reduce options =
    match a.prepare options.names with
    | .error e => .error e
    | .ok p => .ok (p.outcome a options.merge) := by
  have hemit : ∀ p, a.prepare options.names = .ok p →
      emit a.initial (p.merge options.merge).live p.found.edges.toList (p.target options.merge)
        p.statuses = .ok (p.chain a.initial options.merge) :=
    fun p hp => (prepare_ok hp).1.emit_eq options.merge
  unfold prepare reduce at *
  cases hexplore : a.explore options.names with
  | error e => rfl
  | ok found =>
    simp only [hexplore, bind, Except.bind, pure, Except.pure] at hemit ⊢
    rcases hcollapse : found.redirects.collapse a.initial found.statuses with
      ⟨redirects, table, _ | fault⟩
    · simp only [hcollapse] at hemit ⊢
      rcases hspread : table.propagate found.live found.edges.toList redirects.resolve with
        ⟨statuses, e | unknown⟩
      · rfl
      · simp only [hspread] at hemit ⊢
        have hchain := hemit _ rfl
        unfold Prepared.target Prepared.merge at hchain
        rw [hchain]
        rfl
    · rfl

theorem exists_prepared {options : ReductionOptions} {r : Reduction}
    (h : a.reduce options = .ok r) :
    ∃ p, a.prepare options.names = .ok p ∧ r = p.outcome a options.merge := by
  rw [reduce_eq] at h
  cases hprepare : a.prepare options.names with
  | error e =>
    simp only [hprepare] at h
    cases h
  | ok p =>
    simp only [hprepare] at h
    cases h
    exact ⟨p, rfl, rfl⟩

theorem reduce_ok {options : ReductionOptions} {r : Reduction} (h : a.reduce options = .ok r) :
    ∃ p, a.Prepares options.names p ∧ a.Reducible options.names ∧
      r = p.outcome a options.merge := by
  obtain ⟨p, hprepare, houtcome⟩ := exists_prepared h
  obtain ⟨hprepares, hreducible⟩ := prepare_ok hprepare
  exact ⟨p, hprepares, hreducible, houtcome⟩

/-- State 8 is only left. A relay works in state 1, fails to state 4 or 5 and is repaired by way
    of state 6; a delay of state 0 is preempted. -/
def relay : Automaton := .ofEdges 8
  [⟨8, "rate 1", 0⟩, ⟨0, "", 1⟩, ⟨0, "rate 9", 9⟩, ⟨1, "rate 1", 2⟩, ⟨1, "rate 1", 2⟩,
    ⟨1, "rate 1", 3⟩, ⟨2, "FAIL", 4⟩, ⟨3, "FAIL", 5⟩, ⟨4, "time 2", 6⟩, ⟨5, "time 2", 6⟩,
    ⟨6, "rate 3", 7⟩, ⟨7, "FIX", 1⟩]

def relayNames : Vocabulary := { repair := some "FIX" }

def relayChain : Chain where
  initial := 5
  stateCount := 5
  transitions := [⟨5, .rate "1", 1⟩, ⟨1, .rate "1", 2⟩, ⟨1, .rate "1", 2⟩, ⟨1, .rate "1", 3⟩,
    ⟨2, .timed "time 2", 4⟩, ⟨3, .timed "time 2", 4⟩, ⟨4, .rate "3", 1⟩]
  statuses := [.operational, .failed, .failed, .failed, .operational]

theorem relay_unmerged : ∃ r, relay.reduce ⟨relayNames, false⟩ = .ok r ∧ r.chain = relayChain := by
  have hrun : (relay.reduce ⟨relayNames, false⟩).toOption.map (·.chain) = some relayChain := by
    decide +kernel
  exact exists_ok_of_map hrun

/-- With or without merging, a reduction succeeds exactly if every reached state has one immediate
    choice, immediate edges settle, and neither actions nor delays bring a state two statuses. It
    never fails because a transition ends nowhere. -/
theorem reduce_ok_iff_reducible (a : Automaton) (options : ReductionOptions) :
    ((∃ r, a.reduce options = .ok r) ↔ a.Reducible options.names) ∧
    (∀ e, a.reduce options = .error e →
      (∃ s first second, e = .nondeterminism s first second) ∨
      (∃ c x y cause, e = .conflict c x y cause) ∨
      (∃ s, e = .initialCycle s) ∨ ∃ s, e = .redirectCycle s) ∧
    ∀ s t, a.reduce options ≠ .error (.dangling s t) := by
  rw [reduce_eq]
  cases hprepare : a.prepare options.names with
  | error fault =>
    obtain ⟨hnot, hform⟩ := prepare_error hprepare
    refine ⟨⟨?_, fun hreducible => absurd hreducible hnot⟩, fun e he => ?_, fun s t he => ?_⟩
    · rintro ⟨r, hr⟩
      cases hr
    · cases he
      exact hform
    · cases he
      rcases hform with ⟨_, _, _, h⟩ | ⟨_, _, _, _, h⟩ | ⟨_, h⟩ | ⟨_, h⟩ <;> cases h
  | ok p =>
    refine ⟨⟨fun _ => (prepare_ok hprepare).2, fun _ => ⟨_, rfl⟩⟩, fun e he => ?_, fun s t he => ?_⟩
    · cases he
    · cases he

theorem relay_reducible : (∃ r, relay.reduce ⟨relayNames, false⟩ = .ok r) ∧
    relay.Reducible relayNames := by
  obtain ⟨r, hr, -⟩ := relay_unmerged
  exact ⟨⟨r, hr⟩, (reduce_ok_iff_reducible relay ⟨relayNames, false⟩).1.1 ⟨r, hr⟩⟩

end Automaton

end InteractiveMarkov
