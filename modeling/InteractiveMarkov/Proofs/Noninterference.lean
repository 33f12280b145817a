import InteractiveMarkov.Proofs.Renaming

set_option autoImplicit false

namespace InteractiveMarkov

theorem cases_of_map_eq {α γ : Type} {k : α → γ} {x y : Except Error α}
    (h : y.map k = x.map k) : (∃ u v, x = .ok u ∧ y = .ok v ∧ k v = k u) ∨
      ∃ e, x = .error e ∧ y = .error e := by
  cases x with
  | error e =>
    cases y with
    | error e' =>
      cases h
      exact .inr ⟨e, rfl, rfl⟩
    | ok v => cases h
  | ok u =>
    cases y with
    | error e' => cases h
    | ok v => exact .inl ⟨u, v, rfl, rfl, Except.ok.inj h⟩

theorem foldlM_map_congr {α β γ : Type} {k : α → γ} {f g : α → β → Except Error α}
    {order : List β} (hstep : ∀ s ∈ order, ∀ x y, k y = k x → (g y s).map k = (f x s).map k)
    {x y : α} (h : k y = k x) : (order.foldlM g y).map k = (order.foldlM f x).map k := by
  induction order generalizing x y with
  | nil => exact congrArg Except.ok h
  | cons s rest ih =>
    rw [List.foldlM_cons, List.foldlM_cons]
    rcases cases_of_map_eq (hstep s List.mem_cons_self x y h) with
      ⟨u, v, hx, hy, hnext⟩ | ⟨e, hx, hy⟩
    · rw [hx, hy]
      exact ih (fun t ht => hstep t (List.mem_cons_of_mem s ht)) hnext
    · rw [hx, hy]
      rfl

namespace Exploration

variable {x y : Exploration} {s : StateId} {steps steps' : List Step}

/-- All that an exploration learned but the number of lost delays. -/
def kernel (x : Exploration) : Exploration := { x with preempted := 0 }

theorem kernel_eq_iff : y.kernel = x.kernel ↔ y = { x with preempted := y.preempted } := by
  cases x
  cases y
  simp [kernel]

theorem live_preempted (x : Exploration) (n : Nat) :
    ({ x with preempted := n } : Exploration).live = x.live := rfl

theorem redirect_kernel (h : y.kernel = x.kernel) (s : StateId) (step : Step) :
    (y.redirect s step).map kernel = (x.redirect s step).map kernel := by
  rw [kernel_eq_iff.1 h]
  unfold redirect
  cases step.status? with
  | none => rfl
  | some status =>
    simp only
    cases x.statuses.assign ⟨step.target, status, .action step.label s⟩ <;> rfl

theorem visit_kernel (h : y.kernel = x.kernel)
    (himmediate : steps'.filter Step.isImmediate = steps.filter Step.isImmediate)
    (hstable : steps.filter Step.isImmediate = [] → steps' = steps) :
    (y.visit s steps').map kernel = (x.visit s steps).map kernel := by
  unfold visit
  rw [himmediate]
  cases hfilter : steps.filter Step.isImmediate with
  | nil =>
    rw [kernel_eq_iff.1 h, hstable hfilter]
    rfl
  | cons first others =>
    simp only
    cases others.find? first.differs with
    | some second => rfl
    | none =>
      rcases cases_of_map_eq (redirect_kernel h s first) with ⟨u, v, hx, hy, hnext⟩ | ⟨e, hx, hy⟩
      · simp only [hx, hy]
        exact congrArg Except.ok hnext
      · simp only [hx, hy]
        rfl

end Exploration

/-- The reductions are the same, up to the size of the input and the number of preempted delays. -/
structure Reduction.Matches (r q : Reduction) : Prop where
  chain : q.chain = r.chain
  warnings : q.warnings = r.warnings
  silentOnly : q.silentOnly = r.silentOnly
  statistics : q.statistics = { r.statistics with
    inputStates := q.statistics.inputStates
    inputEdges := q.statistics.inputEdges
    preempted := q.statistics.preempted }

namespace Automaton

/-- In every state that the first automaton reaches under maximal progress, the second one has the
    same immediate edges, and the same edges altogether if there is no immediate one. -/
structure AgreesWhereReached (names : Vocabulary) (a b : Automaton) : Prop where
  initial : b.initial = a.initial
  edges : ∀ s, a.Reached names s →
    a.urgentEdge? names s ≠ none ∧ b.immediates names s = a.immediates names s ∨
      a.urgentEdge? names s = none ∧ b.outgoing s = a.outgoing s

variable {a b : Automaton} {names : Vocabulary} {s : StateId}

namespace AgreesWhereReached

theorem immediates_eq (h : AgreesWhereReached names a b) (hs : a.Reached names s) :
    b.immediates names s = a.immediates names s := by
  rcases h.edges s hs with ⟨-, hsame⟩ | ⟨-, hsame⟩
  · exact hsame
  · rw [immediates, immediates, hsame]

theorem filter_steps_eq (h : AgreesWhereReached names a b) (hs : a.Reached names s) :
    ((b.steps names).getD s []).filter Step.isImmediate =
      ((a.steps names).getD s []).filter Step.isImmediate := by
  rw [filter_steps, filter_steps, h.immediates_eq hs]

theorem steps_eq (h : AgreesWhereReached names a b) (hs : a.Reached names s)
    (hstable : ((a.steps names).getD s []).filter Step.isImmediate = []) :
    (b.steps names).getD s [] = (a.steps names).getD s [] := by
  have hnone : a.urgentEdge? names s = none := by
    have hfind := find?_steps a names s
    rw [← List.head?_filter, hstable] at hfind
    exact Option.map_eq_none_iff.1 hfind.symm
  rcases h.edges s hs with ⟨hurgent, -⟩ | ⟨-, hsame⟩
  · exact absurd hnone hurgent
  · rw [getD_steps, getD_steps, hsame]

theorem successors_eq (h : AgreesWhereReached names a b) (hs : a.Reached names s) :
    Step.successors ((b.steps names).getD s []) = Step.successors ((a.steps names).getD s []) := by
  unfold Step.successors
  rw [← List.head?_filter, ← List.head?_filter, h.filter_steps_eq hs]
  cases hfilter : ((a.steps names).getD s []).filter Step.isImmediate with
  | nil => rw [h.steps_eq hs hfilter]
  | cons first others => rfl

theorem reached_eq (h : AgreesWhereReached names a b) : b.reached names = a.reached names := by
  rw [reached, reached, h.initial]
  refine breadthFirst_congr fun s hs => ?_
  unfold Moves.after
  rw [StateMap.getD_map rfl, StateMap.getD_map rfl]
  exact h.successors_eq (mem_reached.1 hs)

theorem explore_kernel (h : AgreesWhereReached names a b) :
    (b.explore names).map Exploration.kernel = (a.explore names).map Exploration.kernel := by
  rw [explore_eq, explore_eq, h.reached_eq]
  refine foldlM_map_congr (fun s hs x y hxy => ?_) rfl
  have hreached := mem_reached.1 hs
  exact Exploration.visit_kernel hxy (h.filter_steps_eq hreached) (h.steps_eq hreached)

theorem prepare_cases (h : AgreesWhereReached names a b) :
    (∃ p n, a.prepare names = .ok p ∧
      b.prepare names = .ok { p with found := { p.found with preempted := n } }) ∨
    ∃ e, a.prepare names = .error e ∧ b.prepare names = .error e := by
  unfold prepare
  rcases cases_of_map_eq h.explore_kernel with ⟨x, y, hx, hy, hkernel⟩ | ⟨e, hx, hy⟩
  · obtain ⟨n, rfl⟩ : ∃ n, y = { x with preempted := n } :=
      ⟨_, Exploration.kernel_eq_iff.1 hkernel⟩
    rw [hx, hy, h.initial]
    rcases hcollapse : x.redirects.collapse a.initial x.statuses with ⟨redirects, table, _ | e⟩
    · rcases hspread : table.propagate x.live x.edges.toList redirects.resolve with
        ⟨statuses, e | unknown⟩
      · refine .inr ⟨e, by simp only [hcollapse, hspread], ?_⟩
        simp only [hcollapse, Exploration.live_preempted, hspread]
      · refine .inl ⟨⟨x, redirects.resolve, statuses, unknown⟩, n, ?_, ?_⟩
        · simp only [hcollapse, hspread]
        · simp only [hcollapse, Exploration.live_preempted, hspread]
    · exact .inr ⟨e, by simp only [hcollapse], by simp only [hcollapse]⟩
  · rw [hx, hy]
    exact .inr ⟨e, rfl, rfl⟩

end AgreesWhereReached

/-- What preempted delays and states that are not reached do has no influence on a reduction. -/
theorem reduce_noninterference {options : ReductionOptions}
    (h : AgreesWhereReached options.names a b) :
    (∃ r q, a.reduce options = .ok r ∧ b.reduce options = .ok q ∧ r.Matches q) ∨
      ∃ e, a.reduce options = .error e ∧ b.reduce options = .error e := by
  rw [reduce_eq, reduce_eq]
  rcases h.prepare_cases with ⟨p, n, hp, hq⟩ | ⟨e, hp, hq⟩
  · rw [hp, hq]
    have hchain : ({ p with found := { p.found with preempted := n } } : Prepared).chain b.initial
        options.merge = p.chain a.initial options.merge := by
      rw [h.initial]
      rfl
    refine .inl ⟨_, _, rfl, rfl, hchain, rfl, rfl, ?_⟩
    simp only [Prepared.outcome, hchain]
    rfl
  · rw [hp, hq]
    exact .inr ⟨e, rfl, rfl⟩

/-- The relay with another preempted delay, and with a state that nothing leads to. -/
def relayAside : Automaton := .ofEdges 8
  [⟨9, "FAIL", 1⟩, ⟨9, "FIX", 1⟩, ⟨8, "rate 1", 0⟩, ⟨0, "time 5", 4⟩, ⟨0, "", 1⟩, ⟨1, "rate 1", 2⟩,
    ⟨1, "rate 1", 2⟩, ⟨1, "rate 1", 3⟩, ⟨2, "FAIL", 4⟩, ⟨3, "FAIL", 5⟩, ⟨4, "time 2", 6⟩,
    ⟨5, "time 2", 6⟩, ⟨6, "rate 3", 7⟩, ⟨7, "FIX", 1⟩]

theorem relay_noninterference : AgreesWhereReached relayNames relay relayAside ∧
    ∃ r q, relay.reduce ⟨relayNames, false⟩ = .ok r ∧
      relayAside.reduce ⟨relayNames, false⟩ = .ok q ∧ r.Matches q ∧ q.chain = relayChain := by
  have hedges : ∀ s ∈ relay.reached relayNames, relay.urgentEdge? relayNames s ≠ none ∧
      relayAside.immediates relayNames s = relay.immediates relayNames s ∨
        relay.urgentEdge? relayNames s = none ∧ relayAside.outgoing s = relay.outgoing s := by
    decide +kernel
  have hinitial : relayAside.initial = relay.initial := by decide +kernel
  have hagrees : AgreesWhereReached relayNames relay relayAside :=
    ⟨hinitial, fun s hs => hedges s (mem_reached.2 hs)⟩
  obtain ⟨found, hfound, hchain⟩ := relay_unmerged
  rcases @reduce_noninterference relay relayAside ⟨relayNames, false⟩ hagrees with
    ⟨r, q, hr, hq, hmatches⟩ | ⟨e, hr, -⟩
  · rw [hfound] at hr
    cases hr
    exact ⟨hagrees, found, q, hfound, hq, hmatches, hmatches.chain.trans hchain⟩
  · rw [hfound] at hr
    cases hr

end Automaton

end InteractiveMarkov
