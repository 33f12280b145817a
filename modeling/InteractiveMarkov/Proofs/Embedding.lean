import InteractiveMarkov.Proofs.Isomorphism
import InteractiveMarkov.Proofs.Lockstep

set_option autoImplicit false

namespace InteractiveMarkov

theorem eq_map_of_mem {p : StateId → StateId} {l m : List StateId} (hp : StrictMono p)
    (hl : l.Pairwise (· < ·)) (hm : m.Pairwise (· < ·)) (hmem : ∀ t, t ∈ m ↔ ∃ s ∈ l, p s = t) :
    m = l.map p := by
  have hsorted : (l.map p).Pairwise (· < ·) :=
    List.pairwise_map.2 (hl.imp fun {s t} hlt => hp hlt)
  refine List.Perm.eq_of_pairwise (fun s t _ _ hst hts => ?_) hm hsorted ?_
  · exact absurd hst (Nat.lt_asymm hts)
  · exact perm_map_of_injective hp.injective (hl.imp Nat.ne_of_lt) (hm.imp Nat.ne_of_lt) hmem

namespace Automaton

/-- The second automaton has the states and edges of the first, in their order: all immediate
    edges, and the delays of states without one. -/
structure Embeds (names : Vocabulary) (p : StateId → StateId) (a b : Automaton) : Prop where
  mono : StrictMono p
  initial : b.initial = p a.initial
  immediates : ∀ s, ((b.immediates names (p s)).map fun edge => (edge.label, edge.target)) =
    (a.immediates names s).map fun edge => (edge.label, p edge.target)
  delays : ∀ s, a.urgentEdge? names s = none →
    ((b.delays names (p s)).map fun edge => (delayLabel edge.label, edge.target)) =
      (a.delays names s).map fun edge => (delayLabel edge.label, p edge.target)

variable {a b : Automaton} {names : Vocabulary} {p : StateId → StateId} {x y : Prepared}
  {s t : StateId} {identical : Bool}

theorem Prepares.transitions_reached (h : a.Prepares names x) (identical : Bool) :
    (x.chain a.initial identical).transitions = (a.reached names).flatMap fun s =>
      if s ∈ (x.merge identical).live then (a.delays names s).map fun edge =>
        ⟨rank (x.merge identical).live s, delayLabel edge.label,
          rank (x.merge identical).live (x.target identical edge.target)⟩ else [] := by
  rw [Prepared.chain, h.explored.edges, List.filter_flatMap, List.map_flatMap]
  apply List.flatMap_congr
  intro s _
  have hsource : ∀ edge ∈ a.delays names s, edge.source = s :=
    fun edge hedge => source_of_mem_outgoing (List.mem_filter.1 hedge).1
  by_cases hs : s ∈ (x.merge identical).live
  · have hlive := h.explored.mem_live.1 ((represents_merge x identical).fixed hs).1
    rw [if_pos hs, if_pos hlive.2, List.filter_eq_self.2, List.map_map]
    · apply List.map_congr_left
      intro edge hedge
      rw [Function.comp_apply, rankedEdge, keptDelay, hsource edge hedge]
    · intro kept hkept
      obtain ⟨edge, hedge, rfl⟩ := List.mem_map.1 hkept
      rw [keptDelay, hsource edge hedge]
      exact decide_eq_true hs
  · rw [if_neg hs, List.map_eq_nil_iff, List.filter_eq_nil_iff]
    intro kept hkept
    split at hkept
    · obtain ⟨edge, hedge, rfl⟩ := List.mem_map.1 hkept
      rw [keptDelay, hsource edge hedge]
      simpa using hs
    · cases hkept

theorem successors_steps (s : StateId) : Step.successors ((a.steps names).getD s []) =
    match a.urgentEdge? names s with
    | some edge => [edge.target]
    | none => (a.delays names s).map (·.target) := by
  unfold Step.successors
  rw [find?_steps]
  cases hfirst : a.urgentEdge? names s with
  | none =>
    rw [delays_of_stable hfirst, getD_steps, List.map_map]
    rfl
  | some edge => rfl

namespace Embeds

theorem renames (h : Embeds names p a b) : Renames names p a b :=
  ⟨h.mono.injective, h.initial, fun s => .of_eq (h.immediates s).symm,
    fun s hstable => .of_eq (h.delays s hstable).symm⟩

theorem filter_steps_map (h : Embeds names p a b) (s : StateId) :
    ((b.steps names).getD (p s) []).filter Step.isImmediate =
      (((a.steps names).getD s []).filter Step.isImmediate).map (Step.rename p) := by
  have hlists := congrArg (List.map fun entry : String × StateId =>
    (⟨entry.1, names.classify entry.1, entry.2⟩ : Step)) (h.immediates s)
  rw [List.map_map, List.map_map] at hlists
  rw [filter_steps, filter_steps, List.map_map]
  exact hlists

theorem urgent_target (h : Embeds names p a b) (s : StateId) :
    (b.urgentEdge? names (p s)).map (·.target) =
      (a.urgentEdge? names s).map fun edge => p edge.target := by
  have hlists := congrArg (fun entries => entries.head?.map Prod.snd) (h.immediates s)
  simp only [List.head?_map, Option.map_map, ← urgentEdge?_eq] at hlists
  exact hlists

theorem after_map (h : Embeds names p a b) (s : StateId) :
    Moves.after ((b.steps names).map fun _ steps => Step.successors steps) (p s) =
      (Moves.after ((a.steps names).map fun _ steps => Step.successors steps) s).map p := by
  have hurgent := h.urgent_target s
  unfold Moves.after
  rw [StateMap.getD_map rfl, StateMap.getD_map rfl, successors_steps, successors_steps]
  cases hedge : a.urgentEdge? names s with
  | none =>
    have hlists := congrArg (List.map Prod.snd) (h.delays s hedge)
    rw [List.map_map, List.map_map] at hlists
    rw [h.renames.urgentEdge?_none.2 hedge, List.map_map]
    exact hlists
  | some edge =>
    rw [hedge] at hurgent
    obtain ⟨image, himage, htarget⟩ := Option.map_eq_some_iff.1 hurgent
    rw [himage]
    exact congrArg (fun t => [t]) htarget

theorem reached_eq (h : Embeds names p a b) : b.reached names = (a.reached names).map p := by
  have hsearch := breadthFirst_map h.mono.injective h.after_map [a.initial]
  rw [reached, h.initial]
  exact hsearch

theorem explore_agrees (h : Embeds names p a b) :
    Agrees (fun x y => x.statuses.Mirrors p y.statuses) (a.explore names) (b.explore names) := by
  rw [explore_eq, explore_eq, h.reached_eq]
  apply agrees_foldlM
  · intro s x y hxy
    exact Exploration.visit_agrees h.mono.injective hxy (h.filter_steps_map s)
  · intro s
    simp [Exploration.start]

theorem mirrors_redirects (h : Embeds names p a b) {x y : Exploration} (hx : a.Explored names x)
    (hy : b.Explored names y) : x.redirects.Mirrors p y.redirects := by
  have hnames := h.renames
  intro s
  by_cases hs : a.Reached names s
  · have ht : b.Reached names (p s) := (hnames.reached_iff hx.uniform).2 ⟨s, hs, rfl⟩
    cases hedge : a.urgentEdge? names s with
    | none =>
      rw [hx.redirect_none fun _ => hedge,
        hy.redirect_none fun _ => hnames.urgentEdge?_none.2 hedge]
      rfl
    | some edge =>
      obtain ⟨image, himage, hlabel, htarget⟩ := hnames.urgent_map (hx.uniform s hs) hedge
      rw [hx.redirect_of_urgent hs hedge, hy.redirect_of_urgent ht himage, hlabel, htarget]
      rfl
  · have ht : ¬ b.Reached names (p s) := by
      rw [hnames.reached_iff hx.uniform]
      rintro ⟨r, hr, heq⟩
      rw [hnames.injective heq] at hr
      exact hs hr
    rw [hx.redirect_none fun hreached => absurd hreached hs,
      hy.redirect_none fun hreached => absurd hreached ht]
    rfl

theorem collapse_fault (h : Embeds names p a b) {x y : Exploration} (hx : a.Explored names x)
    (hy : b.Explored names y) (hstatuses : x.statuses.Mirrors p y.statuses) :
    (y.redirects.collapse b.initial y.statuses).fault.map Error.ctorIdx =
      (x.redirects.collapse a.initial x.statuses).fault.map Error.ctorIdx := by
  have hkeys : y.redirects.keys = x.redirects.keys.map p := by
    apply eq_map_of_mem h.mono
    · exact x.redirects.ordered_keys.imp fun {s t} hlt => Nat.compare_eq_lt.1 hlt
    · exact y.redirects.ordered_keys.imp fun {s t} hlt => Nat.compare_eq_lt.1 hlt
    · intro t
      simp only [Std.ExtTreeMap.mem_keys]
      exact h.renames.mem_redirects hx.uniform hx hy
  rw [RedirectMap.collapse, RedirectMap.collapse, hkeys, h.initial]
  exact (h.mirrors_redirects hx hy).collapseFrom h.mono.injective hstatuses _

theorem prepare_fault (h : Embeds names p a b) {e f : Error} (he : a.prepare names = .error e)
    (hf : b.prepare names = .error f) : f.ctorIdx = e.ctorIdx := by
  unfold prepare at he hf
  rcases h.explore_agrees.cases with
    ⟨found, found', hfound, hfound', hstatuses⟩ | ⟨e', f', hfound, hfound', hsame⟩
  · have hcollapse := h.collapse_fault (explore_ok hfound) (explore_ok hfound') hstatuses
    rw [hfound] at he
    rw [hfound'] at hf
    simp only at he hf
    rcases hx : found.redirects.collapse a.initial found.statuses with ⟨m, table, _ | e'⟩
    · rcases hy : found'.redirects.collapse b.initial found'.statuses with ⟨m', table', _ | f'⟩
      · rw [hx] at he
        rw [hy] at hf
        simp only at he hf
        -- only a conflict can end the last pass before merging
        split at he
        · rename_i statuses fault hspread
          split at hf
          · rename_i statuses' fault' hspread'
            obtain ⟨_, _, _, _, -, -, -, -, rfl⟩ := StatusTable.propagate_error hspread
            obtain ⟨_, _, _, _, -, -, -, -, rfl⟩ := StatusTable.propagate_error hspread'
            cases he
            cases hf
            rfl
          · cases hf
        · cases he
      · rw [hx, hy] at hcollapse
        cases hcollapse
    · rcases hy : found'.redirects.collapse b.initial found'.statuses with ⟨m', table', _ | f'⟩
      · rw [hx, hy] at hcollapse
        cases hcollapse
      · rw [hx, hy] at hcollapse
        rw [hx] at he
        rw [hy] at hf
        cases he
        cases hf
        exact Option.some.inj hcollapse
  · rw [hfound] at he
    rw [hfound'] at hf
    cases he
    cases hf
    exact hsame

section Chains

variable (h : Embeds names p a b) (hx : a.Prepares names x) (hy : b.Prepares names y)

include h hx hy

theorem image_eq (hs : s ∈ (x.merge identical).live) : Renames.image p y identical s = p s :=
  h.renames.image_eq hx hy (h.mono.strictMonoOn _) hs

theorem mem_live (identical : Bool) :
    t ∈ (y.merge identical).live ↔ ∃ s ∈ (x.merge identical).live, p s = t := by
  rw [h.renames.mem_image hx hy]
  constructor
  · rintro ⟨s, hs, rfl⟩
    exact ⟨s, hs, (h.image_eq hx hy hs).symm⟩
  · rintro ⟨s, hs, rfl⟩
    exact ⟨s, hs, h.image_eq hx hy hs⟩

theorem toList_live (identical : Bool) :
    (y.merge identical).live.toList = (x.merge identical).live.toList.map p := by
  apply eq_map_of_mem h.mono (pairwise_toList _) (pairwise_toList _)
  intro t
  simp only [Std.ExtTreeSet.mem_toList]
  exact h.mem_live hx hy identical

theorem rank_eq (hs : s ∈ (x.merge identical).live) :
    rank (y.merge identical).live (p s) = rank (x.merge identical).live s := by
  rw [← h.renames.rank_image hx hy (h.mono.strictMonoOn _) hs, h.image_eq hx hy hs]

theorem rank_target (identical : Bool) (hs : a.Reached names s) :
    rank (y.merge identical).live (y.target identical (p s)) =
      rank (x.merge identical).live (x.target identical s) := by
  rw [← h.renames.image_target hx hy identical hs]
  exact h.renames.rank_image hx hy (h.mono.strictMonoOn _) (hx.target_mem identical hs)

theorem transitions_eq (identical : Bool) :
    (y.chain b.initial identical).transitions = (x.chain a.initial identical).transitions := by
  rw [hx.transitions_reached, hy.transitions_reached, h.reached_eq, List.flatMap_map]
  apply List.flatMap_congr
  intro s _
  by_cases hs : s ∈ (x.merge identical).live
  · have hlive := hx.explored.mem_live.1 ((represents_merge x identical).fixed hs).1
    have hlists := congrArg (List.map fun entry : KeptLabel × StateId =>
      (⟨rank (y.merge identical).live (p s), entry.1,
        rank (y.merge identical).live (y.target identical entry.2)⟩ : Transition))
      (h.delays s hlive.2)
    rw [List.map_map, List.map_map] at hlists
    rw [if_pos hs, if_pos ((h.mem_live hx hy identical).2 ⟨s, hs, rfl⟩)]
    refine hlists.trans (List.map_congr_left fun edge hedge => ?_)
    rw [Function.comp_apply, h.rank_eq hx hy hs,
      h.rank_target hx hy identical (hlive.reached_target hedge)]
  · have ht : p s ∉ (y.merge identical).live := by
      rw [h.mem_live hx hy]
      rintro ⟨r, hr, heq⟩
      rw [h.mono.injective heq] at hr
      exact hs hr
    rw [if_neg hs, if_neg ht]

theorem chain_eq (identical : Bool) :
    y.chain b.initial identical = x.chain a.initial identical := by
  have hinitial : rank (y.merge identical).live (y.target identical b.initial) =
      rank (x.merge identical).live (x.target identical a.initial) := by
    rw [h.initial]
    exact h.rank_target hx hy identical .initial
  have hcount : (y.merge identical).live.size = (x.merge identical).live.size := by
    rw [← Std.ExtTreeSet.length_toList, h.toList_live hx hy, List.length_map,
      Std.ExtTreeSet.length_toList]
  have hstatuses : (y.merge identical).live.toList.map y.statuses.resolved =
      (x.merge identical).live.toList.map x.statuses.resolved := by
    rw [h.toList_live hx hy, List.map_map]
    apply List.map_congr_left
    intro s hs
    have hlive := (represents_merge x identical).fixed (Std.ExtTreeSet.mem_toList.1 hs)
    exact h.renames.resolved_eq hx hy (hx.explored.mem_live.1 hlive.1)
  have htransitions := h.transitions_eq hx hy identical
  unfold Prepared.chain at htransitions ⊢
  rw [Chain.mk.injEq]
  exact ⟨hinitial, hcount, htransitions, hstatuses⟩

end Chains

theorem reduce_agrees (h : Embeds names p a b) (merge : Bool) :
    Agrees (fun r q => q.chain = r.chain) (a.reduce ⟨names, merge⟩) (b.reduce ⟨names, merge⟩) := by
  rw [reduce_eq, reduce_eq]
  rcases h.renames.prepare_cases with ⟨x, y, hx, hy⟩ | ⟨e, f, hx, hy⟩
  · simp only [hx, hy]
    exact h.chain_eq (prepare_ok hx).1 (prepare_ok hy).1 merge
  · simp only [hx, hy]
    exact h.prepare_fault hx hy

end Embeds

end Automaton

end InteractiveMarkov
