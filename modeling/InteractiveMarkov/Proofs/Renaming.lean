import InteractiveMarkov.Proofs.Reduction

set_option autoImplicit false

namespace InteractiveMarkov

theorem transGen_map {α β : Type} {r : α → α → Prop} {q : β → β → Prop} {f : α → β}
    (hf : Function.Injective f) (h : ∀ x y, q x y ↔ ∃ u v, r u v ∧ f u = x ∧ f v = y) {x y : β} :
    Relation.TransGen q x y ↔ ∃ u v, Relation.TransGen r u v ∧ f u = x ∧ f v = y := by
  constructor
  · intro hpath
    induction hpath with
    | single hstep =>
      obtain ⟨u, v, hr, rfl, rfl⟩ := (h _ _).1 hstep
      exact ⟨u, v, .single hr, rfl, rfl⟩
    | tail _ hstep ih =>
      obtain ⟨u, v, hpath, rfl, rfl⟩ := ih
      obtain ⟨w, z, hr, hw, rfl⟩ := (h _ _).1 hstep
      obtain rfl := hf hw
      exact ⟨u, z, hpath.tail hr, rfl, rfl⟩
  · rintro ⟨u, v, hpath, rfl, rfl⟩
    induction hpath with
    | single hr => exact .single ((h _ _).2 ⟨_, _, hr, rfl, rfl⟩)
    | tail _ hr ih => exact ih.tail ((h _ _).2 ⟨_, _, hr, rfl, rfl⟩)

namespace Automaton

def immediates (a : Automaton) (names : Vocabulary) (s : StateId) : List Edge :=
  (a.outgoing s).filter fun edge => (names.classify edge.label).isImmediate

/-- The second automaton is the first with its states renamed and its edges in another order, as far
    as they count under maximal progress: immediate edges, and delays of states without one. -/
structure Renames (names : Vocabulary) (p : StateId → StateId) (a b : Automaton) : Prop where
  injective : Function.Injective p
  initial : b.initial = p a.initial
  immediates : ∀ s, ((a.immediates names s).map fun edge => (edge.label, p edge.target)).Perm
    ((b.immediates names (p s)).map fun edge => (edge.label, edge.target))
  delays : ∀ s, a.urgentEdge? names s = none →
    ((a.delays names s).map fun edge => (delayLabel edge.label, p edge.target)).Perm
      ((b.delays names (p s)).map fun edge => (delayLabel edge.label, edge.target))

variable {a b : Automaton} {names : Vocabulary} {p : StateId → StateId} {s t c d : StateId}
  {edge : Edge} {z : Status}

theorem urgentEdge?_eq : a.urgentEdge? names s = (a.immediates names s).head? := by
  rw [immediates, List.head?_filter, urgentEdge?]

theorem filter_steps (s : StateId) : ((a.steps names).getD s []).filter Step.isImmediate =
    (a.immediates names s).map (Step.ofEdge names) := by
  rw [getD_steps, List.filter_map]
  rfl

theorem mem_immediates : edge ∈ a.immediates names s ↔
    edge ∈ a.outgoing s ∧ (names.classify edge.label).isImmediate = true :=
  List.mem_filter

theorem uniform_iff_immediates : a.Uniform names s ↔
    ∀ edge ∈ a.immediates names s, ∀ other ∈ a.immediates names s,
      edge.label = other.label ∧ edge.target = other.target := by
  unfold Uniform
  constructor
  · intro h edge hedge other hother
    obtain ⟨hout, himm⟩ := mem_immediates.1 hedge
    obtain ⟨hout', himm'⟩ := mem_immediates.1 hother
    exact h edge hout other hout' himm himm'
  · intro h edge hedge other hother himm himm'
    exact h edge (mem_immediates.2 ⟨hedge, himm⟩) other (mem_immediates.2 ⟨hother, himm'⟩)

namespace Renames

theorem urgentEdge?_none (h : Renames names p a b) :
    b.urgentEdge? names (p s) = none ↔ a.urgentEdge? names s = none := by
  have hlen := (h.immediates s).length_eq
  simp only [List.length_map] at hlen
  rw [urgentEdge?_eq, urgentEdge?_eq, List.head?_eq_none_iff, List.head?_eq_none_iff,
    ← List.length_eq_zero_iff, ← List.length_eq_zero_iff, hlen]

theorem immediate_map (h : Renames names p a b) (hedge : edge ∈ a.immediates names s) :
    ∃ image ∈ b.immediates names (p s), image.label = edge.label ∧
      image.target = p edge.target := by
  have hmem := (h.immediates s).mem_iff.1 (List.mem_map_of_mem hedge)
  obtain ⟨image, himage, heq⟩ := List.mem_map.1 hmem
  rw [Prod.mk.injEq] at heq
  exact ⟨image, himage, heq⟩

theorem immediate_back (h : Renames names p a b) (hedge : edge ∈ b.immediates names (p s)) :
    ∃ origin ∈ a.immediates names s, origin.label = edge.label ∧
      p origin.target = edge.target := by
  have hmem := (h.immediates s).mem_iff.2 (List.mem_map_of_mem hedge)
  obtain ⟨origin, horigin, heq⟩ := List.mem_map.1 hmem
  rw [Prod.mk.injEq] at heq
  exact ⟨origin, horigin, heq⟩

theorem delay_map (h : Renames names p a b) (hstable : a.urgentEdge? names s = none)
    (hedge : edge ∈ a.delays names s) :
    ∃ image ∈ b.delays names (p s), image.target = p edge.target := by
  have hmem := (h.delays s hstable).mem_iff.1 (List.mem_map_of_mem hedge)
  obtain ⟨image, himage, heq⟩ := List.mem_map.1 hmem
  rw [Prod.mk.injEq] at heq
  exact ⟨image, himage, heq.2⟩

theorem delay_back (h : Renames names p a b) (hstable : a.urgentEdge? names s = none)
    (hedge : edge ∈ b.delays names (p s)) :
    ∃ origin ∈ a.delays names s, p origin.target = edge.target := by
  have hmem := (h.delays s hstable).mem_iff.2 (List.mem_map_of_mem hedge)
  obtain ⟨origin, horigin, heq⟩ := List.mem_map.1 hmem
  rw [Prod.mk.injEq] at heq
  exact ⟨origin, horigin, heq.2⟩

theorem uniform_iff (h : Renames names p a b) : b.Uniform names (p s) ↔ a.Uniform names s := by
  rw [uniform_iff_immediates, uniform_iff_immediates]
  constructor
  · intro hb edge hedge other hother
    obtain ⟨image, himage, hlabel, htarget⟩ := h.immediate_map hedge
    obtain ⟨image', himage', hlabel', htarget'⟩ := h.immediate_map hother
    obtain ⟨hsame, hsame'⟩ := hb image himage image' himage'
    rw [hlabel, hlabel'] at hsame
    rw [htarget, htarget'] at hsame'
    exact ⟨hsame, h.injective hsame'⟩
  · intro ha edge hedge other hother
    obtain ⟨origin, horigin, hlabel, htarget⟩ := h.immediate_back hedge
    obtain ⟨origin', horigin', hlabel', htarget'⟩ := h.immediate_back hother
    obtain ⟨hsame, hsame'⟩ := ha origin horigin origin' horigin'
    rw [← hlabel, ← hlabel', ← htarget, ← htarget', hsame, hsame']
    exact ⟨rfl, rfl⟩

theorem urgent_map (h : Renames names p a b) (hu : a.Uniform names s)
    (hedge : a.urgentEdge? names s = some edge) : ∃ image, b.urgentEdge? names (p s) = some image ∧
      image.label = edge.label ∧ image.target = p edge.target := by
  cases himage : b.urgentEdge? names (p s) with
  | none =>
    rw [h.urgentEdge?_none, hedge] at himage
    cases himage
  | some image =>
    obtain ⟨origin, horigin, hlabel, htarget⟩ :=
      h.immediate_back (mem_immediates.2 (urgentEdge?_some himage))
    obtain ⟨hsame, hsame'⟩ := uniform_iff_immediates.1 hu origin horigin edge
      (mem_immediates.2 (urgentEdge?_some hedge))
    exact ⟨image, rfl, by rw [← hlabel, hsame], by rw [← htarget, hsame']⟩

theorem urgent_back (h : Renames names p a b) (hu : a.Uniform names s)
    (hedge : b.urgentEdge? names (p s) = some edge) : ∃ origin,
      a.urgentEdge? names s = some origin ∧ edge.label = origin.label ∧
        edge.target = p origin.target := by
  cases horigin : a.urgentEdge? names s with
  | none =>
    rw [← h.urgentEdge?_none, hedge] at horigin
    cases horigin
  | some origin =>
    obtain ⟨image, himage, heq⟩ := h.urgent_map hu horigin
    rw [hedge] at himage
    cases himage
    exact ⟨origin, rfl, heq⟩

theorem reached_map (h : Renames names p a b)
    (hu : ∀ t, b.Reached names t → b.Uniform names t) (hs : a.Reached names s) :
    b.Reached names (p s) := by
  induction hs with
  | initial =>
    rw [← h.initial]
    exact .initial
  | urgent _ hedge ih =>
    obtain ⟨image, himage, -, htarget⟩ := h.urgent_map (h.uniform_iff.1 (hu _ ih)) hedge
    rw [← htarget]
    exact ih.urgent himage
  | patient _ hstable hedge ih =>
    obtain ⟨image, himage, htarget⟩ := h.delay_map hstable hedge
    rw [← htarget]
    exact ih.patient (h.urgentEdge?_none.2 hstable) himage

theorem reached_back (h : Renames names p a b)
    (hu : ∀ s, a.Reached names s → a.Uniform names s) (ht : b.Reached names t) :
    ∃ s, a.Reached names s ∧ p s = t := by
  induction ht with
  | initial => exact ⟨a.initial, .initial, h.initial.symm⟩
  | urgent _ hedge ih =>
    obtain ⟨s, hs, rfl⟩ := ih
    obtain ⟨origin, horigin, -, htarget⟩ := h.urgent_back (hu s hs) hedge
    exact ⟨origin.target, hs.urgent horigin, htarget.symm⟩
  | patient _ hstable hedge ih =>
    obtain ⟨s, hs, rfl⟩ := ih
    rw [h.urgentEdge?_none] at hstable
    obtain ⟨origin, horigin, htarget⟩ := h.delay_back hstable hedge
    exact ⟨origin.target, hs.patient hstable horigin, htarget⟩

theorem all_uniform_iff (h : Renames names p a b) :
    (∀ t, b.Reached names t → b.Uniform names t) ↔ ∀ s, a.Reached names s → a.Uniform names s := by
  constructor
  · intro hb s hs
    exact h.uniform_iff.1 (hb _ (h.reached_map hb hs))
  · intro ha t ht
    obtain ⟨s, hs, rfl⟩ := h.reached_back ha ht
    exact h.uniform_iff.2 (ha s hs)

section Uniform

variable (h : Renames names p a b) (hu : ∀ s, a.Reached names s → a.Uniform names s)

include h hu

theorem reached_iff : b.Reached names t ↔ ∃ s, a.Reached names s ∧ p s = t := by
  refine ⟨h.reached_back hu, ?_⟩
  rintro ⟨s, hs, rfl⟩
  exact h.reached_map (h.all_uniform_iff.2 hu) hs

theorem settles_map (hs : a.Reached names s) (hc : a.Settles names s c) :
    b.Settles names (p s) (p c) := by
  induction hc with
  | stable hstable => exact .stable (h.urgentEdge?_none.2 hstable)
  | follow hedge _ ih =>
    obtain ⟨image, himage, -, htarget⟩ := h.urgent_map (hu _ hs) hedge
    refine .follow himage ?_
    rw [htarget]
    exact ih (hs.urgent hedge)

theorem settles_back (hs : a.Reached names s) (hd : b.Settles names (p s) d) :
    ∃ c, a.Settles names s c ∧ p c = d := by
  generalize ht : p s = t at hd
  induction hd generalizing s with
  | stable hstable =>
    subst ht
    exact ⟨s, .stable (h.urgentEdge?_none.1 hstable), rfl⟩
  | follow hedge _ ih =>
    subst ht
    obtain ⟨origin, horigin, -, htarget⟩ := h.urgent_back (hu s hs) hedge
    obtain ⟨c, hc, rfl⟩ := ih (hs.urgent horigin) htarget.symm
    exact ⟨c, .follow horigin hc, rfl⟩

theorem live_iff : b.Live names t ↔ ∃ s, a.Live names s ∧ p s = t := by
  constructor
  · rintro ⟨ht, hstable⟩
    obtain ⟨s, hs, rfl⟩ := h.reached_back hu ht
    exact ⟨s, ⟨hs, h.urgentEdge?_none.1 hstable⟩, rfl⟩
  · rintro ⟨s, ⟨hs, hstable⟩, rfl⟩
    exact ⟨(h.reached_iff hu).2 ⟨s, hs, rfl⟩, h.urgentEdge?_none.2 hstable⟩

theorem entered_iff : b.Entered names z t ↔ ∃ s, a.Entered names z s ∧ p s = t := by
  constructor
  · rintro ⟨r, edge, hr, hedge, hkind, rfl⟩
    obtain ⟨s, hs, rfl⟩ := h.reached_back hu hr
    obtain ⟨origin, horigin, hlabel, htarget⟩ :=
      h.immediate_back (mem_immediates.2 ⟨hedge, by rw [hkind]; rfl⟩)
    exact ⟨origin.target, ⟨s, origin, hs, (mem_immediates.1 horigin).1, by rwa [hlabel], rfl⟩,
      htarget⟩
  · rintro ⟨s, ⟨r, edge, hr, hedge, hkind, rfl⟩, rfl⟩
    obtain ⟨image, himage, hlabel, htarget⟩ :=
      h.immediate_map (mem_immediates.2 ⟨hedge, by rw [hkind]; rfl⟩)
    exact ⟨p r, image, (h.reached_iff hu).2 ⟨r, hr, rfl⟩, (mem_immediates.1 himage).1,
      by rwa [hlabel], htarget⟩

theorem marked_iff : b.Marked names z d ↔ ∃ c, a.Marked names z c ∧ p c = d := by
  constructor
  · rintro ⟨t, hentered, hsettles⟩
    obtain ⟨s, hs, rfl⟩ := (h.entered_iff hu).1 hentered
    obtain ⟨c, hc, rfl⟩ := h.settles_back hu (hs.reached hu) hsettles
    exact ⟨c, ⟨s, hs, hc⟩, rfl⟩
  · rintro ⟨c, ⟨s, hs, hc⟩, rfl⟩
    exact ⟨p s, (h.entered_iff hu).2 ⟨s, hs, rfl⟩, h.settles_map hu (hs.reached hu) hc⟩

theorem marked_map : b.Marked names z (p c) ↔ a.Marked names z c := by
  rw [h.marked_iff hu]
  simp only [h.injective.eq_iff, exists_eq_right]

theorem proceeds_iff : b.Proceeds names t d ↔ ∃ s c, a.Proceeds names s c ∧ p s = t ∧ p c = d := by
  constructor
  · rintro ⟨ht, edge, hedge, hsettles⟩
    obtain ⟨s, hs, rfl⟩ := (h.live_iff hu).1 ht
    obtain ⟨origin, horigin, htarget⟩ := h.delay_back hs.2 hedge
    rw [← htarget] at hsettles
    obtain ⟨c, hc, rfl⟩ := h.settles_back hu (hs.reached_target horigin) hsettles
    exact ⟨s, c, ⟨hs, origin, horigin, hc⟩, rfl, rfl⟩
  · rintro ⟨s, c, ⟨hs, edge, hedge, hc⟩, rfl, rfl⟩
    obtain ⟨image, himage, htarget⟩ := h.delay_map hs.2 hedge
    refine ⟨(h.live_iff hu).2 ⟨s, hs, rfl⟩, image, himage, ?_⟩
    rw [htarget]
    exact h.settles_map hu (hs.reached_target hedge) hc

theorem flows_iff : b.Flows names t d ↔ ∃ s c, a.Flows names s c ∧ p s = t ∧ p c = d := by
  have hexplicit : ∀ c, b.Explicit names (p c) ↔ a.Explicit names c := fun c =>
    exists_congr fun z => h.marked_map hu
  constructor
  · rintro ⟨hproceeds, hnot⟩
    obtain ⟨s, c, hsc, rfl, rfl⟩ := (h.proceeds_iff hu).1 hproceeds
    exact ⟨s, c, ⟨hsc, fun hc => hnot ((hexplicit c).2 hc)⟩, rfl, rfl⟩
  · rintro ⟨s, c, ⟨hsc, hnot⟩, rfl, rfl⟩
    exact ⟨(h.proceeds_iff hu).2 ⟨s, c, hsc, rfl, rfl⟩, fun hc => hnot ((hexplicit c).1 hc)⟩

theorem inherits_iff : b.Inherits names z d ↔ ∃ c, a.Inherits names z c ∧ p c = d := by
  have hpath : ∀ t d, Relation.TransGen (b.Flows names) t d ↔
      ∃ s c, Relation.TransGen (a.Flows names) s c ∧ p s = t ∧ p c = d := fun t d =>
    transGen_map h.injective fun _ _ => h.flows_iff hu
  constructor
  · rintro ⟨t, ht, hmarked, hflow⟩
    obtain ⟨s, c, hsc, rfl, rfl⟩ := (hpath t d).1 hflow
    obtain ⟨r, hr, heq⟩ := (h.live_iff hu).1 ht
    obtain rfl := h.injective heq
    exact ⟨c, ⟨r, hr, (h.marked_map hu).1 hmarked, hsc⟩, rfl⟩
  · rintro ⟨c, ⟨s, hs, hmarked, hsc⟩, rfl⟩
    exact ⟨p s, (h.live_iff hu).2 ⟨s, hs, rfl⟩, (h.marked_map hu).2 hmarked,
      (hpath _ _).2 ⟨s, c, hsc, rfl, rfl⟩⟩

theorem inherits_map : b.Inherits names z (p c) ↔ a.Inherits names z c := by
  rw [h.inherits_iff hu]
  simp only [h.injective.eq_iff, exists_eq_right]

theorem mem_redirects {x y : Exploration} (hx : a.Explored names x) (hy : b.Explored names y) :
    t ∈ y.redirects ↔ ∃ s ∈ x.redirects, p s = t := by
  simp only [hx.mem_redirects, hy.mem_redirects]
  constructor
  · rintro ⟨ht, edge, hedge⟩
    obtain ⟨s, hs, rfl⟩ := h.reached_back hu ht
    obtain ⟨origin, horigin, -⟩ := h.urgent_back (hu s hs) hedge
    exact ⟨s, ⟨hs, origin, horigin⟩, rfl⟩
  · rintro ⟨s, ⟨hs, edge, hedge⟩, rfl⟩
    obtain ⟨image, himage, -⟩ := h.urgent_map (hu s hs) hedge
    exact ⟨(h.reached_iff hu).2 ⟨s, hs, rfl⟩, image, himage⟩

theorem all_settle_iff : (∀ t, b.Reached names t → ∃ d, b.Settles names t d) ↔
    ∀ s, a.Reached names s → ∃ c, a.Settles names s c := by
  constructor
  · intro hb s hs
    obtain ⟨d, hd⟩ := hb (p s) ((h.reached_iff hu).2 ⟨s, hs, rfl⟩)
    obtain ⟨c, hc, -⟩ := h.settles_back hu hs hd
    exact ⟨c, hc⟩
  · intro ha t ht
    obtain ⟨s, hs, rfl⟩ := h.reached_back hu ht
    obtain ⟨c, hc⟩ := ha s hs
    exact ⟨p c, h.settles_map hu hs hc⟩

end Uniform

theorem agree_iff (hp : Function.Injective p) {P Q : Status → StateId → Prop}
    (h : ∀ z d, Q z d ↔ ∃ c, P z c ∧ p c = d) :
    (∀ d x y, Q x d → Q y d → x = y) ↔ ∀ c x y, P x c → P y c → x = y := by
  constructor
  · intro hq c x y hx hy
    exact hq (p c) x y ((h x _).2 ⟨c, hx, rfl⟩) ((h y _).2 ⟨c, hy, rfl⟩)
  · intro hall d x y hx hy
    obtain ⟨c, hc, rfl⟩ := (h x d).1 hx
    obtain ⟨e, he, heq⟩ := (h y _).1 hy
    obtain rfl := hp heq
    exact hall e x y hc he

theorem reducible_iff (h : Renames names p a b) : b.Reducible names ↔ a.Reducible names := by
  have hmarked (hu : ∀ s, a.Reached names s → a.Uniform names s) (z : Status) (d : StateId) :
      b.Marked names z d ↔ ∃ c, a.Marked names z c ∧ p c = d := h.marked_iff hu
  have hinherits (hu : ∀ s, a.Reached names s → a.Uniform names s) (z : Status) (d : StateId) :
      b.Inherits names z d ↔ ∃ c, a.Inherits names z c ∧ p c = d := h.inherits_iff hu
  constructor
  · intro hb
    have hu := h.all_uniform_iff.1 hb.uniform
    exact ⟨hu, (h.all_settle_iff hu).1 hb.settles,
      (agree_iff h.injective (hmarked hu)).1 hb.marked,
      (agree_iff h.injective (hinherits hu)).1 hb.inherited⟩
  · intro ha
    have hu := ha.uniform
    exact ⟨h.all_uniform_iff.2 hu, (h.all_settle_iff hu).2 ha.settles,
      (agree_iff h.injective (hmarked hu)).2 ha.marked,
      (agree_iff h.injective (hinherits hu)).2 ha.inherited⟩

theorem prepare_cases (h : Renames names p a b) :
    (∃ x y, a.prepare names = .ok x ∧ b.prepare names = .ok y) ∨
      ∃ e f, a.prepare names = .error e ∧ b.prepare names = .error f := by
  cases hx : a.prepare names with
  | error e =>
    cases hy : b.prepare names with
    | error f => exact .inr ⟨e, f, rfl, rfl⟩
    | ok y => exact absurd (h.reducible_iff.1 (prepare_ok hy).2) (prepare_error hx).1
  | ok x =>
    cases hy : b.prepare names with
    | error f => exact absurd (h.reducible_iff.2 (prepare_ok hx).2) (prepare_error hy).1
    | ok y => exact .inl ⟨x, y, rfl, rfl⟩

section Tables

variable {x y : Prepared} (h : Renames names p a b) (hx : a.Prepares names x)
  (hy : b.Prepares names y)

include h hx hy

theorem resolve_eq (hs : a.Reached names s) : y.resolve (p s) = p (x.resolve s) := by
  have hu := hx.explored.uniform
  have hreached := (h.reached_iff hu).2 ⟨s, hs, rfl⟩
  exact settles_unique (hy.settles _ hreached) (h.settles_map hu hs (hx.settles s hs))

theorem mem_live : t ∈ y.found.live ↔ ∃ s ∈ x.found.live, p s = t := by
  simp only [hy.explored.mem_live, hx.explored.mem_live]
  exact h.live_iff hx.explored.uniform

theorem statuses_eq (hs : a.Live names s) : y.statuses[p s]? = x.statuses[s]? := by
  have hu := hx.explored.uniform
  refine Option.ext fun z => ?_
  rw [hy.statuses (p s) ((h.live_iff hu).2 ⟨s, hs, rfl⟩), hx.statuses s hs, h.marked_map hu,
    h.inherits_map hu]

theorem resolved_eq (hs : a.Live names s) :
    y.statuses.resolved (p s) = x.statuses.resolved s := by
  unfold StatusTable.resolved
  rw [Std.ExtTreeMap.getD_eq_getD_getElem?, Std.ExtTreeMap.getD_eq_getD_getElem?,
    h.statuses_eq hx hy hs]

end Tables

end Renames

end Automaton

end InteractiveMarkov
