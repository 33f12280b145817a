import InteractiveMarkov.Proofs.Reduction

set_option autoImplicit false

namespace InteractiveMarkov.Automaton

section Reference

variable (a : Automaton) (names : Vocabulary)

def Immediate (s t : StateId) : Prop := ∃ edge ∈ a.outgoing s,
  (names.classify edge.label).isImmediate = true ∧ edge.target = t

def Stable (s : StateId) : Prop := ∀ t, ¬ a.Immediate names s t

/-- The least set with the initial state that contains the target of each immediate edge of its
    members, and the targets of all delays of its stable members. -/
inductive Visited : StateId → Prop
  | initial : Visited a.initial
  | immediate {s t : StateId} : Visited s → a.Immediate names s t → Visited t
  | delay {s : StateId} {edge : Edge} :
      Visited s → a.Stable names s → edge ∈ a.delays names s → Visited edge.target

/-- Immediate edges lead from the first state to the second, which is stable. -/
def ComesTo (s c : StateId) : Prop :=
  Relation.ReflTransGen (a.Immediate names) s c ∧ a.Stable names c

def Remains (s : StateId) : Prop := a.Visited names s ∧ a.Stable names s

end Reference

variable {a : Automaton} {names : Vocabulary} {s t c : StateId}

theorem stable_iff : a.Stable names s ↔ a.urgentEdge? names s = none := by
  rw [urgentEdge?_none]
  constructor
  · intro hstable edge hedge himm
    exact hstable edge.target ⟨edge, hedge, himm, rfl⟩
  · rintro hnone t ⟨edge, hedge, himm, -⟩
    exact hnone edge hedge himm

theorem immediate_of_urgentEdge? {edge : Edge} (h : a.urgentEdge? names s = some edge) :
    a.Immediate names s edge.target := by
  obtain ⟨hedge, himm⟩ := urgentEdge?_some h
  exact ⟨edge, hedge, himm, rfl⟩

theorem Uniform.urgent_of_immediate (huniform : a.Uniform names s)
    (h : a.Immediate names s t) : ∃ edge, a.urgentEdge? names s = some edge ∧ edge.target = t := by
  obtain ⟨edge, hedge, himm, rfl⟩ := h
  obtain ⟨first, hfirst, -, htarget⟩ := huniform.eq_first hedge himm
  exact ⟨first, hfirst, htarget.symm⟩

theorem visited_iff (huniform : ∀ s, a.Reached names s → a.Uniform names s) :
    a.Visited names s ↔ a.Reached names s := by
  constructor
  · intro h
    induction h with
    | initial => exact .initial
    | immediate _ hstep ih =>
      obtain ⟨edge, hedge, rfl⟩ := (huniform _ ih).urgent_of_immediate hstep
      exact ih.urgent hedge
    | delay _ hstable hedge ih => exact ih.patient (stable_iff.1 hstable) hedge
  · intro h
    induction h with
    | initial => exact .initial
    | urgent _ hedge ih => exact ih.immediate (immediate_of_urgentEdge? hedge)
    | patient _ hnone hedge ih => exact ih.delay (stable_iff.2 hnone) hedge

theorem remains_iff (huniform : ∀ s, a.Reached names s → a.Uniform names s) :
    a.Remains names s ↔ a.Live names s :=
  and_congr (visited_iff huniform) stable_iff

theorem comesTo_iff (huniform : ∀ s, a.Reached names s → a.Uniform names s)
    (hs : a.Reached names s) : a.ComesTo names s c ↔ a.Settles names s c := by
  constructor
  · rintro ⟨hpath, hstable⟩
    -- from the front, since the first edge of a path is the only choice there
    induction hpath using Relation.ReflTransGen.head_induction_on with
    | refl => exact .stable (stable_iff.1 hstable)
    | head hstep _ ih =>
      obtain ⟨edge, hedge, rfl⟩ := (huniform _ hs).urgent_of_immediate hstep
      exact .follow hedge (ih (hs.urgent hedge))
  · intro h
    induction h with
    | stable hnone => exact ⟨.refl, stable_iff.2 hnone⟩
    | follow hedge _ ih =>
      obtain ⟨hpath, hstable⟩ := ih (hs.urgent hedge)
      exact ⟨.head (immediate_of_urgentEdge? hedge) hpath, hstable⟩

/-- The chain of the states that remain, given where immediate edges end: their numbers, and for
    each of them its delays in order, parallel ones included. -/
structure ReferenceChain (a : Automaton) (names : Vocabulary) (stable : StateId → StateId)
    (chain : Chain) : Prop where
  ends : ∀ s, a.Visited names s → ∀ c, a.ComesTo names s c ↔ c = stable s
  states : Set.BijOn (numberAmong (a.Remains names)) {s | a.Remains names s}
    (Set.Icc 1 chain.stateCount)
  initial : chain.initial = numberAmong (a.Remains names) (stable a.initial)
  sources : ∀ transition ∈ chain.transitions, ∃ s, a.Remains names s ∧
    transition.source = numberAmong (a.Remains names) s
  delays : ∀ s, a.Remains names s →
    (chain.transitions.filter fun transition =>
        transition.source = numberAmong (a.Remains names) s) =
      (a.delays names s).map fun edge => ⟨numberAmong (a.Remains names) s,
        delayLabel edge.label, numberAmong (a.Remains names) (stable edge.target)⟩

/-- A reduction without merging that succeeds gives the chain of the reference. -/
theorem reduce_eq_reference {r : Reduction} (h : a.reduce ⟨names, false⟩ = .ok r) :
    ∃ stable, a.ReferenceChain names stable r.chain := by
  obtain ⟨p, hp, hreducible, rfl⟩ := reduce_ok h
  have huniform := hreducible.uniform
  have hlive : ∀ s, s ∈ p.found.live ↔ a.Remains names s := by
    intro s
    rw [hp.explored.mem_live, remains_iff huniform]
  have hnumber := rank_eq_numberAmong hlive
  refine ⟨p.resolve, fun s hs c => ?_, ?_, ?_, fun transition htransition => ?_, fun s hs => ?_⟩
  · have hreached := (visited_iff huniform).1 hs
    rw [comesTo_iff huniform hreached]
    constructor
    · intro hc
      exact settles_unique hc (hp.settles s hreached)
    · rintro rfl
      exact hp.settles s hreached
  · have hmembers : {s | a.Remains names s} = {s | s ∈ p.found.live} :=
      Set.ext fun s => (hlive s).symm
    rw [← hnumber, hmembers]
    exact bijOn_rank p.found.live
  · rw [← hnumber, ← target_false p]
    rfl
  · obtain ⟨edge, hedge, rfl⟩ := List.mem_map.1 htransition
    have hsource : edge.source ∈ p.found.live := of_decide_eq_true (List.mem_filter.1 hedge).2
    refine ⟨edge.source, (hlive _).1 hsource, ?_⟩
    rw [← hnumber]
    rfl
  · rw [← hnumber, ← target_false p]
    exact hp.transitions_eq a.initial false ((hlive s).2 hs)

theorem relay_eq_reference : ∃ r, relay.reduce ⟨relayNames, false⟩ = .ok r ∧
    r.chain = relayChain ∧ ∃ stable, relay.ReferenceChain relayNames stable r.chain := by
  obtain ⟨r, hr, hchain⟩ := relay_unmerged
  exact ⟨r, hr, hchain, reduce_eq_reference hr⟩

end InteractiveMarkov.Automaton
