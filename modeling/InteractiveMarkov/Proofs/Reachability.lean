import InteractiveMarkov.Exploration
import InteractiveMarkov.Proofs.Traversal

set_option autoImplicit false

namespace InteractiveMarkov

def Status.action : Status → Action
  | failed => .failure
  | operational => .repair

/-- What a delay keeps of its label: the trimmed expression of a rate, or the full text. -/
def delayLabel (label : String) : KeptLabel :=
  if rateMark.isPrefixOf label.toList then
    .rate (String.ofList (Text.trim (label.toList.drop rateMark.length)))
  else .timed label

theorem keep?_of_isDelay {names : Vocabulary} {label : String}
    (h : (names.classify label).isDelay = true) :
    (names.classify label).keep? label = some (delayLabel label) := by
  unfold Vocabulary.classify at h ⊢
  unfold delayLabel
  split_ifs at h ⊢ <;> first | rfl | cases h

theorem isDelay_delayLabel (label : String) : (delayLabel label).isDelay = true := by
  unfold delayLabel
  split <;> rfl

theorem LabelClass.isDelay_eq (kind : LabelClass) : kind.isDelay = !kind.isImmediate := by
  cases kind <;> rfl

namespace Automaton

section Behaviour

variable (a : Automaton) (names : Vocabulary)

def urgentEdge? (s : StateId) : Option Edge :=
  (a.outgoing s).find? fun edge => (names.classify edge.label).isImmediate

def delays (s : StateId) : List Edge :=
  (a.outgoing s).filter fun edge => (names.classify edge.label).isDelay

/-- The least set with the initial state that a state with an immediate edge extends by the target
    of its first one, and any other state by the targets of all its delays. -/
inductive Reached : StateId → Prop
  | initial : Reached a.initial
  | urgent {s : StateId} {edge : Edge} :
      Reached s → a.urgentEdge? names s = some edge → Reached edge.target
  | patient {s : StateId} {edge : Edge} :
      Reached s → a.urgentEdge? names s = none → edge ∈ a.delays names s → Reached edge.target

/-- Immediate edges lead from the first state to the second, which has none. -/
inductive Settles : StateId → StateId → Prop
  | stable {s : StateId} : a.urgentEdge? names s = none → Settles s s
  | follow {s c : StateId} {edge : Edge} :
      a.urgentEdge? names s = some edge → Settles edge.target c → Settles s c

def Live (s : StateId) : Prop := a.Reached names s ∧ a.urgentEdge? names s = none

def Uniform (s : StateId) : Prop := ∀ edge ∈ a.outgoing s, ∀ other ∈ a.outgoing s,
  (names.classify edge.label).isImmediate = true →
  (names.classify other.label).isImmediate = true →
  edge.label = other.label ∧ edge.target = other.target

def Entered (status : Status) (t : StateId) : Prop := ∃ s edge, a.Reached names s ∧
  edge ∈ a.outgoing s ∧ names.classify edge.label = .interactive status.action ∧ edge.target = t

/-- A state entered with the status settles in the given one. -/
def Marked (status : Status) (c : StateId) : Prop := ∃ t, a.Entered names status t ∧
  a.Settles names t c

/-- A state with a known status; others only inherit one. -/
def Explicit (c : StateId) : Prop := ∃ status, a.Marked names status c

def Proceeds (s c : StateId) : Prop := a.Live names s ∧
  ∃ edge ∈ a.delays names s, a.Settles names edge.target c

def Flows (s c : StateId) : Prop := a.Proceeds names s c ∧ ¬ a.Explicit names c

/-- Delays lead to the state from one with the status, and never into an explicit state. -/
def Inherits (status : Status) (c : StateId) : Prop := ∃ s, a.Live names s ∧
  a.Marked names status s ∧ Relation.TransGen (a.Flows names) s c

end Behaviour

variable {a : Automaton} {names : Vocabulary} {s t c d : StateId} {edge : Edge}

theorem source_of_mem_outgoing (h : edge ∈ a.outgoing s) : edge.source = s := by
  simpa using (List.mem_filter.1 h).2

theorem urgentEdge?_some (h : a.urgentEdge? names s = some edge) :
    edge ∈ a.outgoing s ∧ (names.classify edge.label).isImmediate = true := by
  unfold urgentEdge? at h
  exact ⟨List.mem_of_find?_eq_some h, by simpa using List.find?_some h⟩

theorem urgentEdge?_none : a.urgentEdge? names s = none ↔
    ∀ edge ∈ a.outgoing s, ¬ (names.classify edge.label).isImmediate = true :=
  List.find?_eq_none

theorem exists_urgentEdge? (h : edge ∈ a.outgoing s)
    (himm : (names.classify edge.label).isImmediate = true) :
    ∃ first, a.urgentEdge? names s = some first := by
  cases hfirst : a.urgentEdge? names s with
  | none => exact absurd himm (urgentEdge?_none.1 hfirst edge h)
  | some first => exact ⟨first, rfl⟩

theorem delays_of_stable (h : a.urgentEdge? names s = none) :
    a.delays names s = a.outgoing s := by
  refine List.filter_eq_self.2 fun edge hedge => ?_
  rw [LabelClass.isDelay_eq]
  simpa using urgentEdge?_none.1 h edge hedge

theorem Uniform.eq_first (h : a.Uniform names s) (hedge : edge ∈ a.outgoing s)
    (himm : (names.classify edge.label).isImmediate = true) :
    ∃ first, a.urgentEdge? names s = some first ∧ edge.label = first.label ∧
      edge.target = first.target := by
  obtain ⟨first, hfirst⟩ := exists_urgentEdge? hedge himm
  obtain ⟨hmem, hkind⟩ := urgentEdge?_some hfirst
  exact ⟨first, hfirst, h edge hedge first hmem himm hkind⟩

theorem settles_unique (hc : a.Settles names s c) (hd : a.Settles names s d) : c = d := by
  induction hc with
  | stable hnone =>
    cases hd with
    | stable => rfl
    | follow hsome _ => rw [hnone] at hsome; cases hsome
  | follow hsome _ ih =>
    cases hd with
    | stable hnone => rw [hnone] at hsome; cases hsome
    | follow hother hrest =>
      rw [hsome] at hother
      cases hother
      exact ih hrest

theorem Reached.live (hs : a.Reached names s) (h : a.Settles names s c) : a.Live names c := by
  induction h with
  | stable hnone => exact ⟨hs, hnone⟩
  | follow hsome _ ih => exact ih (hs.urgent hsome)

theorem Live.settles (h : a.Live names s) : a.Settles names s s := .stable h.2

theorem Reached.of_immediate (hs : a.Reached names s) (h : a.Uniform names s)
    (hedge : edge ∈ a.outgoing s) (himm : (names.classify edge.label).isImmediate = true) :
    a.Reached names edge.target := by
  obtain ⟨first, hfirst, -, htarget⟩ := h.eq_first hedge himm
  rw [htarget]
  exact hs.urgent hfirst

theorem Live.reached_target (h : a.Live names s) (hedge : edge ∈ a.delays names s) :
    a.Reached names edge.target :=
  h.1.patient h.2 hedge

theorem Proceeds.live (h : a.Proceeds names s c) : a.Live names c := by
  obtain ⟨hs, edge, hedge, hsettles⟩ := h
  exact (hs.reached_target hedge).live hsettles

theorem not_explicit_of_flows (h : Relation.TransGen (a.Flows names) s c) :
    ¬ a.Explicit names c := by
  cases h with
  | single hlast => exact hlast.2
  | tail _ hlast => exact hlast.2

theorem Entered.reached (huniform : ∀ s, a.Reached names s → a.Uniform names s)
    {status : Status} (h : a.Entered names status t) : a.Reached names t := by
  obtain ⟨s, edge, hs, hedge, hkind, rfl⟩ := h
  exact hs.of_immediate (huniform s hs) hedge (by rw [hkind]; rfl)

theorem getD_steps (a : Automaton) (names : Vocabulary) (s : StateId) :
    (a.steps names).getD s [] = (a.outgoing s).map (Step.ofEdge names) := by
  unfold steps
  rw [StateMap.getD_map rfl, getD_adjacency]

theorem find?_steps (a : Automaton) (names : Vocabulary) (s : StateId) :
    ((a.steps names).getD s []).find? Step.isImmediate =
      (a.urgentEdge? names s).map (Step.ofEdge names) := by
  rw [getD_steps, List.find?_map]
  rfl

theorem mem_successors : t ∈ Step.successors ((a.steps names).getD s []) ↔
    (∃ edge, a.urgentEdge? names s = some edge ∧ edge.target = t) ∨
    a.urgentEdge? names s = none ∧ ∃ edge ∈ a.delays names s, edge.target = t := by
  unfold Step.successors
  rw [find?_steps]
  cases hfirst : a.urgentEdge? names s with
  | none =>
    rw [delays_of_stable hfirst, getD_steps]
    simp [Step.ofEdge]
  | some edge => simp [Step.ofEdge, eq_comm]

theorem after_reached : t ∈ Moves.after
      ((a.steps names).map fun _ steps => Step.successors steps) s ↔
    t ∈ Step.successors ((a.steps names).getD s []) := by
  unfold Moves.after
  rw [StateMap.getD_map rfl]

theorem mem_reached : s ∈ a.reached names ↔ a.Reached names s := by
  unfold reached
  constructor
  · intro h
    obtain ⟨seed, hseed, hlead⟩ := mem_breadthFirst.1 h
    obtain rfl : seed = a.initial := by simpa using hseed
    -- along the moves of the search, each of which is a step under maximal progress
    induction hlead with
    | refl => exact .initial
    | tail hpath hmove ih =>
      have hbefore := ih (mem_breadthFirst.2 ⟨_, hseed, hpath⟩)
      rcases mem_successors.1 (after_reached.1 hmove) with ⟨edge, hedge, rfl⟩ |
        ⟨hnone, edge, hedge, rfl⟩
      · exact hbefore.urgent hedge
      · exact hbefore.patient hnone hedge
  · intro h
    induction h with
    | initial => exact mem_breadthFirst_of_seed (by simp)
    | urgent _ hedge ih =>
      exact mem_breadthFirst_of_move ih
        (after_reached.2 (mem_successors.2 (.inl ⟨_, hedge, rfl⟩)))
    | patient _ hnone hedge ih =>
      exact mem_breadthFirst_of_move ih
        (after_reached.2 (mem_successors.2 (.inr ⟨hnone, _, hedge, rfl⟩)))

end Automaton

end InteractiveMarkov
