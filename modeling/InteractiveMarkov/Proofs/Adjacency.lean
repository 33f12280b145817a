import InteractiveMarkov.Proofs.Building
import Mathlib.Data.List.Forall2
import Mathlib.Data.List.Induction
import Mathlib.Data.List.Sort

/-!
# An automaton kept in adjacency lists

`Automaton` names the ends of an edge by their states. A graph may instead keep an edge as an arc
between numbered nodes and file, with every node, the numbers of the arcs that leave it, in an
order of its own. An index leads from a state to its node. Arcs are numbered in the order in which
they are added, so that sorting such a list brings this order back, and whatever is asked of the
automaton has the same answer there.
-/

set_option autoImplicit false

namespace InteractiveMarkov

/-! ## Graphs -/

structure Arc where
  tail : Nat
  label : String
  head : Nat

/-- Nodes and arcs are numbered in the order in which they were added. Every node has a list of
    the arcs that leave it. -/
structure Digraph where
  nodes : Array StateId
  arcs : Array Arc
  leaving : Array (List Nat)

namespace Digraph

variable (file : List Nat → Nat → List Nat)

def empty : Digraph := ⟨#[], #[], #[]⟩

def addNode (g : Digraph) (s : StateId) : Digraph × Nat :=
  ({ g with nodes := g.nodes.push s, leaving := g.leaving.push [] }, g.nodes.size)

def addArc (g : Digraph) (arc : Arc) : Digraph × Nat :=
  ({ g with
      arcs := g.arcs.push arc
      leaving := g.leaving.modify arc.tail (file · g.arcs.size) }, g.arcs.size)

def leavingAt (g : Digraph) (node : Nat) : List Nat := g.leaving[node]?.getD []

end Digraph

structure Network where
  initial : StateId
  declared : Nat
  graph : Digraph
  index : StateMap Nat

namespace Network

variable (file : List Nat → Nat → List Nat)

def addState (n : Network) (s : StateId) : Network × Nat :=
  match n.index[s]? with
  | some node => (n, node)
  | none =>
    let (graph, node) := n.graph.addNode s
    ({ n with graph := graph, index := n.index.insert s node }, node)

def withDeclared (initial : StateId) (declared : Nat) : Network :=
  (addState ⟨initial, declared, .empty, ∅⟩ initial).1

def addEdge (n : Network) (edge : Edge) : Network × Option Nat :=
  match n.index[edge.source]?, n.index[edge.target]? with
  | some tail, some head =>
    let (graph, place) := n.graph.addArc file ⟨tail, edge.label, head⟩
    ({ n with graph := graph }, some place)
  | _, _ => (n, none)

/-- The arcs filed with the node of a state, sorted by number, as edges. -/
def outgoing (n : Network) (s : StateId) : List Edge :=
  match n.index[s]? with
  | none => []
  | some node => ((n.graph.leavingAt node).mergeSort.filterMap (n.graph.arcs[·]?)).filterMap
      fun arc => n.graph.nodes[arc.head]?.map (⟨s, arc.label, ·⟩)

def edges (n : Network) : List Edge :=
  n.graph.arcs.toList.filterMap fun arc => do
    return ⟨← n.graph.nodes[arc.tail]?, arc.label, ← n.graph.nodes[arc.head]?⟩

def deadlocks (n : Network) : List StateId :=
  (((List.range n.graph.nodes.size).filter fun node => (n.graph.leavingAt node).isEmpty).filterMap
    (n.graph.nodes[·]?)).mergeSort

def shape (n : Network) : Automaton.Shape where
  states := max n.graph.nodes.size n.declared
  edges := n.graph.arcs.size
  deadlocks := n.deadlocks.length + (n.declared - n.graph.nodes.size)
  initial := n.initial

end Network

/-- A new arc is filed once and no other is lost, wherever in the list it is put. -/
def FilesOnce (file : List Nat → Nat → List Nat) : Prop :=
  ∀ filed place, (file filed place).Perm (place :: filed)

/-! ## Places in a list -/

theorem filterMap_places {α : Type} (xs : List α) :
    (List.range xs.length).filterMap (xs[·]?) = xs := by
  induction xs using List.reverseRecOn with
  | nil => rfl
  | append_singleton xs x ih =>
    have hsame : (List.range xs.length).filterMap ((xs ++ [x])[·]?) =
        (List.range xs.length).filterMap (xs[·]?) := by
      refine List.filterMap_congr fun i hi => ?_
      rw [List.getElem?_append_left (List.mem_range.1 hi)]
    rw [List.length_append, List.length_singleton, List.range_succ, List.filterMap_append, hsame,
      ih]
    simp

theorem filterMap_filter_places {α : Type} {xs : List α} {p : Nat → Bool} {q : α → Bool}
    (h : ∀ (i : Nat) (x : α), xs[i]? = some x → p i = q x) :
    ((List.range xs.length).filter p).filterMap (xs[·]?) = xs.filter q := by
  conv_rhs => rw [← filterMap_places xs, List.filter_filterMap]
  rw [List.filterMap_filter]
  refine List.filterMap_congr fun i _ => ?_
  cases hi : xs[i]? with
  | none => simp
  | some x => simp [h i x hi, Option.filter]

theorem filterMap_of_forall₂ {α β : Type} {R : α → β → Prop} {f : α → Option β} {xs : List α}
    {ys : List β} (h : List.Forall₂ R xs ys) (hf : ∀ x, ∀ y ∈ ys, R x y → f x = some y) :
    xs.filterMap f = ys := by
  induction h with
  | nil => rfl
  | cons hxy _ ih =>
    rw [List.filterMap_cons_some (hf _ _ List.mem_cons_self hxy),
      ih fun x y hy => hf x y (List.mem_cons_of_mem _ hy)]

/-! ## What the adjacency lists hold -/

/-- Every arc leaves a node and is filed with this node once. -/
structure Digraph.Filed (g : Digraph) : Prop where
  rows : g.leaving.size = g.nodes.size
  tail : ∀ (place : Nat) (arc : Arc), g.arcs[place]? = some arc → arc.tail < g.nodes.size
  nodup : ∀ node : Nat, (g.leavingAt node).Nodup
  mem : ∀ node place : Nat, place ∈ g.leavingAt node ↔
    ∃ arc, g.arcs[place]? = some arc ∧ arc.tail = node

namespace Digraph

variable {file : List Nat → Nat → List Nat} {g : Digraph} {arc : Arc} {s : StateId} {node : Nat}

theorem filed_empty : empty.Filed where
  rows := rfl
  tail place arc h := by simp [empty] at h
  nodup node := by simp [leavingAt, empty]
  mem node place := by simp [leavingAt, empty]

theorem leavingAt_addNode (g : Digraph) (s : StateId) (node : Nat) :
    (g.addNode s).1.leavingAt node = g.leavingAt node := by
  simp only [addNode, leavingAt, Array.getElem?_push]
  by_cases hnode : node = g.leaving.size <;> simp [hnode]

theorem Filed.addNode (h : g.Filed) (s : StateId) : (g.addNode s).1.Filed where
  rows := by simp [Digraph.addNode, h.rows]
  tail place arc harc := by
    have hlt := h.tail place arc harc
    simp only [Digraph.addNode, Array.size_push]
    omega
  nodup node := by
    rw [leavingAt_addNode]
    exact h.nodup node
  mem node place := by
    rw [leavingAt_addNode]
    exact h.mem node place

theorem leavingAt_addArc (htail : arc.tail < g.leaving.size) (node : Nat) :
    (g.addArc file arc).1.leavingAt node =
      if arc.tail = node then file (g.leavingAt node) g.arcs.size else g.leavingAt node := by
  simp only [addArc, leavingAt, Array.getElem?_modify]
  by_cases hnode : arc.tail = node
  · subst hnode
    simp [htail]
  · simp [hnode]

theorem Filed.addArc (h : g.Filed) (hfile : FilesOnce file) (htail : arc.tail < g.nodes.size) :
    (g.addArc file arc).1.Filed where
  rows := by simp [Digraph.addArc, h.rows]
  tail place other hother := by
    simp only [Digraph.addArc, Array.getElem?_push] at hother ⊢
    split at hother
    · exact Option.some.inj hother ▸ htail
    · exact h.tail place other hother
  nodup node := by
    rw [leavingAt_addArc (h.rows ▸ htail)]
    split
    · -- the new number is beyond all that are filed
      have hnew : g.arcs.size ∉ g.leavingAt node := by simp [h.mem]
      exact (hfile _ _).nodup_iff.2 (List.nodup_cons.2 ⟨hnew, h.nodup node⟩)
    · exact h.nodup node
  mem node place := by
    rw [leavingAt_addArc (h.rows ▸ htail)]
    simp only [Digraph.addArc, Array.getElem?_push]
    by_cases hnode : arc.tail = node <;> by_cases hplace : place = g.arcs.size <;>
      simp [hnode, hplace, (hfile _ _).mem_iff, h.mem]

theorem Filed.sorted (h : g.Filed) (node : Nat) : (g.leavingAt node).mergeSort =
    (List.range g.arcs.toList.length).filter fun place =>
      g.arcs.toList[place]?.any (·.tail = node) := by
  have hranged : ((List.range g.arcs.toList.length).filter fun place =>
      g.arcs.toList[place]?.any (·.tail = node)).SortedLE :=
    ((List.pairwise_lt_range.filter _).imp Nat.le_of_lt).sortedLE
  apply List.Perm.eq_of_sortedLE List.sortedLE_mergeSort hranged
  apply (List.mergeSort_perm _ _).trans
  apply (List.perm_ext_iff_of_nodup (h.nodup node) (List.nodup_range.filter _)).2
  intro place
  rw [h.mem, List.mem_filter, List.mem_range, Option.any_eq_true]
  simp only [Array.getElem?_toList, decide_eq_true_eq]
  constructor
  · rintro ⟨arc, harc, htail⟩
    exact ⟨by simpa using (Array.getElem?_eq_some_iff.1 harc).1, arc, harc, htail⟩
  · exact fun hmem => hmem.2

end Digraph

/-! ## The index -/

namespace Automaton

variable {a : Automaton} {s t : StateId} {node : Nat} {edge : Edge}

theorem outgoing_eq_nil_iff : a.outgoing s = [] ↔ s ∉ a.adjacency := by
  simp [outgoing, mem_adjacency, List.filter_eq_nil_iff]

def Numbered (a : Automaton) : Prop :=
  ∀ (s : StateId) (node : Nat), a.position[s]? = some node ↔ a.nodes[node]? = some s

theorem Numbered.addState (h : a.Numbered) (s : StateId) : (a.addState s).1.Numbered := by
  cases hs : a.position[s]? with
  | some node =>
    rw [addState_known hs]
    exact h
  | none =>
    rw [addState_new hs]
    intro t node
    simp only [Std.ExtTreeMap.getElem?_insert, Std.LawfulEqCmp.compare_eq_iff_eq,
      Array.getElem?_push]
    by_cases ht : s = t <;> by_cases hnode : node = a.nodes.size
    · simp [ht, hnode]
    · -- no older node has the new state
      have hold : a.nodes[node]? ≠ some t := by rw [Ne, ← h t node, ← ht, hs]; simp
      simp [ht, hnode, hold, Ne.symm hnode]
    · -- no older state has the new node
      have hold : a.position[t]? ≠ some a.nodes.size := by simp [h t a.nodes.size]
      simp [ht, hnode, hold]
    · simp [ht, hnode, h t node]

theorem Numbered.mem_iff (h : a.Numbered) (s : StateId) :
    s ∈ a.position ↔ s ∈ a.nodes.toList := by
  rw [StateMap.mem_iff_exists, List.mem_iff_getElem?]
  simp only [h s, Array.getElem?_toList]

theorem Numbered.indexed (h : a.Numbered) : a.Indexed where
  position := h.mem_iff
  nodup := by
    refine List.pairwise_iff_getElem.2 fun i j hi hj hlt heq => ?_
    have hfirst := (h a.nodes.toList[i] i).2 (by simp [Array.getElem?_eq_getElem hi])
    have hsecond := (h a.nodes.toList[j] j).2 (by simp [Array.getElem?_eq_getElem hj])
    rw [heq, hsecond] at hfirst
    exact Nat.ne_of_gt hlt (Option.some.inj hfirst)

def bare (initial : StateId) (declared : Nat) : Automaton := ⟨initial, declared, #[], ∅, #[]⟩

theorem numbered_bare (initial : StateId) (declared : Nat) : (bare initial declared).Numbered := by
  intro s node
  simp [bare]

theorem withDeclared_eq (initial : StateId) (declared : Nat) :
    withDeclared initial declared = ((bare initial declared).addState initial).1 := by
  rw [addState_new (by simp [bare])]
  rfl

end Automaton

/-! ## The network of an automaton -/

structure Arc.Joins (arc : Arc) (nodes : Array StateId) (edge : Edge) : Prop where
  tail : nodes[arc.tail]? = some edge.source
  head : nodes[arc.head]? = some edge.target
  label : arc.label = edge.label

/-- The network has the nodes and the index of an automaton, an arc for each of its edges, and
    every arc in the list of its tail. -/
structure Network.Keeps (n : Network) (a : Automaton) : Prop where
  initial : n.initial = a.initial
  declared : n.declared = a.declared
  nodes : n.graph.nodes = a.nodes
  index : n.index = a.position
  numbered : a.Numbered
  joins : List.Forall₂ (fun arc edge => arc.Joins a.nodes edge) n.graph.arcs.toList a.edges.toList
  filed : n.graph.Filed

namespace Network

variable {file : List Nat → Nat → List Nat} {n : Network} {a : Automaton} {s : StateId}
  {nodes : Array StateId} {arc : Arc} {edge : Edge}

theorem joins_push (h : arc.Joins nodes edge) (s : StateId) : arc.Joins (nodes.push s) edge where
  tail := by
    have hlt := (Array.getElem?_eq_some_iff.1 h.tail).1
    rw [Array.getElem?_push_lt hlt, ← Array.getElem?_eq_getElem hlt, h.tail]
  head := by
    have hlt := (Array.getElem?_eq_some_iff.1 h.head).1
    rw [Array.getElem?_push_lt hlt, ← Array.getElem?_eq_getElem hlt, h.head]
  label := h.label

theorem keeps_bare (initial : StateId) (declared : Nat) :
    (⟨initial, declared, .empty, ∅⟩ : Network).Keeps (.bare initial declared) where
  initial := rfl
  declared := rfl
  nodes := rfl
  index := rfl
  numbered := Automaton.numbered_bare initial declared
  joins := .nil
  filed := Digraph.filed_empty

theorem addState_known {node : Nat} (hs : n.index[s]? = some node) : n.addState s = (n, node) := by
  rw [addState, hs]

theorem addState_new (hs : n.index[s]? = none) : n.addState s =
    ({ n with
        graph := (n.graph.addNode s).1
        index := n.index.insert s n.graph.nodes.size }, n.graph.nodes.size) := by
  rw [addState, hs]
  rfl

theorem addEdge_known {tail head : Nat} (hs : n.index[edge.source]? = some tail)
    (ht : n.index[edge.target]? = some head) : n.addEdge file edge =
      ({ n with graph := (n.graph.addArc file ⟨tail, edge.label, head⟩).1 },
        some n.graph.arcs.size) := by
  rw [addEdge, hs, ht]
  rfl

theorem addEdge_unknown (h : ¬(edge.source ∈ n.index ∧ edge.target ∈ n.index)) :
    n.addEdge file edge = (n, none) := by
  unfold addEdge
  split
  · exact absurd ⟨StateMap.mem_of_getElem? ‹_›, StateMap.mem_of_getElem? ‹_›⟩ h
  · rfl

theorem Keeps.addState (h : n.Keeps a) (s : StateId) :
    (n.addState s).1.Keeps (a.addState s).1 ∧ (n.addState s).2 = (a.addState s).2 := by
  have hnumbered := h.numbered.addState s
  have hsize : n.graph.nodes.size = a.nodes.size := congrArg Array.size h.nodes
  cases hs : a.position[s]? with
  | some node =>
    rw [addState_known (h.index ▸ hs), Automaton.addState_known hs]
    exact ⟨h, rfl⟩
  | none =>
    rw [Automaton.addState_new hs] at hnumbered ⊢
    rw [addState_new (h.index ▸ hs)]
    refine ⟨?_, hsize⟩
    exact {
      initial := h.initial
      declared := h.declared
      nodes := congrArg (·.push s) h.nodes
      index := by rw [h.index, hsize]
      numbered := hnumbered
      joins := h.joins.imp fun arc edge hjoins => joins_push hjoins s
      filed := h.filed.addNode s }

theorem keeps_withDeclared (initial : StateId) (declared : Nat) :
    (withDeclared initial declared).Keeps (.withDeclared initial declared) := by
  rw [Automaton.withDeclared_eq]
  exact ((keeps_bare initial declared).addState initial).1

theorem Keeps.arcs_size (h : n.Keeps a) : n.graph.arcs.size = a.edges.size := by
  simpa using h.joins.length_eq

theorem Keeps.addEdge (h : n.Keeps a) (hfile : FilesOnce file) (edge : Edge) :
    (n.addEdge file edge).1.Keeps (a.addEdge edge).1 ∧
      (n.addEdge file edge).2 = (a.addEdge edge).2 := by
  by_cases hboth : edge.source ∈ a.position ∧ edge.target ∈ a.position
  · obtain ⟨tail, hs⟩ := StateMap.mem_iff_exists.1 hboth.1
    obtain ⟨head, ht⟩ := StateMap.mem_iff_exists.1 hboth.2
    have htail := (h.numbered edge.source tail).1 hs
    have hhead := (h.numbered edge.target head).1 ht
    rw [addEdge_known (h.index ▸ hs) (h.index ▸ ht), Automaton.addEdge_eq hboth.1 hboth.2]
    refine ⟨?_, congrArg some h.arcs_size⟩
    exact {
      initial := h.initial
      declared := h.declared
      nodes := h.nodes
      index := h.index
      numbered := h.numbered
      joins := by
        simp only [Digraph.addArc, Array.toList_push]
        exact List.rel_append h.joins (.cons ⟨htail, hhead, rfl⟩ .nil)
      filed := by
        refine h.filed.addArc hfile ?_
        rw [h.nodes]
        exact (Array.getElem?_eq_some_iff.1 htail).1 }
  · rw [addEdge_unknown (h.index ▸ hboth), Automaton.addEdge_unknown hboth]
    exact ⟨h, rfl⟩

/-! ## Reading the network -/

theorem Keeps.edges_eq (h : n.Keeps a) : n.edges = a.edges.toList := by
  refine filterMap_of_forall₂ h.joins fun arc edge _ hjoins => ?_
  simp [h.nodes, hjoins.tail, hjoins.head, hjoins.label]

theorem Keeps.joins_outgoing (h : n.Keeps a) {p : Arc → Bool}
    (hp : ∀ arc edge, arc.Joins a.nodes edge → (p arc = true ↔ edge.source = s)) :
    List.Forall₂ (fun arc edge => arc.Joins a.nodes edge) (n.graph.arcs.toList.filter p)
      (a.outgoing s) :=
  List.rel_filter (fun arc edge hjoins => by simpa using hp arc edge hjoins) h.joins

theorem Keeps.outgoing_nil (h : n.Keeps a) (hs : a.position[s]? = none) : a.outgoing s = [] := by
  have hnone : ∀ arc edge, Arc.Joins arc a.nodes edge → (false = true ↔ edge.source = s) := by
    intro arc edge hjoins
    have htail := (h.numbered edge.source arc.tail).2 hjoins.tail
    refine ⟨fun hfalse => absurd hfalse Bool.false_ne_true, fun hsource => ?_⟩
    rw [hsource, hs] at htail
    cases htail
  simpa using h.joins_outgoing hnone

theorem Keeps.joins_node (h : n.Keeps a) {node : Nat} (hs : a.position[s]? = some node) :
    List.Forall₂ (fun arc edge => arc.Joins a.nodes edge)
      (n.graph.arcs.toList.filter (·.tail = node)) (a.outgoing s) := by
  refine h.joins_outgoing fun arc edge hjoins => ?_
  rw [decide_eq_true_eq]
  constructor
  · intro htail
    have hsource := hjoins.tail
    rw [htail, (h.numbered s node).1 hs] at hsource
    exact (Option.some.inj hsource).symm
  · intro hsource
    have htail := (h.numbered edge.source arc.tail).2 hjoins.tail
    rw [hsource, hs] at htail
    exact (Option.some.inj htail).symm

theorem Keeps.outgoing_eq (h : n.Keeps a) (s : StateId) : n.outgoing s = a.outgoing s := by
  unfold Network.outgoing
  rw [h.index]
  cases hs : a.position[s]? with
  | none => exact (h.outgoing_nil hs).symm
  | some node =>
    have hplaces : ((n.graph.leavingAt node).mergeSort.filterMap (n.graph.arcs[·]?)) =
        n.graph.arcs.toList.filter (·.tail = node) := by
      rw [h.filed.sorted]
      simp only [← Array.getElem?_toList]
      exact filterMap_filter_places fun i arc hi => by simp [hi]
    simp only [hplaces]
    refine filterMap_of_forall₂ (h.joins_node hs) fun arc edge hedge hjoins => ?_
    have hsource : edge.source = s := by simpa using (List.mem_filter.1 hedge).2
    simp [h.nodes, hjoins.head, hjoins.label, ← hsource]

theorem Keeps.leavingAt_nil_iff (h : n.Keeps a) {node : Nat} (hs : a.position[s]? = some node) :
    n.graph.leavingAt node = [] ↔ a.outgoing s = [] := by
  have harcs : n.graph.leavingAt node = [] ↔ n.graph.arcs.toList.filter (·.tail = node) = [] := by
    rw [List.eq_nil_iff_forall_not_mem, List.filter_eq_nil_iff]
    simp only [h.filed.mem, decide_eq_true_eq, Array.mem_toList_iff, Array.mem_iff_getElem?]
    exact ⟨fun hnone arc ⟨place, harc⟩ htail => hnone place ⟨arc, harc, htail⟩,
      fun hnone place ⟨arc, harc, htail⟩ => hnone arc ⟨place, harc⟩ htail⟩
  rw [harcs, ← List.length_eq_zero_iff, (h.joins_node hs).length_eq, List.length_eq_zero_iff]

theorem Keeps.deadlocks_eq (h : n.Keeps a) : n.deadlocks = a.deadlocks := by
  unfold Network.deadlocks Automaton.deadlocks
  rw [h.nodes, ← Array.length_toList]
  simp only [← Array.getElem?_toList]
  congr 1
  refine filterMap_filter_places fun node s hnode => ?_
  have hs := (h.numbered s node).2 (by rw [← hnode, Array.getElem?_toList])
  rw [Bool.eq_iff_iff, List.isEmpty_iff, h.leavingAt_nil_iff hs, StateMap.not_contains,
    Automaton.outgoing_eq_nil_iff]

theorem Keeps.shape_eq (h : n.Keeps a) : n.shape = a.shape := by
  simp only [Network.shape, Automaton.shape, Automaton.stateCount, Automaton.edgeCount, h.nodes,
    h.declared, h.initial, h.deadlocks_eq, h.arcs_size]

end Network

end InteractiveMarkov
