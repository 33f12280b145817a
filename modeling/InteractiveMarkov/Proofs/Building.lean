import InteractiveMarkov.Automaton
import Mathlib.Data.List.Dedup
import Mathlib.Data.List.Perm.Subperm

set_option autoImplicit false

namespace InteractiveMarkov.Automaton

variable {a : Automaton} {s t initial : StateId} {node : Nat} {edge : Edge} {edges : List Edge}

theorem addState_known (hs : a.position[s]? = some node) : a.addState s = (a, node) := by
  rw [addState, hs]

theorem addState_new (hs : a.position[s]? = none) : a.addState s =
    ({ a with nodes := a.nodes.push s, position := a.position.insert s a.nodes.size },
      a.nodes.size) := by
  rw [addState, hs]

theorem addEdge_eq (hs : edge.source ∈ a.position) (ht : edge.target ∈ a.position) :
    a.addEdge edge = ({ a with edges := a.edges.push edge }, some a.edges.size) :=
  if_pos ⟨hs, ht⟩

theorem addEdge_unknown (h : ¬(edge.source ∈ a.position ∧ edge.target ∈ a.position)) :
    a.addEdge edge = (a, none) :=
  if_neg h

/-- The nodes are told apart by their states, and `position` knows which states have one. -/
structure Indexed (a : Automaton) : Prop where
  position : ∀ s, s ∈ a.position ↔ s ∈ a.nodes.toList
  nodup : a.nodes.toList.Nodup

theorem addState_fields (a : Automaton) (s : StateId) : (a.addState s).1.initial = a.initial ∧
    (a.addState s).1.declared = a.declared ∧ (a.addState s).1.edges = a.edges := by
  cases hs : a.position[s]? with
  | some node => rw [addState_known hs]; exact ⟨rfl, rfl, rfl⟩
  | none => rw [addState_new hs]; exact ⟨rfl, rfl, rfl⟩

theorem Indexed.addState (h : a.Indexed) (s : StateId) : (a.addState s).1.Indexed ∧
    ∀ t, t ∈ (a.addState s).1.nodes.toList ↔ t ∈ a.nodes.toList ∨ t = s := by
  cases hnode : a.position[s]? with
  | some node =>
    have hs : s ∈ a.nodes.toList := (h.position s).1 (StateMap.mem_of_getElem? hnode)
    rw [addState_known hnode]
    refine ⟨h, fun t => ⟨.inl, ?_⟩⟩
    rintro (ht | rfl)
    · exact ht
    · exact hs
  | none =>
    have hs : s ∉ a.nodes.toList := by
      rw [← h.position]
      exact StateMap.getElem?_eq_none_iff.1 hnode
    rw [addState_new hnode]
    refine ⟨⟨fun t => ?_, ?_⟩, fun t => by simp⟩
    · simp only [Std.ExtTreeMap.mem_insert, Std.LawfulEqCmp.compare_eq_iff_eq, h.position,
        Array.toList_push, List.mem_append, List.mem_singleton]
      rw [or_comm, eq_comm]
    · rw [Array.toList_push]
      refine List.nodup_append.2 ⟨h.nodup, List.pairwise_singleton _ s, fun t ht u hu heq => ?_⟩
      obtain rfl : u = s := by simpa using hu
      exact hs (heq ▸ ht)

theorem Indexed.extend (h : a.Indexed) (edge : Edge) : (a.extend edge).Indexed ∧
    (∀ t, t ∈ (a.extend edge).nodes.toList ↔
      t ∈ a.nodes.toList ∨ t = edge.source ∨ t = edge.target) ∧
    (a.extend edge).initial = a.initial ∧ (a.extend edge).declared = a.declared ∧
    (a.extend edge).edges.toList = a.edges.toList ++ [edge] := by
  obtain ⟨hfirst, hsource⟩ := h.addState edge.source
  obtain ⟨hboth, htarget⟩ := hfirst.addState edge.target
  have hin : a.extend edge = { ((a.addState edge.source).1.addState edge.target).1 with
      edges := ((a.addState edge.source).1.addState edge.target).1.edges.push edge } := by
    rw [Automaton.extend, addEdge_eq]
    · rw [hboth.position, htarget, hsource]
      exact .inl (.inr rfl)
    · rw [hboth.position, htarget]
      exact .inr rfl
  obtain ⟨hinitial, hdeclared, hedges⟩ := addState_fields (a.addState edge.source).1 edge.target
  obtain ⟨hinitial', hdeclared', hedges'⟩ := addState_fields a edge.source
  rw [hin]
  refine ⟨⟨hboth.position, hboth.nodup⟩, fun t => ?_, hinitial.trans hinitial',
    hdeclared.trans hdeclared', ?_⟩
  · rw [htarget, hsource, or_assoc]
  · rw [Array.toList_push, hedges, hedges']

/-- What an automaton is after edges were added one after the other. -/
structure Extended (a : Automaton) (edges : List Edge) (b : Automaton) : Prop where
  indexed : b.Indexed
  nodes : ∀ t, t ∈ b.nodes.toList ↔
    t ∈ a.nodes.toList ∨ ∃ edge ∈ edges, t = edge.source ∨ t = edge.target
  initial : b.initial = a.initial
  declared : b.declared = a.declared
  edges : b.edges.toList = a.edges.toList ++ edges

theorem extended_foldl (h : a.Indexed) (edges : List Edge) :
    a.Extended edges (edges.foldl extend a) := by
  induction edges generalizing a with
  | nil => exact ⟨h, by simp, rfl, rfl, by simp⟩
  | cons edge rest ih =>
    obtain ⟨hindexed, hnodes, hinitial, hdeclared, hedges⟩ := h.extend edge
    have hrest := ih hindexed
    refine ⟨hrest.indexed, fun t => ?_, hrest.initial.trans hinitial,
      hrest.declared.trans hdeclared, ?_⟩
    · rw [List.foldl_cons, hrest.nodes, hnodes]
      simp only [List.mem_cons, exists_eq_or_imp, or_assoc]
    · rw [List.foldl_cons, hrest.edges, hedges]
      simp

theorem indexed_withDeclared (initial : StateId) (declared : Nat) :
    (withDeclared initial declared).Indexed where
  position s := by
    simp [withDeclared, Std.ExtTreeMap.mem_insert, Std.LawfulEqCmp.compare_eq_iff_eq,
      eq_comm (a := s)]
  nodup := List.pairwise_singleton _ initial

theorem extended_withDeclared (initial : StateId) (declared : Nat) (edges : List Edge) :
    (withDeclared initial declared).Extended edges
      (edges.foldl extend (withDeclared initial declared)) :=
  extended_foldl (indexed_withDeclared initial declared) edges

theorem Extended.size_le {declared : Nat} {b : Automaton}
    (h : (withDeclared initial declared).Extended edges b) (hinitial : initial < declared)
    (hedges : ∀ edge ∈ edges, edge.source < declared ∧ edge.target < declared) :
    b.nodes.size ≤ declared := by
  have hbelow : b.nodes.toList ⊆ List.range declared := by
    intro t ht
    rw [List.mem_range]
    rcases (h.nodes t).1 ht with ht | ⟨edge, hedge, rfl | rfl⟩
    · obtain rfl := List.mem_singleton.1 ht
      exact hinitial
    · exact (hedges edge hedge).1
    · exact (hedges edge hedge).2
  have hsize := (List.subperm_of_subset h.indexed.nodup hbelow).length_le
  rwa [List.length_range, Array.length_toList] at hsize

theorem Extended.stateCount_eq {declared : Nat} {b : Automaton}
    (h : (withDeclared initial declared).Extended edges b) (hinitial : initial < declared)
    (hedges : ∀ edge ∈ edges, edge.source < declared ∧ edge.target < declared) :
    b.stateCount = declared := by
  rw [stateCount, h.declared]
  exact Nat.max_eq_right (h.size_le hinitial hedges)

theorem countP_not_add {α : Type} (q : α → Bool) (l : List α) :
    l.countP (fun x => !q x) + l.countP q = l.length := by
  rw [List.length_eq_countP_add_countP q, Nat.add_comm]
  congr 1
  apply List.countP_congr
  intro x _
  rw [Bool.not_eq_true', decide_eq_true_eq, Bool.not_eq_true]

theorem mem_group {α : Type} {pairs : List (StateId × α)} :
    s ∈ StateMap.group pairs ↔ s ∈ pairs.map (·.1) := by
  induction pairs with
  | nil => simp [StateMap.group]
  | cons pair rest ih =>
    have hstep : StateMap.group (pair :: rest) =
        (StateMap.group rest).insert pair.1 (pair.2 :: (StateMap.group rest).getD pair.1 []) := rfl
    rw [hstep, Std.ExtTreeMap.mem_insert, Std.LawfulEqCmp.compare_eq_iff_eq, ih, List.map_cons,
      List.mem_cons, eq_comm]

theorem mem_adjacency : s ∈ a.adjacency ↔ s ∈ a.edges.toList.map Edge.source := by
  rw [adjacency, mem_group, List.map_map]
  rfl

theorem Indexed.length_deadlocks (h : a.Indexed)
    (hsources : ∀ edge ∈ a.edges.toList, edge.source ∈ a.nodes.toList) :
    a.deadlocks.length + (a.edges.toList.map Edge.source).dedup.length = a.nodes.size := by
  have hleaving : (a.edges.toList.map Edge.source).dedup.Perm
      (a.nodes.toList.filter fun s => a.adjacency.contains s) := by
    apply (List.perm_ext_iff_of_nodup (List.nodup_dedup _) (h.nodup.filter _)).2
    intro s
    rw [List.mem_dedup, List.mem_filter, Std.ExtTreeMap.contains_iff_mem, mem_adjacency]
    refine ⟨fun hs => ⟨?_, hs⟩, And.right⟩
    obtain ⟨edge, hedge, rfl⟩ := List.mem_map.1 hs
    exact hsources edge hedge
  rw [deadlocks, List.length_mergeSort, hleaving.length_eq, ← List.countP_eq_length_filter,
    ← List.countP_eq_length_filter, countP_not_add, Array.length_toList]

theorem Extended.deadlocks_eq {declared : Nat} {b : Automaton}
    (h : (withDeclared initial declared).Extended edges b) (hinitial : initial < declared)
    (hedges : ∀ edge ∈ edges, edge.source < declared ∧ edge.target < declared) :
    b.shape.deadlocks + (edges.map Edge.source).dedup.length = declared := by
  have hlist : b.edges.toList = edges := h.edges
  have hsources : ∀ edge ∈ b.edges.toList, edge.source ∈ b.nodes.toList := by
    intro edge hedge
    rw [hlist] at hedge
    exact (h.nodes edge.source).2 (.inr ⟨edge, hedge, .inl rfl⟩)
  have hnodes := h.indexed.length_deadlocks hsources
  rw [hlist] at hnodes
  have hsize := h.size_le hinitial hedges
  have hdeclared : b.declared = declared := h.declared
  have hshape : b.shape.deadlocks = b.deadlocks.length + (b.declared - b.nodes.size) := rfl
  rw [hshape, hdeclared]
  omega

end InteractiveMarkov.Automaton
