import InteractiveMarkov.Proofs.Adjacency
import InteractiveMarkov.Proofs.Numbering

set_option autoImplicit false

namespace InteractiveMarkov

inductive Call where
  | state (s : StateId)
  | edge (edge : Edge)

def named (calls : List Call) : List StateId :=
  calls.filterMap fun
    | .state s => some s
    | .edge _ => none

/-- The edges that calls add, given the states named before: both ends have to be known. -/
def accepted (known : List StateId) : List Call → List Edge
  | [] => []
  | .state s :: calls => accepted (known ++ [s]) calls
  | .edge edge :: calls =>
    if edge.source ∈ known ∧ edge.target ∈ known then edge :: accepted known calls
    else accepted known calls

/-- Makes a call. The answer is the number of the node or, if the edge is accepted, its own. -/
def Automaton.call (a : Automaton) : Call → Automaton × Option Nat
  | .state s => ((a.addState s).1, some (a.addState s).2)
  | .edge edge => a.addEdge edge

def Automaton.grow (a : Automaton) (calls : List Call) : Automaton :=
  calls.foldl (fun a call => (a.call call).1) a

def Network.call (file : List Nat → Nat → List Nat) (n : Network) : Call → Network × Option Nat
  | .state s => ((n.addState s).1, some (n.addState s).2)
  | .edge edge => n.addEdge file edge

def Network.grow (file : List Nat → Nat → List Nat) (n : Network) (calls : List Call) : Network :=
  calls.foldl (fun n call => (n.call file call).1) n

variable {calls : List Call} {known : List StateId} {s : StateId} {edge : Edge}

theorem named_append (calls more : List Call) : named (calls ++ more) = named calls ++ named more :=
  List.filterMap_append

theorem accepted_append (known : List StateId) (calls more : List Call) :
    accepted known (calls ++ more) =
      accepted known calls ++ accepted (known ++ named calls) more := by
  induction calls generalizing known with
  | nil => simp [accepted, named]
  | cons call calls ih =>
    cases call with
    | state s => simpa [accepted, named] using ih (known ++ [s])
    | edge edge =>
      have hnamed : named (.edge edge :: calls) = named calls := rfl
      rw [List.cons_append, accepted, accepted, ih, hnamed]
      split <;> rfl

theorem known_of_accepted (h : edge ∈ accepted known calls) :
    edge.source ∈ known ++ named calls ∧ edge.target ∈ known ++ named calls := by
  induction calls generalizing known with
  | nil => simp [accepted] at h
  | cons call calls ih =>
    cases call with
    | state s =>
      have hrest := ih h
      simpa [named] using hrest
    | edge other =>
      have hnamed : named (.edge other :: calls) = named calls := rfl
      rw [accepted] at h
      rw [hnamed]
      split at h
      · rename_i hknown
        rcases List.mem_cons.1 h with rfl | hmem
        · exact ⟨List.mem_append_left _ hknown.1, List.mem_append_left _ hknown.2⟩
        · exact ih hmem
      · exact ih h

theorem eraseDups_concat (xs : List StateId) (s : StateId) :
    (xs ++ [s]).eraseDups = if s ∈ xs then xs.eraseDups else xs.eraseDups ++ [s] := by
  rw [List.eraseDups_append]
  by_cases hs : s ∈ xs <;> simp [List.removeAll, hs, List.eraseDups_cons]

namespace Automaton

variable {root : StateId} {declared : Nat} {a : Automaton}

structure Records (root : StateId) (declared : Nat) (calls : List Call) (a : Automaton) :
    Prop where
  initial : a.initial = root
  declared : a.declared = declared
  numbered : a.Numbered
  nodes : a.nodes.toList = (root :: named calls).eraseDups
  edges : a.edges.toList = accepted [root] calls

theorem Records.known_iff (h : Records root declared calls a) (s : StateId) :
    s ∈ a.position ↔ s ∈ root :: named calls := by
  rw [h.numbered.mem_iff, h.nodes, List.mem_eraseDups]

theorem records_withDeclared (root : StateId) (declared : Nat) :
    Records root declared [] (withDeclared root declared) where
  initial := rfl
  declared := rfl
  numbered := by
    rw [withDeclared_eq]
    exact (numbered_bare root declared).addState root
  nodes := by simp [withDeclared, named, List.eraseDups_cons]
  edges := rfl

theorem Records.addState (h : Records root declared calls a) (s : StateId) :
    Records root declared (calls ++ [.state s]) (a.addState s).1 := by
  obtain ⟨hinitial, hdeclared, hedges⟩ := addState_fields a s
  refine ⟨hinitial.trans h.initial, hdeclared.trans h.declared, h.numbered.addState s, ?_, ?_⟩
  · rw [named_append, ← List.cons_append]
    have hs : named [.state s] = [s] := rfl
    rw [hs, eraseDups_concat, ← h.nodes]
    cases hnode : a.position[s]? with
    | some node =>
      rw [addState_known hnode, if_pos ((h.known_iff s).1 (StateMap.mem_of_getElem? hnode))]
    | none =>
      have hnew : s ∉ root :: named calls := fun hmem =>
        StateMap.getElem?_eq_none_iff.1 hnode ((h.known_iff s).2 hmem)
      rw [addState_new hnode, if_neg hnew, Array.toList_push]
  · rw [hedges, h.edges, accepted_append]
    simp [accepted]

theorem Records.addEdge (h : Records root declared calls a) (edge : Edge) :
    Records root declared (calls ++ [.edge edge]) (a.addEdge edge).1 := by
  have hnamed : named (calls ++ [.edge edge]) = named calls := by simp [named]
  have hknown : (edge.source ∈ a.position ∧ edge.target ∈ a.position) ↔
      edge.source ∈ [root] ++ named calls ∧ edge.target ∈ [root] ++ named calls := by
    rw [h.known_iff, h.known_iff]
    rfl
  have hadded := accepted_append [root] calls [.edge edge]
  rw [accepted, accepted, ← h.edges] at hadded
  by_cases hboth : edge.source ∈ a.position ∧ edge.target ∈ a.position
  · rw [if_pos (hknown.1 hboth)] at hadded
    rw [addEdge_eq hboth.1 hboth.2]
    exact ⟨h.initial, h.declared, h.numbered, hnamed ▸ h.nodes, by rw [hadded, Array.toList_push]⟩
  · rw [if_neg (fun hmem => hboth (hknown.2 hmem)), List.append_nil] at hadded
    rw [addEdge_unknown hboth]
    exact ⟨h.initial, h.declared, h.numbered, hnamed ▸ h.nodes, hadded.symm⟩

theorem grow_append (a : Automaton) (calls : List Call) (call : Call) :
    a.grow (calls ++ [call]) = ((a.grow calls).call call).1 := by
  rw [grow, List.foldl_append]
  rfl

theorem records_grow (root : StateId) (declared : Nat) (calls : List Call) :
    Records root declared calls ((withDeclared root declared).grow calls) := by
  induction calls using List.reverseRecOn with
  | nil => exact records_withDeclared root declared
  | append_singleton calls call ih =>
    rw [grow_append]
    cases call with
    | state s => exact ih.addState s
    | edge edge => exact ih.addEdge edge

/-- What an automaton holds after calls, what it answers to a further one and what it says of its
    edges and deadlocks. -/
structure Grown (root : StateId) (declared : Nat) (calls : List Call) (a : Automaton) : Prop
    extends Records root declared calls a where
  rooted : a.position[root]? = some 0
  state : ∀ s, (a.addState s).2 = (root :: named calls ++ [s]).eraseDups.idxOf s
  accepts : ∀ edge : Edge, edge.source ∈ root :: named calls → edge.target ∈ root :: named calls →
    a.addEdge edge = ({ a with edges := a.edges.push edge }, some (accepted [root] calls).length)
  refuses : ∀ edge : Edge,
    ¬(edge.source ∈ root :: named calls ∧ edge.target ∈ root :: named calls) →
      a.addEdge edge = (a, none)
  outgoing : ∀ s, a.outgoing s = a.edges.toList.filter (·.source = s)
  ascending : a.deadlocks.Pairwise (· < ·)
  deadlock : ∀ s, s ∈ a.deadlocks ↔ s ∈ a.nodes.toList ∧ a.outgoing s = []
  balance : a.shape.deadlocks + {s | a.outgoing s ≠ []}.ncard = a.shape.states

theorem mem_deadlocks : s ∈ a.deadlocks ↔ s ∈ a.nodes.toList ∧ a.outgoing s = [] := by
  unfold deadlocks
  rw [List.mem_mergeSort, List.mem_filter, StateMap.not_contains, outgoing_eq_nil_iff]

theorem Indexed.ascending_deadlocks (h : a.Indexed) : a.deadlocks.Pairwise (· < ·) := by
  have hnodup : a.deadlocks.Nodup := by
    unfold deadlocks
    exact (List.mergeSort_perm _ _).nodup_iff.2 (h.nodup.filter _)
  have hsorted : a.deadlocks.SortedLE := List.sortedLE_mergeSort
  exact (hsorted.sortedLT_of_nodup hnodup).pairwise

theorem Indexed.balance (h : a.Indexed)
    (hsources : ∀ edge ∈ a.edges.toList, edge.source ∈ a.nodes.toList) :
    a.shape.deadlocks + {s | a.outgoing s ≠ []}.ncard = a.shape.states := by
  have hleaving : {s | a.outgoing s ≠ []}.ncard =
      (a.edges.toList.map Edge.source).dedup.length := by
    refine ncard_eq_length (List.nodup_dedup _) fun s => ?_
    rw [List.mem_dedup, ← mem_adjacency, Set.mem_ofPred_eq, Ne, outgoing_eq_nil_iff, not_not]
  have hnodes := h.length_deadlocks hsources
  have hdeadlocks : a.shape.deadlocks = a.deadlocks.length + (a.declared - a.nodes.size) := rfl
  have hstates : a.shape.states = max a.nodes.size a.declared := rfl
  omega

theorem position_addState (a : Automaton) (s : StateId) :
    (a.addState s).1.position[s]? = some (a.addState s).2 := by
  cases hs : a.position[s]? with
  | some node => rw [addState_known hs, hs]
  | none => rw [addState_new hs, Std.ExtTreeMap.getElem?_insert_self]

theorem Records.position_eq (h : Records root declared calls a) {node : Nat}
    (hs : a.position[s]? = some node) : (root :: named calls).eraseDups.idxOf s = node := by
  have hnode := (h.numbered s node).1 hs
  rw [← Array.getElem?_toList, h.nodes] at hnode
  obtain ⟨hlt, hget⟩ := List.getElem?_eq_some_iff.1 hnode
  rw [← hget]
  exact (h.nodes ▸ h.numbered.indexed.nodup).idxOf_getElem node hlt

theorem Records.grown (h : Records root declared calls a) : a.Grown root declared calls where
  toRecords := h
  rooted := by
    rw [h.numbered, ← Array.getElem?_toList, h.nodes, List.eraseDups_cons]
    rfl
  state s := by
    have hnode := (h.addState s).position_eq (position_addState a s)
    rw [named_append] at hnode
    exact hnode.symm
  accepts edge hs ht := by
    rw [addEdge_eq ((h.known_iff _).2 hs) ((h.known_iff _).2 ht), ← h.edges, Array.length_toList]
  refuses edge hout := by
    refine addEdge_unknown fun hboth => hout ?_
    exact ⟨(h.known_iff _).1 hboth.1, (h.known_iff _).1 hboth.2⟩
  outgoing s := rfl
  ascending := h.numbered.indexed.ascending_deadlocks
  deadlock s := mem_deadlocks
  balance := by
    refine h.numbered.indexed.balance fun edge hedge => ?_
    rw [← h.numbered.mem_iff, h.known_iff]
    exact (known_of_accepted (h.edges ▸ hedge)).1

end Automaton

/-- A network answers as an automaton does, now and to a further call. -/
structure Network.Alike (file : List Nat → Nat → List Nat) (n : Network) (a : Automaton) :
    Prop where
  nodes : n.graph.nodes = a.nodes
  index : n.index = a.position
  edges : n.edges = a.edges.toList
  outgoing : ∀ s, n.outgoing s = a.outgoing s
  deadlocks : n.deadlocks = a.deadlocks
  shape : n.shape = a.shape
  answers : ∀ call, (n.call file call).2 = (a.call call).2
  refuses : ∀ edge, a.addEdge edge = (a, none) → n.addEdge file edge = (n, none)

namespace Network

variable {file : List Nat → Nat → List Nat} {n : Network} {a : Automaton}

theorem Keeps.call (h : n.Keeps a) (hfile : FilesOnce file) (call : Call) :
    (n.call file call).1.Keeps (a.call call).1 ∧ (n.call file call).2 = (a.call call).2 := by
  cases call with
  | state s => exact ⟨(h.addState s).1, congrArg some (h.addState s).2⟩
  | edge edge => exact h.addEdge hfile edge

theorem Keeps.grow (h : n.Keeps a) (hfile : FilesOnce file) (calls : List Call) :
    (n.grow file calls).Keeps (a.grow calls) := by
  induction calls generalizing n a with
  | nil => exact h
  | cons call calls ih => exact ih (h.call hfile call).1

theorem Keeps.alike (h : n.Keeps a) (hfile : FilesOnce file) : n.Alike file a where
  nodes := h.nodes
  index := h.index
  edges := h.edges_eq
  outgoing := h.outgoing_eq
  deadlocks := h.deadlocks_eq
  shape := h.shape_eq
  answers call := (h.call hfile call).2
  refuses edge hnone := by
    refine addEdge_unknown fun hboth => ?_
    rw [h.index] at hboth
    rw [Automaton.addEdge_eq hboth.1 hboth.2] at hnone
    cases congrArg Prod.snd hnone

end Network

/-- Calls on an automaton with an initial state, with or without declared states, give each named
    state one node, in the order in which they were first named, and list the edges between states
    named before in the order of the calls. Other edges are refused and change nothing. The
    deadlocks and the states that edges leave are all the states. A network given the same calls
    answers alike, in whatever order it files the arcs of a node. -/
theorem grow_exact {file : List Nat → Nat → List Nat} (hfile : FilesOnce file) (root : StateId)
    (declared : Nat) (calls : List Call) :
    ((Automaton.new root).grow calls).Grown root 0 calls ∧
    ((Automaton.withDeclared root declared).grow calls).Grown root declared calls ∧
    ((Network.withDeclared root declared).grow file calls).Alike file
      ((Automaton.withDeclared root declared).grow calls) :=
  ⟨(Automaton.records_grow root 0 calls).grown, (Automaton.records_grow root declared calls).grown,
    ((Network.keeps_withDeclared root declared).grow hfile calls).alike hfile⟩

def latestFirst (filed : List Nat) (place : Nat) : List Nat := place :: filed

/-- A state named again, an edge from a state to itself, two equal edges, and two edges that come
    before their ends. -/
def yard : List Call :=
  [.state 9, .edge ⟨5, "shunt", 7⟩, .state 7, .edge ⟨7, "wait", 7⟩, .state 9,
    .edge ⟨9, "rate 2", 5⟩, .edge ⟨9, "rate 2", 5⟩, .edge ⟨5, "i", 9⟩, .edge ⟨2, "FAIL", 5⟩,
    .edge ⟨7, "couple", 5⟩, .state 2]

theorem yard_grown : FilesOnce latestFirst ∧
    ((Network.withDeclared 5 6).grow latestFirst yard).graph.leavingAt 2 = [4, 0] ∧
    ((Automaton.withDeclared 5 6).grow yard).outgoing 7 = [⟨7, "wait", 7⟩, ⟨7, "couple", 5⟩] ∧
    ((Automaton.withDeclared 5 6).grow yard).shape = ⟨6, 5, 3, 5⟩ ∧
    ((Automaton.new 5).grow yard).Grown 5 0 yard ∧
    ((Automaton.withDeclared 5 6).grow yard).Grown 5 6 yard ∧
    ((Network.withDeclared 5 6).grow latestFirst yard).Alike latestFirst
      ((Automaton.withDeclared 5 6).grow yard) :=
  have hfile : FilesOnce latestFirst := fun filed place => .refl (place :: filed)
  ⟨hfile, by decide, by decide, by decide +kernel, grow_exact hfile 5 6 yard⟩

end InteractiveMarkov
