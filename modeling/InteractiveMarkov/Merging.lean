import InteractiveMarkov.Statuses

/-!
Merging live states that behave alike. The key of a state is its status and the multiset of its
transitions over class numbers; keys are interned in a store, which numbers them in the order of
their first use. Starting from one class per state, every round interns all states, in ascending
order, by their keys over the classes of the round before. Rounds only join classes, and the first
round that joins none is the last. Each class is represented by its smallest state.
-/

set_option autoImplicit false

namespace InteractiveMarkov

/-- A status and a multiset of transitions, held as a sorted list. -/
structure StateKey where
  status : Status
  transitions : List (KeptLabel × Nat)
  deriving DecidableEq, Repr

namespace StateKey

def of (status : Status) (transitions : List (KeptLabel × Nat)) : StateKey :=
  ⟨status, transitions.mergeSort fun a b => (compare a b).isLE⟩

def counts (key : StateKey) : List ((KeptLabel × Nat) × Nat) :=
  (key.transitions.splitBy (· == ·)).filterMap fun copies =>
    copies.head?.map fun transition => (transition, copies.length)

instance : Ord StateKey :=
  ⟨compareOn fun key => (key.status.isFailed, key.transitions)⟩

instance : Std.TransOrd StateKey :=
  inferInstanceAs
    (Std.TransCmp (compareOn fun key : StateKey => (key.status.isFailed, key.transitions)))

theorem eq_of_parts {a b : StateKey}
    (h : (a.status.isFailed, a.transitions) = (b.status.isFailed, b.transitions)) : a = b := by
  obtain ⟨sa, ta⟩ := a
  obtain ⟨sb, tb⟩ := b
  cases sa <;> cases sb <;> simp_all [Status.isFailed]

instance : Std.LawfulEqOrd StateKey := lawfulEq_compareOn fun _ _ => eq_of_parts

end StateKey

/-- Keys with the numbers they were given, and for each number the state that first used it. -/
structure StateStore where
  origins : Array StateId
  index : Std.ExtTreeMap StateKey Nat compare

namespace StateStore

def empty : StateStore := ⟨#[], ∅⟩

def size (store : StateStore) : Nat := store.origins.size

/-- The number of a key, which is the next one if the key is new, and whether it is new. -/
def intern (store : StateStore) (origin : StateId) (key : StateKey) : StateStore × Nat × Bool :=
  match store.index[key]? with
  | some number => (store, number, false)
  | none => (⟨store.origins.push origin, store.index.insert key store.size⟩, store.size, true)

def origin? (store : StateStore) (number : Nat) : Option StateId := store.origins[number]?

end StateStore

def liveEdges (live : StateSet) (edges : List KeptEdge) (resolve : StateId → StateId) :
    StateMap (List (KeptLabel × StateId)) :=
  StateMap.group ((edges.filter fun edge => live.contains edge.source).map
    fun edge => (edge.source, edge.label, resolve edge.target))

/-- The key of a state over class numbers; a target without a class is left out. -/
def keyOver (classes : StateMap Nat) (status : Status) (edges : List (KeptLabel × StateId)) :
    StateKey :=
  StateKey.of status (edges.filterMap fun edge => classes[edge.2]?.map fun n => (edge.1, n))

/-- Interns states one after the other, by their keys over the given classes, and collects their
    numbers. -/
def internAll (key : StateId → StateKey) (states : List StateId) : StateStore × StateMap Nat :=
  states.foldl (fun (store, numbers) s =>
    let (store, number, _) := store.intern s (key s)
    (store, numbers.insert s number)) (StateStore.empty, ∅)

def mergeRounds (key : StateMap Nat → StateId → StateKey) (states : List StateId)
    (classes : StateMap Nat) (count : Nat) : StateStore × StateMap Nat :=
  let round := internAll (key classes) states
  if round.1.size < count then mergeRounds key states round.2 round.1.size else round
termination_by count

structure Merge where
  live : StateSet
  representatives : StateMap StateId

namespace Merge

def trivial (live : StateSet) : Merge :=
  ⟨live, Std.ExtTreeMap.ofList (live.toList.map fun s => (s, s))⟩

/-- The representative of a live state; any other state stands for itself. -/
def representative (merge : Merge) (s : StateId) : StateId := merge.representatives.getD s s

def mergedCount (merge : Merge) : Nat := merge.representatives.size - merge.live.size

end Merge

def mergeIdentical (live : StateSet) (edges : List KeptEdge) (resolve : StateId → StateId)
    (statuses : StatusTable) : Merge :=
  let outgoing := liveEdges live edges resolve
  let states := live.toList
  let key := fun classes s => keyOver classes (statuses.resolved s) (outgoing.getD s [])
  let (store, classes) := mergeRounds key states
    (Std.ExtTreeMap.ofList (states.zip (List.range live.size))) live.size
  let representatives := classes.filterMap fun _ number => store.origin? number
  ⟨Std.ExtTreeSet.ofList (representatives.toList.map (·.2)), representatives⟩

end InteractiveMarkov
