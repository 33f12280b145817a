import Std.Data.ExtTreeMap
import Std.Data.ExtTreeSet

set_option autoImplicit false

namespace InteractiveMarkov

/-- The number a state carries in the file that names it. -/
abbrev StateId := Nat

abbrev StateSet := Std.ExtTreeSet StateId compare

abbrev StateMap (α : Type) := Std.ExtTreeMap StateId α compare

def stateBound : Nat := 4294967296

def countBound : Nat := 18446744073709551616

/-- Groups values by state; within a state they keep their order. -/
def StateMap.group {α : Type} (pairs : List (StateId × α)) : StateMap (List α) :=
  pairs.foldr (fun pair table => table.insert pair.1 (pair.2 :: table.getD pair.1 [])) ∅

theorem StateMap.getD_group {α : Type} (pairs : List (StateId × α)) (s : StateId) :
    (StateMap.group pairs).getD s [] = (pairs.filter (·.1 = s)).map (·.2) := by
  induction pairs with
  | nil => simp [StateMap.group]
  | cons pair rest ih =>
    have step : StateMap.group (pair :: rest) =
        (StateMap.group rest).insert pair.1 (pair.2 :: (StateMap.group rest).getD pair.1 []) := rfl
    rw [step, Std.ExtTreeMap.getD_insert]
    by_cases h : pair.1 = s
    · subst h; simp [ih]
    · simp [h, ih]

theorem StateMap.mem_iff_exists {α : Type} {table : StateMap α} {s : StateId} :
    s ∈ table ↔ ∃ value : α, table[s]? = some value := by
  rw [Std.ExtTreeMap.mem_iff_isSome_getElem?, Option.isSome_iff_exists]

theorem StateMap.mem_of_getElem? {α : Type} {table : StateMap α} {s : StateId} {value : α}
    (h : table[s]? = some value) : s ∈ table :=
  StateMap.mem_iff_exists.2 ⟨value, h⟩

theorem StateMap.getElem?_eq_none_iff {α : Type} {table : StateMap α} {s : StateId} :
    table[s]? = none ↔ s ∉ table := by
  rw [Std.ExtTreeMap.mem_iff_isSome_getElem?, Option.not_isSome_iff_eq_none]

theorem StateMap.not_contains {α : Type} (table : StateMap α) (s : StateId) :
    (!table.contains s) = true ↔ s ∉ table := by
  rw [Bool.not_eq_true', ← Bool.not_eq_true, Std.ExtTreeMap.contains_iff_mem]

theorem StateMap.getD_map {α β : Type} {f : List α → List β} (hf : f [] = [])
    (table : StateMap (List α)) (s : StateId) :
    (table.map fun _ values => f values).getD s [] = f (table.getD s []) := by
  simp only [Std.ExtTreeMap.getD_eq_getD_getElem?, Std.ExtTreeMap.getElem?_map]
  cases table[s]? with
  | none => exact hf.symm
  | some values => rfl

end InteractiveMarkov
