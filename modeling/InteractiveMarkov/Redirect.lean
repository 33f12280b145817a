import InteractiveMarkov.Statuses

set_option autoImplicit false

namespace InteractiveMarkov

structure Redirect where
  target : StateId
  label : String
  deriving DecidableEq, Repr

abbrev RedirectMap := StateMap Redirect

/-- Where following redirects leads: through the states of a path to one that is not redirected,
    or back to a state passed before. -/
inductive Walk where
  | settles (path : List StateId) (final : StateId)
  | returns (state : StateId)
  deriving DecidableEq, Repr

namespace RedirectMap

/-- One step; a state that is not redirected stays. -/
def resolve (m : RedirectMap) (s : StateId) : StateId :=
  match m[s]? with
  | some redirect => redirect.target
  | none => s

def isCollapsed (m : RedirectMap) : Bool :=
  m.toList.all fun entry => !m.contains entry.2.target

def walk (m : RedirectMap) (passed : Search) (s : StateId) : Walk :=
  match _entry : m[s]? with
  | none => .settles passed.order.toList s
  | some redirect =>
    if s ∈ passed.seen then .returns s else walk m (passed.meet s) redirect.target
termination_by missing m.keys passed.seen
decreasing_by
  rename_i hs
  have hkey : s ∈ m.keys :=
    Std.ExtTreeMap.mem_keys.2 (StateMap.mem_of_getElem? _entry)
  have hseen : (passed.meet s).seen = passed.seen.insert s := by simp [Search.meet, hs]
  rw [hseen]
  exact missing_insert_lt hkey hs

def walkFrom (m : RedirectMap) (s : StateId) : Walk := m.walk Search.start s

/-- A chain that never ends is blamed on the initial state if that state's own chain never
    ends. -/
def cycleError (m : RedirectMap) (initial : StateId) (state : StateId) : Error :=
  match m.walkFrom initial with
  | .returns _ => .initialCycle initial
  | .settles .. => .redirectCycle state

def retarget (m : RedirectMap) (path : List StateId) (final : StateId) : RedirectMap :=
  path.foldl (fun m s => m.modify s fun redirect => { redirect with target := final }) m

def carried (table : StatusTable) (path : List StateId) (final : StateId) : List Demand :=
  path.filterMap fun s => table[s]?.map fun status => ⟨final, status, .chain status s⟩

/-- The tables after collapsing, or as they stood at the error. -/
structure Collapse where
  redirects : RedirectMap
  statuses : StatusTable
  fault : Option Error

def collapseFrom (initial : StateId) : List StateId → RedirectMap → StatusTable → Collapse
  | [], m, table => ⟨m, table, none⟩
  | s :: rest, m, table =>
    match m.walkFrom s with
    | .returns state => ⟨m, table, some (m.cycleError initial state)⟩
    | .settles path final =>
      match table.assignAll (carried table path final) with
      | (table, some e) => ⟨m, table, some e⟩
      | (table, none) => collapseFrom initial rest (m.retarget path final) table

/-- Collapses all chains, in ascending order of their sources. The initial state only decides
    which error reports a chain that never ends. -/
def collapse (m : RedirectMap) (initial : StateId) (table : StatusTable) : Collapse :=
  collapseFrom initial m.keys m table

end RedirectMap

end InteractiveMarkov
