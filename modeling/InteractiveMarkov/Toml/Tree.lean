import InteractiveMarkov.Toml.Value

/-!
The tree of tables that a TOML document builds up. How a table came into being decides what may
still be added to it: a table named only on the way to another may get a header of its own once; a
table made by dotted keys gets no header, and only such a table takes the value of a dotted key; a
value, an inline table included, is never extended. A path through an array of tables leads into
its latest element.
-/

set_option autoImplicit false

namespace InteractiveMarkov.Toml

/-- How a table came into being: by its own header, on the way to a header, or by dotted keys. -/
inductive Origin where
  | header
  | passing
  | dotted
  deriving DecidableEq, Repr

/-- The elements of an array of tables stand latest first. -/
inductive Node where
  | value (value : Value)
  | table (origin : Origin) (entries : List (String × Node))
  | tables (elements : List (List (String × Node)))

def alterKey (key : String) (change : Option Node → Option Node) :
    List (String × Node) → Option (List (String × Node))
  | [] => (change none).map fun node => [(key, node)]
  | (k, node) :: rest =>
    if k = key then (change (some node)).map fun node => (k, node) :: rest
    else (alterKey key change rest).map ((k, node) :: ·)

def descend (change : List (String × Node) → Option (List (String × Node))) :
    List String → List (String × Node) → Option (List (String × Node))
  | [], entries => change entries
  | key :: rest, entries => alterKey key (fun
    | none => (descend change rest []).map (.table .passing)
    | some (.table origin sub) => (descend change rest sub).map (.table origin)
    | some (.tables (latest :: older)) =>
      (descend change rest latest).map fun latest => .tables (latest :: older)
    | some _ => none) entries

def assignKey (key : String) (value : Value) :
    List String → List (String × Node) → Option (List (String × Node))
  | [], entries => alterKey key (fun
    | none => some (.value value)
    | some _ => none) entries
  | part :: rest, entries => alterKey part (fun
    | none => (assignKey key value rest []).map (.table .dotted)
    | some (.table .dotted sub) => (assignKey key value rest sub).map (.table .dotted)
    | some (.table .passing sub) =>
      if rest.isEmpty then none else (assignKey key value rest sub).map (.table .passing)
    | some (.tables (latest :: older)) =>
      if rest.isEmpty then none
      else (assignKey key value rest latest).map fun latest => .tables (latest :: older)
    | some _ => none) entries

def openTable (path : List String) (key : String) :
    List (String × Node) → Option (List (String × Node)) :=
  descend (alterKey key fun
    | none => some (.table .header [])
    | some (.table .passing sub) => some (.table .header sub)
    | some _ => none) path

def openElement (path : List String) (key : String) :
    List (String × Node) → Option (List (String × Node)) :=
  descend (alterKey key fun
    | none => some (.tables [[]])
    | some (.tables elements) => some (.tables ([] :: elements))
    | some _ => none) path

mutual

def Node.toValue : Node → Value
  | .value value => value
  | .table _ entries => .table (entriesToValues entries)
  | .tables elements => .array (elementsToValues elements).reverse

def entriesToValues : List (String × Node) → List (String × Value)
  | [] => []
  | (key, node) :: rest => (key, node.toValue) :: entriesToValues rest

def elementsToValues : List (List (String × Node)) → List Value
  | [] => []
  | entries :: rest => .table (entriesToValues entries) :: elementsToValues rest

end

end InteractiveMarkov.Toml
