import InteractiveMarkov.Chain
import InteractiveMarkov.Json
import InteractiveMarkov.Stream

set_option autoImplicit false

namespace InteractiveMarkov.Jani

inductive RateExpression where
  | number (value : Decimal.Binary64)
  | constant (name : String)
  deriving DecidableEq, Repr

inductive Trigger where
  | rate (expression : RateExpression)
  | action (name : String)
  deriving DecidableEq, Repr

structure Edge where
  location : String
  trigger : Trigger
  destination : String
  deriving DecidableEq, Repr

/-- A location, with the transient variables that are true in it. -/
structure Location where
  name : String
  transient : List String
  deriving DecidableEq, Repr

inductive ModelType where
  | ctmc
  | ma
  deriving DecidableEq, Repr

def ModelType.name : ModelType → String
  | ctmc => "ctmc"
  | ma => "ma"

/-- Constants are real; the boolean variables are transient and false by default. -/
structure Model where
  name : String
  type : ModelType
  actions : List String
  constants : List String
  booleans : List String
  locations : List Location
  initial : String
  edges : List Edge
  deriving DecidableEq, Repr

def failedVariable : String := "failed"

def locationName (n : Nat) : String := "s" ++ n.repr

def isLetter (c : Char) : Bool := c.isAlpha || c == '_'

/-- A letter or underscore, then letters, digits and underscores, all ASCII. -/
def isIdentifier : List Char → Bool
  | [] => false
  | c :: rest => isLetter c && rest.all fun d => isLetter d || d.isDigit

def rateExpression (expr : String) : Except Error RateExpression :=
  match Decimal.Binary64.parse? expr.toList with
  | some value => .ok (.number value)
  | none =>
    if isIdentifier expr.toList then .ok (.constant expr)
    else .error (.unsupportedLabel .jani (KeptLabel.rate expr).text)

def trigger : KeptLabel → Except Error Trigger
  | .rate expr => (rateExpression expr).map .rate
  | .action name => .ok (.action name)
  | .timed text => .error (.unsupportedLabel .jani text)

def edge (transition : Transition) : Except Error Edge :=
  (trigger transition.label).map fun trigger =>
    ⟨locationName transition.source, trigger, locationName transition.target⟩

def location (chain : Chain) (n : Nat) : Location :=
  ⟨locationName n, if chain.isFailed n then [failedVariable] else []⟩

def distinct (names : List String) : List String :=
  (Std.ExtTreeSet.ofList names compare).toList

def Edge.action? (edge : Edge) : Option String :=
  match edge.trigger with
  | .action name => some name
  | _ => none

def Edge.constant? (edge : Edge) : Option String :=
  match edge.trigger with
  | .rate (.constant name) => some name
  | _ => none

/-- The model of a chain. The first transition without a counterpart is an error. -/
def model (chain : Chain) (name : String) : Except Error Model := do
  let edges ← chain.transitions.mapM edge
  let actions := distinct (edges.filterMap Edge.action?)
  .ok {
    name := name
    type := if actions.isEmpty then .ctmc else .ma
    actions := actions
    constants := distinct (edges.filterMap Edge.constant?)
    booleans := [failedVariable]
    locations := chain.states.map (location chain)
    initial := locationName chain.initial
    edges := edges }

def RateExpression.json : RateExpression → Json
  | number value => .float value
  | constant name => .text name

def Trigger.json : Trigger → String × Json
  | rate expression => ("rate", .object [("exp", expression.json)])
  | action name => ("action", .text name)

def Edge.json (edge : Edge) : Json :=
  .object [("location", .text edge.location), edge.trigger.json,
    ("destinations", .array [.object [("location", .text edge.destination)]])]

def Location.json (location : Location) : Json :=
  .object (("name", .text location.name) :: if location.transient.isEmpty then [] else
    [("transient-values", .array (location.transient.map fun name =>
      .object [("ref", .text name), ("value", .bool true)]))])

def constantJson (name : String) : Json :=
  .object [("name", .text name), ("type", .text "real")]

def variableJson (name : String) : Json :=
  .object [("name", .text name), ("type", .text "bool"), ("initial-value", .bool false),
    ("transient", .bool true)]

def Model.json (model : Model) : Json :=
  .object [
    ("jani-version", .natural 1),
    ("name", .text model.name),
    ("type", .text model.type.name),
    ("actions", .array (model.actions.map fun name => .object [("name", .text name)])),
    ("constants", .array (model.constants.map constantJson)),
    ("variables", .array (model.booleans.map variableJson)),
    ("properties", .array []),
    ("automata", .array [.object [
      ("name", .text model.name),
      ("locations", .array (model.locations.map Location.json)),
      ("initial-locations", .array [.text model.initial]),
      ("edges", .array (model.edges.map Edge.json))]]),
    ("system", .object [
      ("elements", .array [.object [("automaton", .text model.name)]])])]

def write (chain : Chain) (name : String) (pretty : Bool) (stream : Stream) :
    Except Error Stream := do
  let model ← model chain name
  let stream ← (stream.write (model.json.render pretty)).mapError .document
  stream.put "\n"

end InteractiveMarkov.Jani
