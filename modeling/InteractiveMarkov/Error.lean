import InteractiveMarkov.State
import InteractiveMarkov.Status
import InteractiveMarkov.Label
import InteractiveMarkov.Text.Quoted

set_option autoImplicit false

namespace InteractiveMarkov

inductive AccessFault where
  | notFound
  | isDirectory
  | notDirectory
  | notUnicode
  | full
  deriving DecidableEq, Repr

def AccessFault.message : AccessFault → String
  | notFound => "No such file or directory (os error 2)"
  | isDirectory => "Is a directory (os error 21)"
  | notDirectory => "Not a directory (os error 20)"
  | notUnicode => "stream did not contain valid UTF-8"
  | full => "failed to write whole buffer"

inductive SyntaxFault where
  | noHeader (line : String)
  | noTransition (line : String)
  | numberRange (digits : String)
  | initialRange (initial states : Nat)
  | stateRange (state states : Nat)
  | empty
  | count (declared read : Nat)
  deriving DecidableEq, Repr

def SyntaxFault.message : SyntaxFault → String
  | noHeader line =>
    "expected \"des (initial, transitions, states)\", found " ++ Text.quoted line
  | noTransition line => "malformed transition " ++ Text.quoted line
  | numberRange digits => "number " ++ Text.quoted digits ++ " is out of range"
  | initialRange initial states =>
    "initial state " ++ initial.repr ++ " is outside the " ++ states.repr ++ " declared states"
  | stateRange state states =>
    "state " ++ state.repr ++ " is outside the " ++ states.repr ++ " declared states"
  | empty => "empty input, expected a \"des\" header"
  | count declared read =>
    "header declares " ++ declared.repr ++ " transitions but " ++ read.repr ++ " were read"

/-- The step that gave a state its status. -/
inductive Cause where
  | action (label : String) (state : StateId)
  | chain (status : Status) (state : StateId)
  | delay (label : KeptLabel) (status : Status) (state : StateId)
  | stated (text : String)
  deriving DecidableEq, Repr

def Cause.describe : Cause → String
  | action label state => "action \"" ++ label ++ "\" from state " ++ state.repr
  | chain status state => "redirect chain through " ++ status.describe ++ " state " ++ state.repr
  | delay label status state =>
    label.describe ++ " edge from " ++ status.describe ++ " state " ++ state.repr
  | stated text => text

/-- The formats that do not take every label. -/
inductive LimitedFormat where
  | rateMatrix
  | jani
  deriving DecidableEq, Repr

def LimitedFormat.name : LimitedFormat → String
  | rateMatrix => "tra"
  | jani => "JANI"

inductive Error where
  | access (fault : AccessFault)
  | malformed (line : Nat) (fault : SyntaxFault)
  | settingsUnread (path : String) (fault : AccessFault)
  | settingsMalformed (path : String)
  | nondeterminism (state : StateId) (first second : String)
  | conflict (state : StateId) (existing incoming : Status) (cause : Cause)
  | initialCycle (state : StateId)
  | redirectCycle (state : StateId)
  | dangling (source target : StateId)
  | unsupportedLabel (format : LimitedFormat) (label : String)
  | document (fault : AccessFault)
  | unsupportedInput (extension path : String)
  | ratesOnly
  | unnumbered
  deriving DecidableEq, Repr

namespace Error

/-- The automaton itself, and not its text or the files around it, is at fault. -/
def isStructural : Error → Bool
  | nondeterminism .. => true
  | conflict .. => true
  | initialCycle _ => true
  | redirectCycle _ => true
  | dangling .. => true
  | _ => false

def message : Error → String
  | access fault => "IO error: " ++ fault.message
  | malformed line fault => "Parse error at line " ++ line.repr ++ ": " ++ fault.message
  | settingsUnread path fault =>
    "Configuration error: Failed to read config file " ++ Text.quoted path ++ ": " ++ fault.message
  | settingsMalformed path => "Configuration parse error in " ++ Text.quoted path
  | nondeterminism state first second =>
    "Nondeterminism in state " ++ state.repr ++ ": immediate transitions \"" ++ first
      ++ "\" and \"" ++ second ++ "\" are both enabled"
  | conflict state existing incoming cause =>
    "Conflicting annotation for state " ++ state.repr ++ ": already " ++ existing.describe
      ++ ", " ++ cause.describe ++ " marks it " ++ incoming.describe
  | initialCycle state =>
    "Initial state is interactive: redirect chain from state " ++ state.repr
      ++ " has no stable target"
  | redirectCycle state =>
    "Redirect cycle through state " ++ state.repr
      ++ ": interactive transitions never reach a stable state"
  | dangling source target =>
    "Transition from state " ++ source.repr ++ " targets state " ++ target.repr
      ++ ", which is not part of the reduced graph"
  | unsupportedLabel format label =>
    "The " ++ format.name ++ " format cannot represent transition label \"" ++ label ++ "\""
  | document fault => "JSON error: " ++ fault.message
  | unsupportedInput extension path =>
    "Unsupported automaton format \"." ++ extension ++ "\" for " ++ Text.quoted path
  | ratesOnly => "tralab output holds rates only; use aut or jani for maximal progress"
  | unnumbered => "state number 0 has no predecessor"

end Error

theorem exists_ok_of_map {α β : Type} {run : Except Error α} {f : α → β} {value : β}
    (h : run.toOption.map f = some value) : ∃ outcome, run = .ok outcome ∧ f outcome = value := by
  cases run with
  | error e => cases h
  | ok outcome => exact ⟨outcome, rfl, Option.some.inj h⟩

theorem bind_ok {ε α β : Type} {m : Except ε α} {k : α → Except ε β} {b : β}
    (h : (m >>= k) = .ok b) : ∃ a, m = .ok a ∧ k a = .ok b := by
  cases m with
  | error e => cases h
  | ok a => exact ⟨a, rfl, h⟩

theorem bind_error {ε α β : Type} {m : Except ε α} {k : α → Except ε β} {e : ε}
    (h : (m >>= k) = .error e) : m = .error e ∨ ∃ a, m = .ok a ∧ k a = .error e := by
  cases m with
  | error fault =>
    cases h
    exact .inl rfl
  | ok a => exact .inr ⟨a, rfl, h⟩

end InteractiveMarkov
