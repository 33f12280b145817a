import InteractiveMarkov.Report
import InteractiveMarkov.Text.Line

/-!
The command line. Options that take a value are written `--name value`, `--name=value`, `-n value`,
`-nvalue` or `-n=value`; a value of its own does not begin with a dash unless it is a lone dash.
Each option is given at most once at its level; the options about settings may stand before the
command and after it, where the latter counts. The first thing that is wrong, from left to right,
is reported, but an option's value is judged only when the next option begins or the arguments end.
-/

set_option autoImplicit false

namespace InteractiveMarkov

inductive ModelFormat where
  | aldebaran
  | rateMatrix
  | jani
  deriving DecidableEq, Repr

inductive Command where
  | convert (input output : String) (format : ModelFormat) (failure repair : Option String)
      (merge : Bool)
  | progress (input output : String) (format : ModelFormat)
  | report (input : String) (format : ReportFormat)
  deriving DecidableEq, Repr

structure Arguments where
  settings : Option String
  level : Option String
  command : Command
  deriving DecidableEq, Repr

/-- Why the arguments form no command. Asking for help or for the version is one of the reasons. -/
inductive UsageFault where
  | help
  | version
  | noArguments
  | noCommand
  | unknownCommand
  | unknownArgument
  | invalidValue
  | surplusValue
  | repeated
  | missing
  deriving DecidableEq, Repr

namespace Arguments

inductive Level where
  | top
  | convert
  | progress
  | report
  deriving DecidableEq, Repr

inductive Switch where
  | settings
  | level
  | input
  | output
  | format
  | failure
  | repair
  deriving DecidableEq, Repr

inductive Flag where
  | merge
  | help
  | version
  deriving DecidableEq, Repr

def command? (name : String) : Option Level :=
  if name = "convert" then some .convert
  else if name = "maxprog" then some .progress
  else if name = "info" then some .report
  else none

def helpCommand : String := "help"

def Switch.isKnown : Level → Switch → Bool
  | _, settings => true
  | _, level => true
  | .top, _ => false
  | .convert, _ => true
  | .progress, failure => false
  | .progress, repair => false
  | .progress, _ => true
  | .report, input => true
  | .report, format => true
  | .report, _ => false

def Flag.isKnown : Level → Flag → Bool
  | _, help => true
  | .top, version => true
  | .convert, merge => true
  | _, _ => false

def Switch.ofLong? (name : String) : Option Switch :=
  if name = "config" then some settings
  else if name = "log-level" then some level
  else if name = "input" then some input
  else if name = "output" then some output
  else if name = "format" then some format
  else if name = "failure" then some failure
  else if name = "repair" then some repair
  else none

def Switch.ofShort? (c : Char) : Option Switch :=
  if c = 'c' then some settings
  else if c = 'i' then some input
  else if c = 'o' then some output
  else if c = 'f' then some format
  else none

def Flag.ofLong? (name : String) : Option Flag :=
  if name = "merge-identical" then some merge
  else if name = "help" then some help
  else if name = "version" then some version
  else none

def Flag.ofShort? (c : Char) : Option Flag :=
  if c = 'h' then some help
  else if c = 'V' then some version
  else none

def modelFormat? (value : String) : Option ModelFormat :=
  if value = "aut" then some .aldebaran
  else if value = "tralab" then some .rateMatrix
  else if value = "jani" then some .jani
  else none

def reportFormat? (value : String) : Option ReportFormat :=
  if value = "table" then some .table
  else if value = "json" then some .json
  else none

def isValid (level : Level) (switch : Switch) (value : String) : Bool :=
  match switch with
  | .settings => value != ""
  | .input => value != ""
  | .output => value != ""
  | .format =>
    match level with
    | .report => (reportFormat? value).isSome
    | _ => (modelFormat? value).isSome
  | _ => true

/-- The options read so far at one level. The latest option may still wait for its value or for
    its value to be judged. -/
structure Given where
  values : List (Switch × String)
  merge : Bool
  pending : Option (Switch × Option String)
  deriving DecidableEq, Repr

namespace Given

def none : Given := ⟨[], false, Option.none⟩

def value? (given : Given) (switch : Switch) : Option String := given.values.lookup switch

def settle (level : Level) (given : Given) : Except UsageFault Given :=
  match given.pending with
  | Option.none => .ok given
  | some (_, Option.none) => .error .invalidValue
  | some (switch, some value) =>
    if (given.value? switch).isSome then .error .repeated
    else if isValid level switch value then
      .ok { given with values := given.values ++ [(switch, value)], pending := Option.none }
    else .error .invalidValue

def begin (level : Level) (given : Given) (switch : Switch) (attached : Option String) :
    Except UsageFault Given := do
  let given ← given.settle level
  let given := { given with pending := some (switch, attached) }
  if attached.isSome then given.settle level else .ok given

def flag (level : Level) (given : Given) (flag : Flag) : Except UsageFault Given := do
  let given ← given.settle level
  match flag with
  | .help => .error .help
  | .version => .error .version
  | .merge => if given.merge then .error .repeated else .ok { given with merge := true }

def long (level : Level) (given : Given) (cs : List Char) : Except UsageFault Given :=
  let name := cs.takeWhile (· != '=')
  let attached := match cs.drop name.length with
    | [] => Option.none
    | _ :: value => some (String.ofList value)
  match (Switch.ofLong? (String.ofList name)).filter (Switch.isKnown level),
      (Flag.ofLong? (String.ofList name)).filter (Flag.isKnown level) with
  | some switch, _ => given.begin level switch attached
  | Option.none, some flag =>
    if attached.isSome then .error .surplusValue else given.flag level flag
  | Option.none, Option.none => .error .unknownArgument

def short (level : Level) (given : Given) : List Char → Except UsageFault Given
  | [] => .ok given
  | c :: rest =>
    match (Switch.ofShort? c).filter (Switch.isKnown level),
        (Flag.ofShort? c).filter (Flag.isKnown level) with
    | some switch, _ =>
      let attached := match rest with
        | [] => Option.none
        | '=' :: value => some (String.ofList value)
        | value => some (String.ofList value)
      given.begin level switch attached
    | Option.none, some flag => do
      let given ← given.flag level flag
      given.short level rest
    | Option.none, Option.none => .error .unknownArgument

end Given

inductive Shape where
  | separator
  | long (name : List Char)
  | short (letters : List Char)
  | plain
  deriving DecidableEq, Repr

def shape (argument : String) : Shape :=
  match argument.toList with
  | ['-', '-'] => .separator
  | '-' :: '-' :: rest => .long rest
  | ['-'] => .plain
  | '-' :: rest => .short rest
  | _ => .plain

/-- Reads the arguments after a command. No argument stands for itself there. -/
def scanCommand (level : Level) : List String → Given → Except UsageFault Given
  | [], given => given.settle level
  | argument :: rest, given =>
    match shape argument with
    | .separator => if rest.isEmpty then given.settle level else .error .unknownArgument
    | .long cs => given.long level cs >>= scanCommand level rest
    | .short cs => given.short level cs >>= scanCommand level rest
    | .plain =>
      match given.pending with
      | some (switch, none) =>
        scanCommand level rest { given with pending := some (switch, some argument) }
      | _ => .error .unknownArgument

def required (given : Given) (switch : Switch) : Except UsageFault String :=
  match given.value? switch with
  | some value => .ok value
  | none => .error .missing

def commandOf (level : Level) (given : Given) : Except UsageFault Command := do
  let format := given.value? .format
  let input ← required given .input
  match level with
  | .top => .error .noCommand
  | .convert =>
    let output ← required given .output
    .ok (.convert input output ((format.bind modelFormat?).getD .jani) (given.value? .failure)
      (given.value? .repair) given.merge)
  | .progress =>
    let output ← required given .output
    .ok (.progress input output ((format.bind modelFormat?).getD .aldebaran))
  | .report => .ok (.report input ((format.bind reportFormat?).getD .table))

/-- Reads a command from the arguments after its name. The options before the name are judged
    last. -/
def commandAfter (level : Level) (before : Given) (rest : List String) :
    Except UsageFault Arguments := do
  let given ← scanCommand level rest Given.none
  let command ← commandOf level given
  let before ← before.settle .top
  .ok {
    settings := given.value? .settings <|> before.value? .settings
    level := given.value? .level <|> before.value? .level
    command := command }

/-- Asking for help names commands only. -/
def helpOn : List String → UsageFault
  | [] => .help
  | [name] => if (command? name).isSome || name == helpCommand then .help else .unknownCommand
  | _ => .unknownCommand

def withoutCommand (given : Given) : Except UsageFault Arguments := do
  let given ← given.settle .top
  .error (if given.values.isEmpty then .noArguments else .noCommand)

def scan : List String → Given → Except UsageFault Arguments
  | [], given => withoutCommand given
  | argument :: rest, given =>
    let isCommand := (command? argument).isSome || argument == helpCommand
    match shape argument with
    | .separator =>
      match rest with
      | [] => withoutCommand given
      | next :: _ =>
        .error (if (command? next).isSome || next == helpCommand then .unknownArgument
          else .unknownCommand)
    | .long cs => given.long .top cs >>= scan rest
    | .short cs => given.short .top cs >>= scan rest
    | .plain =>
      match given.pending, command? argument with
      | some (switch, none), _ =>
        scan rest { given with pending := some (switch, some argument) }
      | _, some level => commandAfter level given rest
      | _, none => .error (if isCommand then helpOn rest else .unknownCommand)

def parse (arguments : List String) : Except UsageFault Arguments := scan arguments Given.none

end Arguments

end InteractiveMarkov
