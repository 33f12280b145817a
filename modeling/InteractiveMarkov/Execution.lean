import InteractiveMarkov.Aldebaran.Reader
import InteractiveMarkov.Aldebaran.Writer
import InteractiveMarkov.Arguments
import InteractiveMarkov.FileSystem
import InteractiveMarkov.Jani
import InteractiveMarkov.RateMatrix
import InteractiveMarkov.Settings

/-!
Carrying out a command on a file system. Reading comes first and changes nothing. A file is
emptied before it is written; when writing fails the file is removed, and of a pair of files both
are. A file that cannot be removed is noted. The storage below the file system may refuse to
create, to write or to remove a file that could be created, written or removed otherwise.
-/

set_option autoImplicit false

namespace InteractiveMarkov

/-- What a command tells its user on the way. -/
inductive Notice where
  | silentStates (count : Nat)
  | unknownLabel (label : String) (count : Nat) (first : StateId)
  | notRemoved (path : String) (fault : AccessFault)
  deriving DecidableEq, Repr

def Notice.message : Notice → String
  | silentStates count =>
    count.repr ++ " states only take silent steps and are written without outgoing edges"
  | unknownLabel label count first =>
    if count = 1 then
      "Unknown transition label \"" ++ label ++ "\" in state " ++ first.repr
        ++ ", assuming no special effect"
    else
      "Unknown transition label \"" ++ label ++ "\" in " ++ count.repr ++ " states (first: "
        ++ first.repr ++ "), assuming no special effect"
  | notRemoved path fault =>
    "Failed to remove partial output " ++ Text.quoted path ++ ": " ++ fault.message

/-- How often each label was warned about, and the state of its first warning; by label. -/
def groupWarnings (warnings : List Warning) : Std.ExtTreeMap String (Nat × StateId) compare :=
  warnings.foldl (fun groups warning =>
    match groups[warning.label]? with
    | none => groups.insert warning.label (1, warning.state)
    | some (count, first) => groups.insert warning.label (count + 1, first)) ∅

def Reduction.notices (reduction : Reduction) : List Notice :=
  (if reduction.silentOnly = 0 then [] else [.silentStates reduction.silentOnly])
    ++ (groupWarnings reduction.warnings).toList.map fun (label, count, first) =>
      .unknownLabel label count first

/-- Reads the automaton at a path. Its extension, if it has one, is that of the format. -/
def readAutomaton (fs : FileSystem) (path : String) : Except Error Automaton :=
  match (Path.extension? path).filter (· != "aut") with
  | some extension => .error (.unsupportedInput extension path)
  | none => do
    let bytes ← (fs.read path).mapError .access
    Aldebaran.readStored bytes

structure Effect where
  files : FileSystem
  notices : List Notice
  fault : Option Error

/-- The paths at which the storage refuses to create, to write or to remove a file, and what
    stands in a file that could not be written to its end. -/
structure Storage where
  creating : String → Option AccessFault
  writing : String → Option AccessFault
  removing : String → Option AccessFault
  left : String → ByteArray

namespace Storage

def sound : Storage := ⟨fun _ => none, fun _ => none, fun _ => none, fun _ => ByteArray.empty⟩

def create (storage : Storage) (fs : FileSystem) (path : String) :
    Except AccessFault (FileSystem × Location) :=
  match storage.creating path with
  | some fault => .error fault
  | none => fs.create path

def write (storage : Storage) (path : String) (writer : Stream → Except Error Stream) :
    Except Error Stream :=
  match storage.writing path with
  | some fault => .error (.access fault)
  | none => writer Stream.empty

def remove (storage : Storage) (fs : FileSystem) (path : String) : Except AccessFault FileSystem :=
  match storage.removing path with
  | some fault => .error fault
  | none => fs.remove path

end Storage

section Output

variable (storage : Storage)

def discard (fs : FileSystem) (path : String) : FileSystem × List Notice :=
  if fs.pathExists path then
    match storage.remove fs path with
    | .ok fs => (fs, [])
    | .error fault => (fs, [.notRemoved path fault])
  else (fs, [])

def failing (fs : FileSystem) (path : String) (fault : Error) : Effect :=
  let (fs, notices) := discard storage fs path
  ⟨fs, notices, some fault⟩

def writeFile (fs : FileSystem) (path : String) (writer : Stream → Except Error Stream) :
    Effect :=
  match storage.create fs path with
  | .error fault => failing storage fs path (.access fault)
  | .ok (fs, location) =>
    match storage.write path writer with
    | .error fault => failing storage (fs.insert location (.file (storage.left path))) path fault
    | .ok stream => ⟨fs.insert location (.file stream.bytes), [], none⟩

def matrixPath (output : String) : String := Path.withSuffix output "tra"

def labelsPath (output : String) : String := Path.withSuffix output "lab"

def writePair (fs : FileSystem) (output : String) (chain : Chain) : Effect :=
  let first := writeFile storage fs (matrixPath output) fun stream =>
    (RateMatrix.write chain stream).map (·.1)
  match first.fault with
  | some _ => first
  | none =>
    let second := writeFile storage first.files (labelsPath output) (RateMatrix.writeLabels chain)
    match second.fault with
    | none => second
    | some fault =>
      let (fs, notices) := discard storage second.files (matrixPath output)
      ⟨fs, second.notices ++ notices, some fault⟩

def writeChain (fs : FileSystem) (output : String) (format : ModelFormat)
    (settings : OutputSettings) (chain : Chain) : Effect :=
  match format with
  | .aldebaran => writeFile storage fs output fun stream => (Aldebaran.write chain stream).map (·.1)
  | .jani => writeFile storage fs output (Jani.write chain settings.modelName settings.pretty)
  | .rateMatrix => writePair storage fs output chain

end Output

structure Outcome where
  files : FileSystem
  printed : String
  notices : List Notice
  fault : Option Error

def Outcome.failed (fs : FileSystem) (fault : Error) : Outcome := ⟨fs, "", [], some fault⟩

def transform (storage : Storage) (fs : FileSystem) (settings : Settings) (input output : String)
    (format : ModelFormat)
    (reduction : Automaton → ReductionOptions → Except Error Reduction) : Outcome :=
  match readAutomaton fs input >>= fun a => reduction a settings.options with
  | .error fault => .failed fs fault
  | .ok reduced =>
    let effect := writeChain storage fs output format settings.output reduced.chain
    ⟨effect.files, "", reduced.notices ++ effect.notices, effect.fault⟩

def report (fs : FileSystem) (settings : Settings) (input : String) (format : ReportFormat) :
    Outcome :=
  let text := do
    let a ← readAutomaton fs input
    let reduced ← a.reduce settings.options
    return Report.render format a.shape reduced
  match text with
  | .error fault => .failed fs fault
  | .ok text => ⟨fs, text, [], none⟩

def Command.executeOn (storage : Storage) (fs : FileSystem) (settings : Settings) :
    Command → Outcome
  | convert input output format failure repair merge =>
    let settings := settings.withLabels failure repair
    let settings := { settings with merge := settings.merge || merge }
    transform storage fs settings input output format Automaton.reduce
  | progress input output format =>
    if format = .rateMatrix then .failed fs .ratesOnly
    else transform storage fs settings input output format Automaton.progress
  | report input format => InteractiveMarkov.report fs settings input format

def Command.execute (fs : FileSystem) (settings : Settings) (command : Command) : Outcome :=
  command.executeOn .sound fs settings

end InteractiveMarkov
