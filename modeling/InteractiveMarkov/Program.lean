import InteractiveMarkov.Execution

set_option autoImplicit false

namespace InteractiveMarkov

namespace Settings

def ofFile (fs : FileSystem) (path : String) : Except Error Settings :=
  match fs.read path with
  | .error fault => .error (.settingsUnread path fault)
  | .ok bytes =>
    match String.fromUTF8? bytes with
    | none => .error (.settingsUnread path .notUnicode)
    | some text => parse path text

def places (home : Option String) : List String :=
  ["lts-reduce.toml"] ++ (home.map (· ++ "/.lts-reduce/config.toml")).toList
    ++ ["/etc/lts-reduce/config.toml"]

def load (fs : FileSystem) (home : Option String) : Except Error Settings :=
  match (places home).find? fs.pathExists with
  | some path => ofFile fs path
  | none => .ok {}

end Settings

/-- What the outside sees of a run. Exit status 1 means an error of the run, 2 wrong arguments. -/
structure Run where
  exit : UInt32
  output : String
  errors : String
  files : FileSystem

namespace Program

def name : String := "lts-reduce"

def version : String := "0.1.0"

def usage : String :=
  "Usage: " ++ name ++ " [OPTIONS] <COMMAND>\n\n"
    ++ "Commands:\n"
    ++ "  convert  Collapse immediate transitions and write the reduced chain\n"
    ++ "  maxprog  Drop preempted delays but keep states and actions\n"
    ++ "  info     Print statistics about an automaton and its reduction\n"

def structuralNotice : String := "the automaton cannot be reduced: "

/-- The line that reports an error. What is wrong with a settings file is not said in detail. -/
def errorLine (fault : Error) : String :=
  match fault with
  | .settingsMalformed _ => "error: " ++ fault.message
  | _ => "error: " ++ (if fault.isStructural then structuralNotice else "") ++ fault.message ++ "\n"

def paths (arguments : List String) (home : Option String) : List String :=
  match Arguments.parse arguments with
  | .error _ => []
  | .ok arguments =>
    let settings := match arguments.settings with
      | some path => [path]
      | none => Settings.places home
    settings ++ match arguments.command with
      | .convert input output .. => [input, output, matrixPath output, labelsPath output]
      | .progress input output _ => [input, output]
      | .report input _ => [input]

def execute (arguments : Arguments) (home : Option String) (fs : FileSystem) : Outcome :=
  let settings := match arguments.settings with
    | some path => Settings.ofFile fs path
    | none => Settings.load fs home
  match settings with
  | .error fault => .failed fs fault
  | .ok settings => arguments.command.execute fs settings

def run (arguments : List String) (home : Option String) (fs : FileSystem) : Run :=
  match Arguments.parse arguments with
  | .error .version => ⟨0, name ++ " " ++ version ++ "\n", "", fs⟩
  | .error .help => ⟨0, usage, "", fs⟩
  | .error _ => ⟨2, "", "", fs⟩
  | .ok arguments =>
    let outcome := execute arguments home fs
    match outcome.fault with
    | none => ⟨0, outcome.printed, "", outcome.files⟩
    | some fault => ⟨1, outcome.printed, errorLine fault, outcome.files⟩

end Program

end InteractiveMarkov
