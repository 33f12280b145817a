import InteractiveMarkov.Error
import InteractiveMarkov.Text.Line

/-!
Files and directories. A path is a text of names between slashes, where `.` stays and `..` goes one
directory up; it starts from the working directory, or from the root if it begins with a slash.
Every entry stands under its location, the list of the names that lead to it; the directory above
an entry is an entry too. The working directory has the empty location; it and the directories
above it always exist.

Where the working directory itself stands below the root is not known. The two are taken to be
apart: a file has names from the working directory or from the root, and not both. A run whose
paths mix the two for one file is outside of what is described here.
-/

set_option autoImplicit false

namespace InteractiveMarkov

/-- The way from the working directory, first up and then down, or from the root, whose name is a
    slash. -/
abbrev Location := List String

inductive Entry where
  | file (contents : ByteArray)
  | directory

abbrev FileSystem := Std.ExtTreeMap Location Entry compare

namespace Path

def root : String := "/"

/-- The names of a path; a path from the root names it first. -/
def names (path : String) : List String :=
  (if path.toList.head? = some '/' then [root] else [])
    ++ ((Text.splitAtMark '/' path.toList).filter (! ·.isEmpty)).map String.ofList

def endsInSlash (path : String) : Bool := path.toList.getLast? == some '/'

/-- The name of the file, which is the last name unless that goes up. -/
def fileName? (path : String) : Option String :=
  ((names path).filter (· != ".")).getLast?.filter (· != "..")

/-- What follows the last dot of the file's name, if something stands before that dot. -/
def extension? (path : String) : Option String := do
  let name := (← fileName? path).toList.reverse
  let after := name.takeWhile (· != '.')
  if (name.drop (after.length + 1)).isEmpty then none else some (String.ofList after.reverse)

def isAbove (location : Location) : Bool := location.all (· == "..")

def step (location : Location) (name : String) : Location :=
  if name = "." then location
  else if name = ".." ∧ !isAbove location then
    if location = [root] then location else location.dropLast
  else location ++ [name]

def withSuffix (path extension : String) : String := path ++ "." ++ extension

end Path

namespace FileSystem

/-- Puts an entry in, with the directories that lead to it. -/
def place (fs : FileSystem) (location : Location) (entry : Entry) : FileSystem :=
  ((List.range' 1 (location.length - 1)).foldl
    (fun fs n => fs.insert (location.take n) .directory) fs).insert location entry

def ofList (entries : List (String × Entry)) : FileSystem :=
  entries.foldl (fun fs (path, entry) => fs.place (Path.names path) entry) ∅

def isDirectory (fs : FileSystem) (location : Location) : Bool :=
  Path.isAbove location || match fs[location]? with
    | some .directory => true
    | _ => false

def follow (fs : FileSystem) (location : Location) : List String → Except AccessFault Location
  | [] => .ok location
  | name :: rest =>
    if fs.isDirectory location then fs.follow (Path.step location name) rest
    else .error (if fs.contains location then .notDirectory else .notFound)

/-- The location that a path leads to, whether or not something stands there. -/
def locate (fs : FileSystem) (path : String) : Except AccessFault Location :=
  if path = "" then .error .notFound else fs.follow [] (Path.names path)

def find (fs : FileSystem) (path : String) : Except AccessFault Entry := do
  let location ← fs.locate path
  if fs.isDirectory location then .ok .directory
  else
    match fs[location]? with
    | none => .error .notFound
    | some entry => if Path.endsInSlash path then .error .notDirectory else .ok entry

def pathExists (fs : FileSystem) (path : String) : Bool := (fs.find path).toBool

def read (fs : FileSystem) (path : String) : Except AccessFault ByteArray :=
  match fs.find path with
  | .ok (.file contents) => .ok contents
  | .ok .directory => .error .isDirectory
  | .error fault => .error fault

/-- The location of a file to be written: its directory exists, and it is no directory. -/
def writable (fs : FileSystem) (path : String) : Except AccessFault Location := do
  let location ← fs.locate path
  if fs.isDirectory location || Path.endsInSlash path then .error .isDirectory
  else .ok location

/-- Makes an empty file, or empties the one that is there, and gives its location. -/
def create (fs : FileSystem) (path : String) : Except AccessFault (FileSystem × Location) := do
  let location ← fs.writable path
  .ok (fs.insert location (.file ByteArray.empty), location)

def remove (fs : FileSystem) (path : String) : Except AccessFault FileSystem := do
  match ← fs.find path with
  | .directory => .error .isDirectory
  | .file _ => .ok (fs.erase (← fs.locate path))

end FileSystem

end InteractiveMarkov
