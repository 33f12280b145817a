import InteractiveMarkov.Program

set_option autoImplicit false

namespace InteractiveMarkov.Machine

def look (path : String) : IO (Option Entry) := do
  try
    return some (.file (← IO.FS.readBinFile path))
  catch fault =>
    match fault with
    | .inappropriateType .. => return some .directory
    | _ => return none

def pathOf (location : Location) : String :=
  match location with
  | root :: names => if root = Path.root then Path.root ++ "/".intercalate names
    else "/".intercalate location
  | [] => "."

/-- Looks up what names lead to, as long as there are directories. -/
def lookAll (fs : FileSystem) (above : Location) : List String → IO FileSystem
  | [] => return fs
  | name :: rest => do
    let location := Path.step above name
    if fs.isDirectory location then lookAll fs location rest
    else
      match ← look (pathOf location) with
      | some .directory => lookAll (fs.insert location .directory) location rest
      | some entry => return fs.insert location entry
      | none => return fs

def snapshot (paths : List String) : IO FileSystem :=
  paths.foldlM (fun fs path => lookAll fs [] (Path.names path)) ∅

def carry (before after : FileSystem) (location : Location) : IO Unit := do
  match before[location]?, after[location]? with
  | some (.file _), none => IO.FS.removeFile (pathOf location)
  | some (.file old), some (.file new) =>
    unless old == new do IO.FS.writeBinFile (pathOf location) new
  | none, some (.file new) => IO.FS.writeBinFile (pathOf location) new
  | _, _ => return ()

end InteractiveMarkov.Machine

def main (arguments : List String) : IO UInt32 := do
  let home ← IO.getEnv "HOME"
  let paths := InteractiveMarkov.Program.paths arguments home
  let before ← InteractiveMarkov.Machine.snapshot paths
  let run := InteractiveMarkov.Program.run arguments home before
  for location in (before.keys ++ run.files.keys).eraseDups do
    InteractiveMarkov.Machine.carry before run.files location
  IO.print run.output
  IO.eprint run.errors
  return run.exit
