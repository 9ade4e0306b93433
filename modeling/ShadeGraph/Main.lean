/-
  The command line.

  The command runs on the files of the system.  A fault in the arguments ends it with code 2 and the usage,
  any other failure with code 1 and its message.
-/
import ShadeGraph.Cache.File
import ShadeGraph.Command.Arguments

namespace ShadeGraph.CommandLine

/-- A text as the system takes it. -/
def systemString (t : Text) : String := t.toString?.getD ""

/-- The cause of a failure that the system reports. -/
def causeOf : IO.Error → FileCause
  | .noFileOrDirectory .. => .missing
  | .alreadyExists .. => .alreadyThere
  | .inappropriateType _ 20 _ => .notDirectory
  | .inappropriateType _ 21 _ => .isDirectory
  | e => .other (Text.ofString e.toString)

/-- Does something with a file of the system. -/
def guarded {α : Type} (operation : FileOperation) (path : Text) (act : IO α) :
    IO (Except FileError α) := do
  try return .ok (← act)
  catch e => return .error ⟨operation, path, causeOf e⟩

/-- The content of a file. -/
def contentOf (path : Text) : IO Text := do
  return (← IO.FS.readBinFile (systemString path)).data.toList

/-- Writes a file. -/
def replaceContent (path content : Text) : IO Unit :=
  IO.FS.writeBinFile (systemString path) ⟨content.toArray⟩

/-- The table of the cache at a path. -/
def openCache (path : Text) : IO (Option FragmentTable) := do
  if path = Host.memoryCache then return some .empty
  match ← guarded .opening path (contentOf path) with
  | .ok content => return FragmentTable.ofFile? content
  | .error e =>
    if e.cause ≠ .missing then return none
    match ← guarded .opening path (replaceContent path FragmentTable.empty.toFile) with
    | .ok _ => return some .empty
    | .error _ => return none

/-- Keeps a table at the path of a cache; a cache that cannot be written stays as it is. -/
def saveCache (path : Text) (t : FragmentTable) : IO Unit := do
  if path ≠ Host.memoryCache then
    let _ ← guarded .opening path (replaceContent path t.toFile)

/-- The error of a file that opens and cannot be read, and of a file where a directory should be. -/
def adjusted (e : FileError) : FileError :=
  match e.operation, e.cause with
  | .opening, .isDirectory => { e with operation := .reading }
  | .makingDirectory, .alreadyThere => { e with cause := .notDirectory }
  | _, _ => e

/-- The system as the surroundings of the command. -/
def host : Host IO where
  read path := return (← guarded .opening path (contentOf path)).mapError adjusted
  makeDirectories path :=
    return (← guarded .makingDirectory path (IO.FS.createDirAll (systemString path))).mapError adjusted
  write path content := guarded .opening path (replaceContent path content)
  openCache path := openCache path
  saveCache path t := saveCache path t

/-- The message of an error, also of those without a text of their own. -/
def messageOf (e : CommandError) : Text :=
  e.message?.getD
    (match e with
    | .options path _ => path ++ ": malformed options file"
    | .cache path => path ++ ": no cache"
    | _ => "malformed graph")

/-- Runs the command with arguments, and gives its exit code. -/
def execute (arguments : List Text) : IO UInt32 := do
  match Invocation.ofArguments {} arguments with
  | .error e =>
    let message : Text := (e.message?.map fun m => m ++ [10]).getD []
    IO.eprint (systemString (message ++ Invocation.usage))
    return if e = .help then 0 else 2
  | .ok i =>
    match ← (i.run host).run with
    | .ok _ => return 0
    | .error e =>
      IO.eprintln (systemString ("ogsfrag: " ++ messageOf e))
      return 1

end ShadeGraph.CommandLine

/-- The command line of the fragment generator. -/
def main (arguments : List String) : IO UInt32 :=
  ShadeGraph.CommandLine.execute (arguments.map ShadeGraph.Text.ofString)
