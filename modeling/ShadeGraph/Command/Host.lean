/-
  What a command needs of its surroundings.

  A command reads and writes files and keeps fragments in a cache.  It does so through a record of
  operations, so that the same command runs on real files and on a disk that is a value.
-/
import ShadeGraph.Cache.Basic

namespace ShadeGraph

/-- What is done to a file. -/
inductive FileOperation where
  | opening
  | reading
  | makingDirectory
  deriving DecidableEq, Repr

/-- The name of a file operation. -/
def FileOperation.name : FileOperation → Text
  | .opening => "open"
  | .reading => "read"
  | .makingDirectory => "mkdir"

/-- Why a file operation fails. -/
inductive FileCause where
  | missing
  | notDirectory
  | isDirectory
  | alreadyThere
  | nameTooLong
  /-- The path holds a byte that no path may hold. -/
  | invalidPath
  | other (details : Text)
  deriving DecidableEq, Repr

/-- The words for a cause. -/
def FileCause.message : FileCause → Text
  | .missing => "no such file or directory"
  | .notDirectory => "not a directory"
  | .isDirectory => "is a directory"
  | .alreadyThere => "file exists"
  | .nameTooLong => "file name too long"
  | .invalidPath => "invalid argument"
  | .other details => details

/-- A file operation that failed. -/
structure FileError where
  operation : FileOperation
  path : Text
  cause : FileCause
  deriving DecidableEq, Repr

/-- The message of a file error. -/
def FileError.message (e : FileError) : Text :=
  e.operation.name ++ " " ++ e.path ++ ": " ++ e.cause.message

/-- The surroundings of a command. -/
structure Host (m : Type → Type) where
  /-- The content of a file. -/
  read : Text → m (Except FileError Text)
  /-- Makes a directory and those above it, as far as they are missing. -/
  makeDirectories : Text → m (Except FileError Unit)
  /-- Writes a file, in place of what it held. -/
  write : Text → Text → m (Except FileError Unit)
  /-- The table of the cache at a path, which is made if it is missing; nothing if there can be no cache
  at the path. -/
  openCache : Text → m (Option FragmentTable)
  /-- Keeps a table at the path of an opened cache. -/
  saveCache : Text → FragmentTable → m Unit

namespace Host

/-- The path of a cache that lasts as long as it is open. -/
def memoryCache : Text := ":memory:"

end Host
end ShadeGraph
