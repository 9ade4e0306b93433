/-
  Libraries of GLSL files.

  A library holds files by path.  A file is asked for by an include path, which is cleaned first; paths
  that leave the library or still hold a token are refused.  Several libraries form a search path, in
  which the first library that has the file wins.
-/
import ShadeGraph.Library.Physical
import ShadeGraph.Library.Standard
import ShadeGraph.Text.Path
import ShadeGraph.Text.Quoted
import ShadeGraph.Text.Sorting

namespace ShadeGraph

/-- Where the files of a library are kept. -/
inductive Storage where
  /-- They are part of this program. -/
  | builtIn
  /-- They were handed over. -/
  | given
  deriving DecidableEq, Repr

/-- Files by path. -/
structure Library where
  storage : Storage
  files : List (Text × Text)
  deriving DecidableEq, Repr

/-- Libraries in the order in which they are searched. -/
abbrev SearchPath := List Library

/-- Why a library has no file to give. -/
inductive LibraryError where
  | emptyPath
  /-- The path holds a token that nothing has been put in for. -/
  | unresolvedToken (path : Text)
  /-- The path leads out of the library, or is no path. -/
  | outside (path : Text)
  /-- There is no file of that path. -/
  | missing (path cleaned : Text)
  /-- The path leads to a directory. -/
  | directory (path cleaned : Text) (storage : Storage)
  deriving DecidableEq, Repr

/-- Why a search path has no file to give. -/
inductive IncludeError where
  /-- There is no library to look into. -/
  | noLibrary (path : Text)
  /-- Each library refused, in the order of the search path. -/
  | refused (errors : List LibraryError)
  deriving DecidableEq, Repr

/-- What is said of reading a directory. -/
def Storage.directoryMessage : Storage → Text
  | .builtIn => "is a directory"
  | .given => "invalid argument"

/-- The message of a library error. -/
def LibraryError.message : LibraryError → Text
  | .emptyPath => "glsllib: empty include path"
  | .unresolvedToken p => "glsllib: unresolved token in include path " ++ p.quoted
  | .outside p => "glsllib: invalid include path " ++ p.quoted
  | .missing p c => "glsllib: include " ++ p.quoted ++ ": open " ++ c ++ ": file does not exist"
  | .directory p c s =>
    "glsllib: include " ++ p.quoted ++ ": read " ++ c ++ ": " ++ s.directoryMessage

/-- The message of an include error. -/
def IncludeError.message : IncludeError → Text
  | .noLibrary p => "glsllib: include " ++ p.quoted ++ ": no includers"
  | .refused es => Text.joinWith "\n" (es.map LibraryError.message)

namespace Library

/-- The library that is part of this program. -/
def builtIn : Library := ⟨.builtIn, Physical.files ++ Standard.files⟩

/-- A library of given files. -/
def ofFiles (files : List (Text × Text)) : Library := ⟨.given, files⟩

/-- The byte that starts a token. -/
def tokenMark : UInt8 := 36

/-- The path of a file in a library, from an include path. -/
def cleanPath (path : Text) : Except LibraryError Text :=
  if path = [] then .error .emptyPath
  else if path.contains tokenMark then .error (.unresolvedToken path)
  else
    let cleaned := Text.clean (if path.head? = some Text.slash then path.drop 1 else path)
    if Text.isPlain cleaned then .ok cleaned else .error (.outside path)

/-- Whether a path leads to a directory. -/
def isDirectory (l : Library) (p : Text) : Bool :=
  p == Text.here || l.files.any fun f => (p ++ [Text.slash]).isPrefixOf f.1

/-- The file of an include path. -/
def read (l : Library) (path : Text) : Except LibraryError Text :=
  match cleanPath path with
  | .error e => .error e
  | .ok cleaned =>
    match l.files.lookup cleaned with
    | some content => .ok content
    | none =>
      if l.isDirectory cleaned then .error (.directory path cleaned l.storage)
      else .error (.missing path cleaned)

/-! ## The paths of a library -/

/-- The order of paths: element by element, each in byte order, and a directory before what is below
it. -/
def pathLe : List Text → List Text → Bool
  | [], _ => true
  | _ :: _, [] => false
  | a :: p, b :: q => if a = b then pathLe p q else Text.le a b

/-- The extension of the files of a library. -/
def fileExtension : Text := ".glsl"

/-- Whether a file can be reached: no file stands where the path needs a directory. -/
def isReachable (l : Library) (path : Text) : Bool :=
  l.files.all fun f => !(f.1 ++ [Text.slash]).isPrefixOf path

/-- The paths of the library's shader files, directory by directory. -/
def paths (l : Library) : List Text :=
  Sorting.sort (fun a b => pathLe (Text.splitOn Text.slash a) (Text.splitOn Text.slash b))
    ((l.files.map Prod.fst).filter fun p => l.isReachable p && Text.extension p == fileExtension)

end Library

namespace SearchPath

/-- The built-in library alone. -/
def standard : SearchPath := [.builtIn]

/-- Reads from the first library that has the file; `refused` holds what the libraries before said. -/
def readFrom (path : Text) (refused : List LibraryError) :
    List Library → Except (List LibraryError) Text
  | [] => .error refused
  | l :: rest =>
    match l.read path with
    | .ok content => .ok content
    | .error e => readFrom path (refused ++ [e]) rest

/-- The file of an include path in the first library that has it. -/
def read (s : SearchPath) (path : Text) : Except IncludeError Text :=
  match readFrom path [] s with
  | .ok content => .ok content
  | .error [] => .error (.noLibrary path)
  | .error es => .error (.refused es)

end SearchPath
end ShadeGraph
