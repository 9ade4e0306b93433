/-
  A disk that is a value.

  A disk holds files, directories and caches below a working directory.  Paths are followed element by
  element as an operating system does it: every element but the last has to be a directory that is there,
  also in front of `..`.  What lies outside the working directory is empty.
-/
import ShadeGraph.Command.Host
import ShadeGraph.Text.Path

namespace ShadeGraph

/-- What stands at a place of a disk. -/
inductive DiskEntry where
  | directory
  | file (content : Text)
  | cache (table : FragmentTable)
  deriving DecidableEq, Repr

/-- The way from the working directory to a place. -/
abbrev Location := List Text

/-- A disk: what stands where, the working directory itself left out. -/
structure Disk where
  entries : List (Location × DiskEntry)
  deriving DecidableEq, Repr

namespace Disk

/-- The disk with nothing on it. -/
def empty : Disk := ⟨[]⟩

/-- The place above everything. -/
def top : Location := [[Text.slash]]

/-- The working directory, and those above it. -/
def isGiven (l : Location) : Bool := l == top || l.all (· == Text.above)

/-- What stands at a place. -/
def entry? (d : Disk) (l : Location) : Option DiskEntry :=
  if isGiven l then some .directory else (d.entries.find? (·.1 == l)).map (·.2)

/-- The disk with something at a place, instead of what was there. -/
def set (d : Disk) (l : Location) (e : DiskEntry) : Disk :=
  ⟨d.entries.filter (·.1 != l) ++ [(l, e)]⟩

/-- The place above a place. -/
def parent (l : Location) : Location :=
  if l == top then top
  else if l.all (· == Text.above) then l ++ [Text.above]
  else l.dropLast

/-- The longest name of a file. -/
def maxName : Nat := 255

/-- Follows path elements from a directory on.  The last element may be missing. -/
def follow (d : Disk) : Location → List Text → Except FileCause Location
  | here, [] => .ok here
  | here, e :: rest =>
    match d.entry? here with
    | none => .error .missing
    | some .directory =>
      if e = [] ∨ e = Text.here then follow d here rest
      else if e = Text.above then follow d (parent here) rest
      else if maxName < e.length then .error .nameTooLong
      else follow d (here ++ [e]) rest
    | some _ => .error .notDirectory

/-- The place that a path leads to. -/
def locate (d : Disk) (path : Text) : Except FileCause Location :=
  if path.contains 0 then .error .invalidPath
  else if path = [] then .error .missing
  else follow d (if path.head? = some Text.slash then top else []) (Text.splitOn Text.slash path)

/-- What a path leads to. -/
def status (d : Disk) (path : Text) : Except FileCause DiskEntry :=
  match d.locate path with
  | .error c => .error c
  | .ok l =>
    match d.entry? l with
    | none => .error .missing
    | some e => .ok e

/-! ## Operations on files -/

/-- What a reader of files makes of a cache: bytes that are neither a graph nor an options file. -/
def cacheBytes : Text := [0]

/-- The content of a file. -/
def read (d : Disk) (path : Text) : Except FileError Text :=
  match d.status path with
  | .error c => .error ⟨.opening, path, c⟩
  | .ok .directory => .error ⟨.reading, path, .isDirectory⟩
  | .ok (.file content) => .ok content
  | .ok (.cache _) => .ok cacheBytes

/-- The disk with a file written. -/
def write (d : Disk) (path content : Text) : Except FileError Disk :=
  match d.locate path with
  | .error c => .error ⟨.opening, path, c⟩
  | .ok l =>
    if d.entry? l = some .directory then .error ⟨.opening, path, .isDirectory⟩
    else .ok (d.set l (.file content))

/-- The disk with one more directory.  Slashes at the end of the path mean nothing here. -/
def makeDirectory (d : Disk) (path : Text) : Except FileCause Disk :=
  match d.locate (Text.dropTrailing Text.slash path) with
  | .error c => .error c
  | .ok l => if (d.entry? l).isSome then .error .alreadyThere else .ok (d.set l .directory)

/-- A path without its last element, up to and with the slash in front of that. -/
def pathAbove (path : Text) : Text :=
  ((Text.dropTrailing Text.slash path).reverse.dropWhile (· != Text.slash)).reverse

/-- Makes directories from the outermost on; `fuel` bounds how many there are.  Directories that were made
before something fails stay. -/
def makeWithin : Nat → Text → Disk → Except FileError Unit × Disk
  | 0, path, d => (.error ⟨.makingDirectory, path, .nameTooLong⟩, d)
  | fuel + 1, path, d =>
    match d.status path with
    | .ok .directory => (.ok (), d)
    | .ok _ => (.error ⟨.makingDirectory, path, .notDirectory⟩, d)
    | .error _ =>
      let (above, d) :=
        if pathAbove path = [] then (.ok (), d) else makeWithin fuel (pathAbove path) d
      match above with
      | .error e => (.error e, d)
      | .ok _ =>
        match d.makeDirectory path with
        | .ok d => (.ok (), d)
        | .error c =>
          match d.status path with
          | .ok .directory => (.ok (), d)
          | _ => (.error ⟨.makingDirectory, path, c⟩, d)

/-- Makes a directory and those above it. -/
def makeDirectories (d : Disk) (path : Text) : Except FileError Unit × Disk :=
  makeWithin (path.length + 1) path d

/-! ## Caches

The tables of caches are kept by a store.  The one that is given here keeps a table in a file, and uses two
places beside it while it works.  A directory at one of them is in its way, and anything else there it takes
for its own leftovers. -/

/-- What keeps the tables of caches on a disk. -/
structure CacheStore where
  /-- The table of the cache at a path, which is made if it is missing; nothing if there can be none. -/
  openCache : Text → Disk → Option FragmentTable × Disk
  /-- Keeps a table at the path of an opened cache. -/
  saveCache : Text → FragmentTable → Disk → Disk

/-- The name of a cache, without a query behind it. -/
def cacheName (path : Text) : Text :=
  let name := path.takeWhile (· != 63)
  if name = [] then path else name

/-- The place of a cache, whose path is cleaned before it is followed. -/
def locateCache (d : Disk) (path : Text) : Option Location :=
  (d.locate (Text.clean (cacheName path))).toOption

/-- What the names of the files beside a cache end with. -/
def sideSuffixes : List Text := ["-journal", "-wal"]

/-- The places beside a cache that are used with it. -/
def sidePlaces (l : Location) : List Location :=
  sideSuffixes.map fun suffix => l.dropLast ++ [l.getLastD [] ++ suffix]

/-- The disk without what stands at places. -/
def clear (d : Disk) (places : List Location) : Disk := ⟨d.entries.filter fun e => !places.contains e.1⟩

/-- The table of the cache that stands at a place; that of a missing or empty file is empty. -/
def tableIn : Option DiskEntry → Option FragmentTable
  | none | some (.file []) => some .empty
  | some (.cache t) => some t
  | some _ => none

/-- The table of a cache, which is there afterwards.  Where a directory is in the way a missing file becomes an
empty one. -/
def openCache (d : Disk) (path : Text) : Option FragmentTable × Disk :=
  if cacheName path = Host.memoryCache then (some .empty, d)
  else
    match d.locateCache path with
    | none => (none, d)
    | some l =>
      if (sidePlaces l).any fun m => d.entry? m == some .directory then
        (none, if (d.entry? l).isNone then d.set l (.file []) else d)
      else
        match tableIn (d.entry? l) with
        | none => (none, d)
        | some t => (some t, (d.clear (sidePlaces l)).set l (.cache t))

/-- Keeps a table as the cache at a path. -/
def saveCache (d : Disk) (path : Text) (t : FragmentTable) : Disk :=
  if cacheName path = Host.memoryCache then d
  else
    match d.locateCache path with
    | none => d
    | some l => d.set l (.cache t)

/-- A store that keeps every cache in a file of its own. -/
def fileStore : CacheStore where
  openCache path d := d.openCache path
  saveCache path t d := d.saveCache path t

/-- The disk with the table of the cache at a path changed, if there is one. -/
def modifyCache (d : Disk) (path : Text) (f : FragmentTable → FragmentTable) : Disk :=
  match d.locateCache path with
  | none => d
  | some l =>
    match d.entry? l with
    | some (.cache t) => d.set l (.cache (f t))
    | _ => d

/-! ## The disk as the surroundings of a command -/

/-- The disk with a file and the directories above it, as far as they can be made. -/
def place (d : Disk) (path content : Text) : Disk :=
  let d := if pathAbove path = [] then d else (d.makeDirectories (pathAbove path)).2
  (d.write path content).toOption.getD d

/-- The path of a place. -/
def pathOf (l : Location) : Text := Text.joinWith [Text.slash] l

/-- The files whose path has an extension, with their content. -/
def filesWith (d : Disk) (extension : Text) : List (Text × Text) :=
  d.entries.filterMap fun
    | (l, .file content) =>
      if Text.extension (pathOf l) = extension then some (pathOf l, content) else none
    | _ => none

/-- The disk without the files whose path has an extension. -/
def withoutFiles (d : Disk) (extension : Text) : Disk :=
  ⟨d.entries.filter fun
    | (l, .file _) => Text.extension (pathOf l) != extension
    | _ => true⟩

/-- Commands that run on a disk, with caches that a store keeps. -/
def hostWith (store : CacheStore) : Host (StateM Disk) where
  read path := fun d => (d.read path, d)
  makeDirectories path := fun d => d.makeDirectories path
  write path content := fun d =>
    match d.write path content with
    | .ok d => (.ok (), d)
    | .error e => (.error e, d)
  openCache path := fun d => store.openCache path d
  saveCache path t := fun d => ((), store.saveCache path t d)

/-- Commands that run on a disk with caches in files. -/
def host : Host (StateM Disk) := hostWith fileStore

end Disk
end ShadeGraph
