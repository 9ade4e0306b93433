/-
  TOML documents as they are built up.

  A document is a table of values by key.  Building one up follows the statements from top to bottom: a
  key and its value go into the table that is current, and a header makes another table current.  Along
  with the tables the builder keeps

    * the keys in the order in which they were written, each with the path that leads to it,
    * the paths that were only passed on the way to a longer one; what stands there may still be given a
      statement of its own, once,
    * the paths whose value is an array; a statement for a passed path takes the place of an array there,
      with all that it held, and leaves a table as it is,
    * the paths where the members of an inline table took such a place; from then on they are one table
      with that of the document, so that what is added to either is in both.

  Every operation fails with `none` when a statement contradicts an earlier one.
-/
import ShadeGraph.Toml.Scalar

namespace ShadeGraph.Toml

/-- A value of a document. -/
inductive Value where
  | scalar (s : Scalar)
  | array
  /-- A table, its entries in the order of their definition. -/
  | table (entries : List (Text × Value))
  /-- The tables of one repeated header, the latest first. -/
  | tables (latest : List (Text × Value)) (earlier : List (List (Text × Value)))

/-- The entries of a table. -/
abbrev Table := List (Text × Value)

/-- The keys that lead from the root of a document to a value. -/
abbrev Path := List Text

namespace Table

/-- The value of a key. -/
def get? (t : Table) (key : Text) : Option Value := t.lookup key

/-- The table with the value of one key set, at the end for a new key. -/
def set (key : Text) (v : Value) : Table → Table
  | [] => [(key, v)]
  | e :: rest => if e.1 = key then (key, v) :: rest else e :: set key v rest

/-- Sets the value at the end of a path, with a table for every key on the way; `none` when such a key
has another value. -/
def setThrough? (v : Value) : Path → Table → Option Table
  | [], t => some t
  | [key], t => some (set key v t)
  | key :: path, t =>
    match get? t key with
    | none => (setThrough? v path []).map fun inner => set key (.table inner) t
    | some (.table inner) => (setThrough? v path inner).map fun inner => set key (.table inner) t
    | some _ => none

/-- The table at a path; a repeated header leads to its latest table. -/
def tableAt? : Path → Table → Option Table
  | [], t => some t
  | key :: path, t =>
    match get? t key with
    | some (.table inner) => tableAt? path inner
    | some (.tables latest _) => tableAt? path latest
    | _ => none

/-- Changes the table at a path, if there is one. -/
def modifyAt (f : Table → Table) : Path → Table → Table
  | [], t => f t
  | key :: path, t =>
    match get? t key with
    | some (.table inner) => set key (.table (modifyAt f path inner)) t
    | some (.tables latest earlier) => set key (.tables (modifyAt f path latest) earlier) t
    | _ => t

end Table

/-- A document that is being built up. -/
structure Builder where
  root : Table
  /-- The written keys, the latest first. -/
  written : List Path
  /-- The paths that were passed without a statement of their own. -/
  implicit : List Path
  /-- The paths whose value is an array. -/
  arrays : List Path
  /-- The paths where the members of an inline table and the document have one table in common. -/
  shared : List Path
  /-- The path of the current table. -/
  context : Path

namespace Builder

/-- Nothing has been read. -/
def empty : Builder := ⟨[], [], [], [], [], []⟩

/-- Marks a path as one that was only passed. -/
def markImplicit (b : Builder) (p : Path) : Builder := { b with implicit := p :: b.implicit }

/-- Marks a path as one with a statement of its own. -/
def markExplicit (b : Builder) (p : Path) : Builder :=
  { b with implicit := b.implicit.filter (· != p) }

/-- Writes down a key. -/
def write (b : Builder) (p : Path) : Builder := { b with written := p :: b.written }

/-- The path that a kind of value is remembered under: an empty key stands for the current table. -/
def kindPath (b : Builder) (key : Text) : Path :=
  if key ≠ [] then b.context ++ [key] else if b.context = [] then [[]] else b.context

/-- Remembers whether the value of a key in the current table is an array. -/
def setKind (b : Builder) (key : Text) (isArray : Bool) : Builder :=
  let p := b.kindPath key
  let others := b.arrays.filter (· != p)
  { b with arrays := if isArray then p :: others else others }

/-- Sets the value of a key in the table at a path; nothing that was shared there stays so. -/
def setAt (b : Builder) (p : Path) (key : Text) (v : Value) : Builder :=
  { b with
    root := b.root.modifyAt (Table.set key v) p
    shared := b.shared.filter fun s => !(p ++ [key]).isPrefixOf s }

/-- Marks the table at a path as one that members of an inline table have in common with the document. -/
def markShared (b : Builder) (p : Path) : Builder := { b with shared := p :: b.shared }

/-- Splits a path behind `start` at the first shared table that it goes through. -/
def splitShared? (b : Builder) (start : Path) : Path → Option (Path × Path)
  | [] => none
  | [_] => none
  | key :: path =>
    let p := start ++ [key]
    if b.shared.contains p then some ([key], path)
    else (b.splitShared? p path).map fun (front, rest) => (key :: front, rest)

/-- Adds the value of a path to the members of the current inline table.  Behind a shared table it is
added to that one, which the members and the document have in common. -/
def addMember (b : Builder) (members : Table) (path : Path) (v : Value) : Option (Table × Builder) :=
  match b.splitShared? b.context path with
  | none => (members.setThrough? v path).map fun members => (members, b)
  | some (front, rest) => do
    let p := b.context ++ front
    let t ← (← b.root.tableAt? p).setThrough? v rest
    let members ← members.setThrough? (.table t) front
    return (members, { b with root := b.root.modifyAt (fun _ => t) p })

/-- Puts a value under a key of the current table.  A key that has a value may be given another one only
when its path was passed: an array gives way to the new value, and anything else stays as it is. -/
def put (b : Builder) (key : Text) (v : Value) : Option Builder :=
  let p := b.context ++ [key]
  (b.root.tableAt? b.context).bind fun t =>
    if (t.get? key).isNone then some (b.setAt b.context key v)
    else if !b.implicit.contains p then none
    else if b.arrays.contains p then some ((b.setAt b.context key v).markExplicit p)
    else some (b.markExplicit p)

/-- Puts the value that a statement gives a key of the current table.  The key of an inline table has been
passed already, so that its members take the place of an array if there is one. -/
def assign (b : Builder) (key : Text) (v : Value) : Option Builder :=
  let p := b.context ++ [key]
  (b.put key v).map fun b =>
    match v with
    | .table _ => if b.arrays.contains p then b.markShared p else b
    | _ => b

/-- Makes sure that there is a table at every step of a path that goes on from `start`. -/
def enter (b : Builder) (start : Path) : Path → Option Builder
  | [] => some b
  | key :: rest =>
    let p := start ++ [key]
    (b.root.tableAt? start).bind fun t =>
      match t.get? key with
      | none => enter ((b.setAt start key (.table [])).markImplicit p) p rest
      | some (.table _) | some (.tables _ _) => enter b p rest
      | some _ => none

/-- Makes the table of a path current, as a table of its own. -/
def openTable (b : Builder) (p : Path) : Option Builder := do
  let b ← b.enter [] p.dropLast
  let b ← { b with context := p.dropLast }.put (p.getLastD []) (.table [])
  return { b with context := p }

/-- Makes a further table of a repeated header current. -/
def openRepeated (b : Builder) (p : Path) : Option Builder := do
  let key := p.getLastD []
  let b ← b.enter [] p.dropLast
  let t ← b.root.tableAt? p.dropLast
  let v ← match t.get? key with
    | none => some (Value.tables [] [])
    | some (.tables latest earlier) => some (.tables [] (latest :: earlier))
    | some _ => none
  return { b.setAt p.dropLast key v with context := p }

/-- Makes the table of a path current on the way to a longer path. -/
def passThrough (b : Builder) (p : Path) : Option Builder := (b.markImplicit p).openTable p

/-- Steps from the current table through the keys of a dotted path. -/
def passAll (b : Builder) : Path → Option Builder
  | [] => some b
  | key :: rest => (b.passThrough (b.context ++ [key])).bind fun b => passAll b rest

end Builder

/-- A document: its values, and its keys in the order in which they were written. -/
structure Document where
  root : Table
  keys : List Path

/-- The document that has been built up. -/
def Builder.finish (b : Builder) : Document := ⟨b.root, b.written.reverse⟩

end ShadeGraph.Toml
