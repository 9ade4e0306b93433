/-
  Reading a CBOR encoding.

  Any well-formed encoding is read, with lengths given in front or ended by a break.  Arrays and maps
  nest at most 32 deep, where a tag directly inside another tag counts as a level too, and hold at most
  131072 elements or pairs.  The whole input has to be one item.
-/
import ShadeGraph.Cbor.Item

namespace ShadeGraph.Cbor

/-- The deepest nesting that is read. -/
def maxDepth : Nat := 32

/-- The largest number of array elements or of map pairs that is read. -/
def maxElements : Nat := 131072

/-- The first byte of an item split up, with its argument; no argument means that a break ends it. -/
structure Head where
  major : Nat
  info : Nat
  argument : Option Nat
  deriving DecidableEq, Repr

/-- The first `n` bytes, if there are as many, and the rest. -/
def takeExactly (n : Nat) (t : Text) : Option (Text × Text) :=
  if t.length < n then none else some (t.take n, t.drop n)

/-- The number in the first `n` bytes, the highest first. -/
def takeNumber (n : Nat) (t : Text) : Option (Nat × Text) :=
  (takeExactly n t).map fun (b, rest) => (ofBigEndian b, rest)

/-- Reads the argument that the low five bits of the first byte announce. -/
def readArgument (info : Nat) (rest : Text) : Option (Option Nat × Text) :=
  let number (n : Nat) := (takeNumber n rest).map fun (v, rest) => (some v, rest)
  if info < 24 then some (some info, rest)
  else if info = 24 then number 1
  else if info = 25 then number 2
  else if info = 26 then number 4
  else if info = 27 then number 8
  else if info = 31 then some (none, rest)
  else none

/-- Whether a head stands for something: only strings, arrays and maps can be ended by a break, and a
simple value below 32 takes a single byte. -/
def Head.isAdmissible (h : Head) : Bool :=
  match h.argument with
  | none => 2 ≤ h.major && h.major ≤ 5
  | some n => !(h.major == 7 && h.info == 24 && n < 32)

/-- Reads the head of an item. -/
def readHead : Text → Option (Head × Text)
  | [] => none
  | b :: rest => do
    let info := b.toNat % 32
    let (argument, rest) ← readArgument info rest
    let h : Head := ⟨b.toNat / 32, info, argument⟩
    if h.isAdmissible then some (h, rest) else none

/-- The byte that ends an item of open length. -/
def breakByte : UInt8 := 0xFF

/-- Reads the chunks of a string of open length: definite strings of the same kind, up to a break. -/
def readChunks (major : Nat) : Nat → Text → Option (List Text × Text)
  | 0, _ => none
  | fuel + 1, t =>
    if t.head? = some breakByte then some ([], t.tail)
    else do
      let (h, rest) ← readHead t
      if h.major ≠ major then none
      else do
        let n ← h.argument
        let (chunk, rest) ← takeExactly n rest
        let (chunks, rest) ← readChunks major fuel rest
        some (chunk :: chunks, rest)

/-- The item of a string's chunks. -/
def stringItem (major : Nat) (chunks : List Text) : Item :=
  if major = 2 then .bytes chunks.flatten
  else if chunks.all Text.isUtf8 then .text chunks.flatten
  else .garbled

/-- Keys and values in pairs; nothing for an odd number of items. -/
def pairs? : List Item → Option (List (Item × Item))
  | [] => some []
  | [_] => none
  | k :: v :: rest => (pairs? rest).map ((k, v) :: ·)

/-- The item of an array's or map's elements, unless there are too many. -/
def collectionItem (major : Nat) (items : List Item) : Option Item :=
  if major = 4 then
    if maxElements < items.length then none else some (.array items)
  else do
    let entries ← pairs? items
    if maxElements < entries.length then none else some (.map entries)

/-- The item of major type 7 with a given head. -/
def simpleItem (info n : Nat) : Item :=
  if info = 25 then .half (UInt16.ofNat n)
  else if info = 26 then .single (UInt32.ofNat n)
  else if info = 27 then .double (UInt64.ofNat n)
  else .simple n

mutual

/-- Reads one item at a nesting depth; `tagged` says that it is the content of a tag. -/
def readItem : Nat → Nat → Bool → Text → Option (Item × Text)
  | 0, _, _, _ => none
  | fuel + 1, depth, tagged, t => do
    let (h, rest) ← readHead t
    match h.major, h.argument with
    | 0, some n => some (.unsigned n, rest)
    | 1, some n => some (.negative n, rest)
    | 6, some n =>
      let depth := if tagged then depth + 1 else depth
      if maxDepth < depth then none
      else do
        let (content, rest) ← readItem fuel depth true rest
        some (.tag n content, rest)
    | 7, some n => some (simpleItem h.info n, rest)
    | 2, some n | 3, some n => do
      let (chunk, rest) ← takeExactly n rest
      some (stringItem h.major [chunk], rest)
    | 2, none | 3, none => do
      let (chunks, rest) ← readChunks h.major (rest.length + 1) rest
      some (stringItem h.major chunks, rest)
    | 4, some n | 5, some n =>
      if maxDepth ≤ depth || maxElements < n then none
      else do
        let (items, rest) ← readItems fuel (depth + 1) (if h.major = 4 then n else 2 * n) rest
        let item ← collectionItem h.major items
        some (item, rest)
    | 4, none | 5, none =>
      if maxDepth ≤ depth then none
      else do
        let (items, rest) ← readUntilBreak fuel (depth + 1) rest
        let item ← collectionItem h.major items
        some (item, rest)
    | _, _ => none

/-- Reads a given number of items. -/
def readItems : Nat → Nat → Nat → Text → Option (List Item × Text)
  | _, _, 0, t => some ([], t)
  | 0, _, _ + 1, _ => none
  | fuel + 1, depth, count + 1, t => do
    let (item, rest) ← readItem fuel depth false t
    let (items, rest) ← readItems fuel depth count rest
    some (item :: items, rest)

/-- Reads items up to a break. -/
def readUntilBreak : Nat → Nat → Text → Option (List Item × Text)
  | 0, _, _ => none
  | fuel + 1, depth, t =>
    if t.head? = some breakByte then some ([], t.tail)
    else do
      let (item, rest) ← readItem fuel depth false t
      let (items, rest) ← readUntilBreak fuel depth rest
      some (item :: items, rest)

end

/-- Reads an input that is one item and nothing more.  Every item takes at least one byte, and reading
descends at most three times for each, so the fuel never runs out. -/
def Item.parse? (t : Text) : Option Item :=
  match readItem (3 * t.length + 3) 0 false t with
  | some (item, []) => some item
  | _ => none

end ShadeGraph.Cbor
