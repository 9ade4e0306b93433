/-
  Identifiers of generated code.

  `Identifier.legal` mends any text into a legal identifier.  An `IdentifierMap` remembers the names
  that are taken in one shader, each with the number to try next when it is asked for again, and
  `makeUnique` hands out a name that is not taken.
-/
import ShadeGraph.Glsl.ReservedWord

namespace ShadeGraph

namespace Identifier

/-- The underscore. -/
def underscore : UInt8 := 95

/-- A byte that may stand in an identifier, an underscore for any other. -/
def mendByte (b : UInt8) : UInt8 :=
  if Text.isDigit b || Text.isLetter b then b else underscore

/-- Leaves one underscore of each run of them; `after` says that one has just been written. -/
def collapse : Bool → Text → Text
  | _, [] => []
  | after, b :: t =>
    if b = underscore then
      if after then collapse true t else b :: collapse true t
    else b :: collapse false t

/-- The start of the names that the language keeps for itself. -/
def languagePrefix : Text := "gl_"

/-- Whether a name needs an underscore in front: it starts with a digit or with `gl_`. -/
def needsGuard : Text → Bool
  | [] => false
  | b :: t => Text.isDigit b || languagePrefix.isPrefixOf (b :: t)

/-- The legal identifier made of a name: other bytes than letters and digits become underscores, runs
of underscores one, and a name that starts with a digit or with `gl_` gets one in front. -/
def legal (name : Text) : Text :=
  if name = [] then [underscore]
  else
    let body := collapse false (name.map mendByte)
    if needsGuard name then underscore :: body else body

end Identifier

/-- The names taken in a shader, each with the number to try next when it is asked for again. -/
structure IdentifierMap where
  entries : List (Text × Nat)
  deriving DecidableEq, Repr

namespace IdentifierMap

/-- No name is taken. -/
def empty : IdentifierMap := ⟨[]⟩

/-- The reserved words are taken. -/
def reserved : IdentifierMap := ⟨Glsl.reservedWords.map fun w => (w, 1)⟩

/-- The number to try next for a name that is taken. -/
def next? (ids : IdentifierMap) (name : Text) : Option Nat := ids.entries.lookup name

/-- Whether a name is taken. -/
def contains (ids : IdentifierMap) (name : Text) : Bool := (ids.next? name).isSome

/-- Writes the number of a name into a list of entries, at the end for a new name. -/
def setEntry (name : Text) (n : Nat) : List (Text × Nat) → List (Text × Nat)
  | [] => [(name, n)]
  | e :: rest => if e.1 = name then (name, n) :: rest else e :: setEntry name n rest

/-- The map with the number of one name set. -/
def set (ids : IdentifierMap) (name : Text) (n : Nat) : IdentifierMap :=
  ⟨setEntry name n ids.entries⟩

/-- Takes a name, unless it is taken already. -/
def reserve (ids : IdentifierMap) (name : Text) : IdentifierMap :=
  if ids.contains name then ids else ids.set name 1

/-- The first number from `k` on whose numbered name is free.  Of more numbers than there are names
one is free, so `tries` only has to reach the number of names. -/
def firstFree (ids : IdentifierMap) (name : Text) : Nat → Nat → Nat
  | 0, k => k
  | tries + 1, k =>
    if ids.contains (name ++ Text.ofNat k) then firstFree ids name tries (k + 1) else k

/-- The name itself if it is free, otherwise the name with the first number that makes it free; the
result is taken afterwards. -/
def makeUnique (ids : IdentifierMap) (name : Text) : Text × IdentifierMap :=
  match ids.next? name with
  | none => (name, ids.set name 1)
  | some next =>
    let k := ids.firstFree name ids.entries.length next
    let candidate := name ++ Text.ofNat k
    (candidate, (ids.set name (k + 1)).set candidate 1)

/-- A legal identifier for a name, not taken before and taken afterwards. -/
def makeIdentifier (ids : IdentifierMap) (name : Text) : Text × IdentifierMap :=
  ids.makeUnique (Identifier.legal name)

end IdentifierMap
end ShadeGraph
