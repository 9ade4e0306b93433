/-
  Reading TOML documents.

  The reader goes through the document once, statement by statement, and feeds a `Builder`.  A document
  is refused as a whole when a byte of it is no UTF-8, when it holds a control character or a carriage
  return without a line feed, when a statement does not follow the grammar, or when it contradicts an
  earlier one.  Every loop is bounded by the number of bytes, of which each round takes at least one.
-/
import ShadeGraph.Toml.Document

namespace ShadeGraph.Toml

/-! ## Blanks, comments and keys -/

/-- The text without the spaces and tabs in front of it. -/
def skipBlanks (t : Text) : Text := t.dropWhile isBlank

/-- The text from the next line break on. -/
def skipComment (t : Text) : Text := t.dropWhile fun b => !isBreak b

/-- Skips white space, line breaks and comments. -/
def skipLines : (fuel : Nat) → Text → Text
  | 0, t => t
  | fuel + 1, t =>
    match t.dropWhile isSpacing with
    | 35 :: t => skipLines fuel (skipComment t)
    | t => t

/-- A byte of a key without quotes. -/
def isBareByte (b : UInt8) : Bool := Text.isDigit b || Text.isLetter b || b = 95 || b = 45

/-- One part of a key. -/
def readKeyPart : Text → Option (Text × Text)
  | 34 :: t => basicLine t
  | 39 :: t => literalLine t
  | t =>
    let part := t.takeWhile isBareByte
    if part = [] then none else some (part, t.drop part.length)

/-- The parts of a key up to the byte that ends it, and what follows. -/
def readKey (stop : UInt8) : (fuel : Nat) → Text → Option (Path × Text)
  | 0, _ => none
  | fuel + 1, t =>
    (readKeyPart (skipBlanks t)).bind fun (part, t) =>
      match skipBlanks t with
      | [] => none
      | b :: t =>
        if b = 46 then (readKey stop fuel t).map fun (parts, t) => (part :: parts, t)
        else if b = stop then some ([part], t)
        else none

/-! ## Values -/

mutual

/-- The value of `key` in the current table; `inArray` says that it is an element of an array there. -/
def readValue (key : Text) (inArray : Bool) :
    (fuel : Nat) → Builder → Text → Option (Value × Builder × Text)
  | 0, _, _ => none
  | fuel + 1, b, t =>
    match skipBlanks t with
    | 91 :: t =>
      (readElements key fuel (b.setKind key true) t).map fun (b, t) => (.array, b, t)
    | 123 :: t => do
      let p := b.context ++ [key]
      let inner := b.markImplicit p
      let inner ← if inArray then inner.openRepeated p else inner.openTable p
      let (members, inner, t) ← readMembers fuel [] inner t
      return (.table members, { inner with context := b.context }, t)
    | t => (readScalar t).map fun (s, t) => (.scalar s, b, t)

/-- The elements of an array and its closing bracket. -/
def readElements (key : Text) : (fuel : Nat) → Builder → Text → Option (Builder × Text)
  | 0, _, _ => none
  | fuel + 1, b, t =>
    match skipLines t.length t with
    | 93 :: t => some (b, t)
    | t => do
      let (_, b, t) ← readValue key true fuel b t
      match skipLines t.length t with
      | 44 :: t => readElements key fuel b t
      | 93 :: t => some (b, t)
      | _ => none

/-- The members of an inline table, which is current, and its closing brace.  Beside what the document
holds they make up a table of their own, in which a dotted key goes through tables only. -/
def readMembers :
    (fuel : Nat) → (members : Table) → Builder → Text → Option (Table × Builder × Text)
  | 0, _, _, _ => none
  | fuel + 1, members, b, t =>
    match skipBlanks t with
    | 125 :: t => some (members, b, t)
    | t => do
      let (path, v, b, t) ← readPair fuel b t
      let (members, b) ← b.addMember members path v
      match skipBlanks t with
      | 44 :: t => if (skipBlanks t).head? = some 125 then none else readMembers fuel members b t
      | 125 :: t => some (members, b, t)
      | _ => none

/-- A key and its value; the current table is the same afterwards. -/
def readPair : (fuel : Nat) → Builder → Text → Option (Path × Value × Builder × Text)
  | 0, _, _ => none
  | fuel + 1, b, t => do
    let (path, t) ← readKey 61 t.length t
    let key := path.getLastD []
    let inner ← b.passAll path.dropLast
    let inner := inner.write (inner.context ++ [key])
    let (v, inner, t) ← readValue key false fuel inner t
    let inner ← inner.assign key v
    let isArray := match v with
      | .array => true
      | _ => false
    return (path, v, { inner.setKind key isArray with context := b.context }, t)

end

/-! ## Statements -/

/-- What follows the end of a statement: nothing, a comment or a line break. -/
def endStatement (t : Text) : Option Text :=
  match skipBlanks t with
  | [] => some []
  | b :: t => if b = 35 then some (skipComment t) else if isBreak b then some t else none

/-- One statement: a header, a repeated header, or a key and its value. -/
def readStatement (b : Builder) : Text → Option (Builder × Text)
  | 91 :: 91 :: t => do
    let (p, t) ← readKey 93 t.length t
    let t ← after? 93 t
    let b ← b.openRepeated p
    return ((b.setKind [] false).write p, t)
  | 91 :: t => do
    let (p, t) ← readKey 93 t.length t
    let b ← b.openTable p
    return ((b.setKind [] false).write p, t)
  | t => (readPair (t.length + 1) b t).map fun (_, _, b, t) => (b, t)

/-- The statements of a document. -/
def readStatements : (fuel : Nat) → Builder → Text → Option Builder
  | 0, _, _ => none
  | fuel + 1, b, t =>
    match skipLines t.length t with
    | [] => some b
    | t => do
      let (b, t) ← readStatement b t
      readStatements fuel b (← endStatement t)

/-! ## Documents -/

/-- A document without a byte order mark at its start. -/
def dropMark : Text → Text
  | 0xFF :: 0xFE :: t => t
  | 0xFE :: 0xFF :: t => t
  | 0xEF :: 0xBB :: 0xBF :: t => t
  | t => t

/-- No control character but tab and line break, and a line feed behind every carriage return. -/
def isClean : Text → Bool
  | [] => true
  | 13 :: t => t.head? == some 10 && isClean t
  | b :: t => (32 ≤ b && b ≠ 127 || b = 9 || b = 10) && isClean t

/-- Reads a document. -/
def parse? (t : Text) : Option Document :=
  let t := dropMark t
  if Text.isUtf8 t && isClean t then
    (readStatements (t.length + 1) .empty t).map Builder.finish
  else none

end ShadeGraph.Toml
