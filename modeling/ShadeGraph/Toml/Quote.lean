/-
  Strings of TOML documents.

  There are four kinds: basic strings know escapes, literal strings take every byte as it is, and both
  come on one line or, with three quotes, on several.  Reading goes in two steps: first the body is cut
  out of the input, then it is rid of its first line break and its escapes.
-/
import ShadeGraph.Text.Utf8

namespace ShadeGraph.Toml

/-- A space or a tab. -/
def isBlank (b : UInt8) : Bool := b = 32 || b = 9

/-- A byte of a line break. -/
def isBreak (b : UInt8) : Bool := b = 10 || b = 13

/-! ## Cutting out the body -/

/-- The body of a one-line string behind its opening quote, and what follows the closing one. -/
def lineBody (quote : UInt8) (escapes : Bool) : Text → Option (Text × Text)
  | [] => none
  | b :: t =>
    if b = quote then some ([], t)
    else if isBreak b then none
    else if escapes && b = 92 then
      match t with
      | [] => none
      | c :: t =>
        if isBreak c then none
        else (lineBody quote escapes t).map fun r => (b :: c :: r.1, r.2)
    else (lineBody quote escapes t).map fun r => (b :: r.1, r.2)

/-- The most quotes that may stand in a row at the end of a string of several lines: the closing three
and two of its own, or three of its own behind a backslash. -/
def longestRun (afterBackslash : Bool) : Nat := if afterBackslash then 6 else 5

/-- The body of a string of several lines, and what follows its closing quotes.  `run` counts the quotes
just passed, and `afterBackslash` says that a backslash stands in front of them. -/
def linesBody (quote : UInt8) (escapes : Bool) :
    (run : Nat) → (afterBackslash : Bool) → Text → Option (Text × Text)
  | run, _, [] => if 3 ≤ run then some (List.replicate (run - 3) quote, []) else none
  | run, afterBackslash, b :: t =>
    if b = quote then
      if run < longestRun afterBackslash then linesBody quote escapes (run + 1) afterBackslash t
      else none
    else if 3 ≤ run then some (List.replicate (run - 3) quote, b :: t)
    else
      let own := List.replicate run quote
      if escapes && b = 92 then
        match t with
        | [] => none
        | c :: t => (linesBody quote escapes 0 (c = 92) t).map fun r => (own ++ b :: c :: r.1, r.2)
      else (linesBody quote escapes 0 false t).map fun r => (own ++ b :: r.1, r.2)

/-- The body without a line break right at its start. -/
def dropFirstBreak : Text → Text
  | 10 :: t => t
  | 13 :: 10 :: t => t
  | t => t

/-! ## Escapes -/

/-- The value of a hexadecimal digit of either case. -/
def hexValue? (b : UInt8) : Option Nat :=
  if Text.isDigit b then some (b.toNat - 48)
  else if 97 ≤ b && b ≤ 102 then some (b.toNat - 87)
  else if 65 ≤ b && b ≤ 70 then some (b.toNat - 55)
  else none

/-- The number of a string of hexadecimal digits. -/
def hexNumber? (t : Text) : Option Nat :=
  t.foldlM (fun n b => (hexValue? b).map (16 * n + ·)) 0

/-- The bytes of an escaped scalar value; a surrogate and a number past the last one are none. -/
def escapedPoint? (digits : Text) : Option Text :=
  (hexNumber? digits).bind fun c =>
    if c ≤ 0x10FFFF ∧ ¬(0xD800 ≤ c ∧ c ≤ 0xDFFF) then some (Text.ofPoint c) else none

/-- The byte that a letter stands for behind a backslash. -/
def escapedByte? : UInt8 → Option UInt8
  | 98 => some 8
  | 116 => some 9
  | 110 => some 10
  | 102 => some 12
  | 114 => some 13
  | 34 => some 34
  | 92 => some 92
  | _ => none

/-- A body with its escapes resolved. -/
def unescape : Text → Option Text
  | [] => some []
  | 92 :: 117 :: a :: b :: c :: d :: t =>
    match escapedPoint? [a, b, c, d] with
    | some p => (unescape t).map (p ++ ·)
    | none => none
  | 92 :: 85 :: a :: b :: c :: d :: e :: f :: g :: h :: t =>
    match escapedPoint? [a, b, c, d, e, f, g, h] with
    | some p => (unescape t).map (p ++ ·)
    | none => none
  | 92 :: c :: t =>
    match escapedByte? c with
    | some b => (unescape t).map (b :: ·)
    | none => none
  | 92 :: [] => none
  | b :: t => (unescape t).map (b :: ·)

/-- White space inside a string of several lines. -/
def isSpacing (b : UInt8) : Bool := isBlank b || isBreak b

/-- Whether a backslash in front of `t` ends its line. -/
def endsLine (t : Text) : Bool := (t.takeWhile isSpacing).contains 10

/-- Takes out every backslash that ends a line, with the white space up to the next other byte.
`skipping` says that such white space is being passed. -/
def joinLines : (skipping : Bool) → Text → Text
  | _, [] => []
  | skipping, b :: t =>
    if skipping && isSpacing b then joinLines true t
    else if b = 92 then
      match t with
      | 92 :: t => 92 :: 92 :: joinLines false t
      | t => if endsLine t then joinLines true t else 92 :: joinLines false t
    else b :: joinLines false t

/-! ## Reading a string -/

/-- The basic string behind its opening quote, on one line. -/
def basicLine (t : Text) : Option (Text × Text) :=
  (lineBody 34 true t).bind fun r => (unescape r.1).map fun s => (s, r.2)

/-- The literal string behind its opening quote, on one line. -/
def literalLine (t : Text) : Option (Text × Text) := lineBody 39 false t

/-- The string that starts the text, of any of the four kinds. -/
def readString : Text → Option (Text × Text)
  | 34 :: 34 :: 34 :: t =>
    (linesBody 34 true 0 false t).bind fun r =>
      (unescape (joinLines false (dropFirstBreak r.1))).map fun s => (s, r.2)
  | 34 :: t => basicLine t
  | 39 :: 39 :: 39 :: t =>
    (linesBody 39 false 0 false t).map fun r => (dropFirstBreak r.1, r.2)
  | 39 :: t => literalLine t
  | _ => none

end ShadeGraph.Toml
