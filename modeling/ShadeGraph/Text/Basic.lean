/-
  Byte strings.

  Every name, path, code text and file content in this library is a string of bytes, because bytes
  are what its rules count: identifiers are mended byte by byte, tokens are compared byte by byte,
  and a request is hashed byte by byte.  `Text` is the plain list of them, so that all of the list
  library applies; a string literal stands for its UTF-8 bytes.
-/
namespace ShadeGraph

/-- A string of bytes. -/
abbrev Text := List UInt8

namespace Text

/-- The UTF-8 bytes of a string. -/
def ofString (s : String) : Text := s.toByteArray.data.toList

instance : Coe String Text := ⟨ofString⟩

/-- The string that the bytes encode, when they are well-formed UTF-8. -/
def toString? (t : Text) : Option String := String.fromUTF8? ⟨t.toArray⟩

/-! ## Decimal numbers -/

/-- The byte of one decimal digit. -/
def digit (n : Nat) : UInt8 := UInt8.ofNat (48 + n)

/-- Decimal digits of `n`, with at most `fuel` of them. -/
def digitsWithin : Nat → Nat → Text
  | 0, _ => []
  | fuel + 1, n => if n < 10 then [digit n] else digitsWithin fuel (n / 10) ++ [digit (n % 10)]

/-- The decimal digits of a natural number, without leading zeros. -/
def ofNat (n : Nat) : Text := digitsWithin (n + 1) n

/-- The decimal form of an integer, with a sign only when it is negative. -/
def ofInt : Int → Text
  | .ofNat n => ofNat n
  | .negSucc n => 45 :: ofNat (n + 1)

/-- A byte that is a decimal digit. -/
def isDigit (b : UInt8) : Bool := 48 ≤ b && b ≤ 57

/-- A byte that is an ASCII letter. -/
def isLetter (b : UInt8) : Bool := (97 ≤ b && b ≤ 122) || (65 ≤ b && b ≤ 90)

/-- The number that a string of decimal digits denotes; `none` on any other byte. -/
def digitsValue? : Text → Nat → Option Nat
  | [], acc => some acc
  | b :: t, acc => if isDigit b then digitsValue? t (10 * acc + (b.toNat - 48)) else none

/-- Reads a natural number written with at least one decimal digit and nothing else. -/
def toNat? : Text → Option Nat
  | [] => none
  | t => digitsValue? t 0

/-- Reads an integer: an optional sign, then decimal digits. -/
def toInt? : Text → Option Int
  | 43 :: t => (toNat? t).map Int.ofNat
  | 45 :: t => (toNat? t).map fun n => - Int.ofNat n
  | t => (toNat? t).map Int.ofNat

/-- The lower-case hexadecimal digit of a number below sixteen. -/
def hexDigit (n : Nat) : UInt8 := if n < 10 then UInt8.ofNat (48 + n) else UInt8.ofNat (87 + n)

/-- `n` in lower-case hexadecimal with exactly `width` digits. -/
def hexPadded : Nat → Nat → Text
  | 0, _ => []
  | width + 1, n => hexPadded width (n / 16) ++ [hexDigit (n % 16)]

/-- Hexadecimal digits of `n`, with at most `fuel` of them. -/
def hexWithin : Nat → Nat → Text
  | 0, _ => []
  | fuel + 1, n => if n < 16 then [hexDigit n] else hexWithin fuel (n / 16) ++ [hexDigit (n % 16)]

/-- A natural number in lower-case hexadecimal, without leading zeros. -/
def hexOfNat (n : Nat) : Text := hexWithin (n + 1) n

/-! ## Order, splitting and joining -/

/-- Byte order: the first difference decides, and a text comes before its extensions. -/
def le : Text → Text → Bool
  | [], _ => true
  | _ :: _, [] => false
  | a :: s, b :: t => if a = b then le s t else a < b

/-- The pieces between the occurrences of a separating byte; always at least one. -/
def splitOn (sep : UInt8) : Text → List Text
  | [] => [[]]
  | b :: t =>
    if b = sep then [] :: splitOn sep t
    else
      match splitOn sep t with
      | [] => [[b]]
      | piece :: rest => (b :: piece) :: rest

/-- The lines of a text: its pieces between line feeds. -/
def lines (t : Text) : List Text := splitOn 10 t

/-- The text of some lines, each with a line feed behind it. -/
def ofLines (ls : List String) : Text := ls.flatMap fun l => ofString l ++ [10]

/-- The pieces one after another with `sep` between them. -/
def joinWith (sep : Text) (pieces : List Text) : Text := List.intercalate sep pieces

/-- The text without the run of `b` at its end. -/
def dropTrailing (b : UInt8) (t : Text) : Text := (t.reverse.dropWhile (· == b)).reverse

/-- The position of the first `b`. -/
def indexOf? (b : UInt8) (t : Text) : Option Nat := t.findIdx? (· == b)

/-- `n` copies of a text. -/
def times : Nat → Text → Text
  | 0, _ => []
  | n + 1, t => t ++ times n t

end Text
end ShadeGraph
