/-
  Quoted texts, as error messages show them.

  Printable characters stand as they are.  The quote and the backslash get a backslash in front; seven
  control characters have a letter of their own; the other control characters and stray bytes are
  written with two hexadecimal digits, and the remaining characters with four or eight.
-/
import ShadeGraph.Text.Printable
import ShadeGraph.Text.Utf8

namespace ShadeGraph.Text

/-- The letter that stands for a control character behind a backslash. -/
def escapeLetter? : Nat → Option UInt8
  | 7 => some 97
  | 8 => some 98
  | 12 => some 102
  | 10 => some 110
  | 13 => some 114
  | 9 => some 116
  | 11 => some 118
  | _ => none

/-- A scalar value inside the quote mark `mark`. -/
def quotePoint (mark : Nat) (c : Nat) : Text :=
  if c = mark || c = 92 then 92 :: ofPoint c
  else if isPrintable c then ofPoint c
  else
    match escapeLetter? c with
    | some letter => [92, letter]
    | none =>
      if c < 32 || c = 127 then "\\x" ++ hexPadded 2 c
      else if c < 0x10000 then "\\u" ++ hexPadded 4 c
      else "\\U" ++ hexPadded 8 c

/-- A rune inside double quotes. -/
def quoteRune : Rune → Text
  | .point c => quotePoint 34 c
  | .stray b => "\\x" ++ hexPadded 2 b.toNat

/-- A text in double quotes. -/
def quoted (t : Text) : Text := 34 :: ((runes t).flatMap quoteRune ++ [34])

/-- A byte in single quotes, read as the scalar value of the same number. -/
def quotedByte (b : UInt8) : Text := 39 :: (quotePoint 39 b.toNat ++ [39])

end ShadeGraph.Text
