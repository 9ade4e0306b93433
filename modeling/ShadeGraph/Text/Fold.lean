/-
  Comparing names without regard to case.

  The names to match are ASCII throughout, so only the characters that fold to an ASCII letter matter:
  the ASCII capitals, the long s (U+017F) and the kelvin sign (U+212A).  Lower-casing has a set of its
  own: the capitals, the dotted capital I (U+0130) and the kelvin sign.
-/
import ShadeGraph.Text.Utf8

namespace ShadeGraph.Text

/-- An ASCII capital as its small letter, any other value as it is. -/
def smallLetter (c : Nat) : Nat := if 65 ≤ c && c ≤ 90 then c + 32 else c

/-- The representative of a scalar value under simple case folding onto ASCII. -/
def foldPoint (c : Nat) : Nat :=
  if c = 0x17F then 115 else if c = 0x212A then 107 else smallLetter c

/-- The lower-case form of a scalar value, as far as it lies in ASCII. -/
def lowerPoint (c : Nat) : Nat :=
  if c = 0x130 then 105 else if c = 0x212A then 107 else smallLetter c

/-- A rune with its scalar value mapped. -/
def mapPoint (f : Nat → Nat) : Rune → Rune
  | .point c => .point (f c)
  | .stray b => .stray b

/-- Equality up to case of a text with an ASCII name. -/
def equalFold (s name : Text) : Bool :=
  (runes s).map (mapPoint foldPoint) == (runes name).map (mapPoint foldPoint)

/-- The text in lower case equals an ASCII name of small letters. -/
def lowerEquals (s name : Text) : Bool := (runes s).map (mapPoint lowerPoint) == runes name

end ShadeGraph.Text
