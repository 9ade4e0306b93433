/-
  Fixed literals written into a buffer.

  A number is written positionally behind bytes that are already there, and then edited where it stands: a
  point is added when it has none, the point and the minus are replaced, and zeros are cut off its end.  Every
  edit is at a position of the whole buffer.
-/
import ShadeGraph.Number.Spelling

namespace ShadeGraph

namespace Text

/-- The place of the point in a number that is written from `start` on, and the text with that point; a whole
number gets one, and a zero behind it. -/
def withPoint (start : Nat) (t : Text) : Nat × Text :=
  match indexOf? 46 (t.drop start) with
  | some i => (start + i, t)
  | none => (t.length, t ++ [46, 48])

/-- The text with another byte for the point at `place`. -/
def replacePoint (place : Nat) (point : UInt8) (t : Text) : Text :=
  if point = 46 then t else t.set place point

/-- The text with another byte for a minus at `start`. -/
def replaceSign (start : Nat) (sign : UInt8) (t : Text) : Text :=
  if t[start]? = some 45 then t.set start sign else t

/-- The end of a text of the given length without the zeros behind position `least`. -/
def endWithoutZeros (least : Nat) (t : Text) : Nat → Nat
  | 0 => 0
  | i + 1 => if least < i && t[i]? == some 48 then endWithoutZeros least t i else i + 1

/-- The text without zeros at its end behind position `least`. -/
def cutZeros (least : Nat) (t : Text) : Text := t.take (endWithoutZeros least t t.length)

end Text

/-- The buffer with the fixed literal of a number behind it, `sign` as minus and `point` as decimal point. -/
def Binary32.appendFixed (buffer : Text) (sign point : UInt8) (x : Binary32) : Text :=
  let y := x.literalValue
  let start := buffer.length
  let pointed := Text.withPoint start (buffer ++ y.withSign 45 y.digits.positional)
  -- the first digit behind the point stays
  Text.cutZeros (pointed.1 + 1)
    (Text.replaceSign start sign (Text.replacePoint pointed.1 point pointed.2))

end ShadeGraph
