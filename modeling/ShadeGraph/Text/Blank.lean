/-
  White space, and texts without the white space around them.

  White space is the Unicode property of that name, kept as the table of its UTF-8 encodings, so that
  trimming never has to decode: a blank is stripped from an end as long as one of the encodings stands
  there, whatever the bytes further in may be.
-/
import ShadeGraph.Text.Basic

namespace ShadeGraph.Text

/-- The encodings of the white-space characters. -/
def blanks : List Text :=
  [[0x09], [0x0A], [0x0B], [0x0C], [0x0D], [0x20], [0xC2, 0x85], [0xC2, 0xA0], [0xE1, 0x9A, 0x80],
    [0xE2, 0x80, 0x80], [0xE2, 0x80, 0x81], [0xE2, 0x80, 0x82], [0xE2, 0x80, 0x83],
    [0xE2, 0x80, 0x84], [0xE2, 0x80, 0x85], [0xE2, 0x80, 0x86], [0xE2, 0x80, 0x87],
    [0xE2, 0x80, 0x88], [0xE2, 0x80, 0x89], [0xE2, 0x80, 0x8A], [0xE2, 0x80, 0xA8],
    [0xE2, 0x80, 0xA9], [0xE2, 0x80, 0xAF], [0xE2, 0x81, 0x9F], [0xE3, 0x80, 0x80]]

/-- Strips words of `table`, each of one to three bytes, from the front as long as one is there. -/
def stripLeading (table : List Text) : Text → Text
  | [] => []
  | a :: t =>
    if table.contains [a] then stripLeading table t
    else
      match t with
      | [] => [a]
      | b :: t₂ =>
        if table.contains [a, b] then stripLeading table t₂
        else
          match t₂ with
          | [] => [a, b]
          | c :: t₃ =>
            if table.contains [a, b, c] then stripLeading table t₃ else a :: b :: c :: t₃

/-- The text without the white space in front of it. -/
def trimStart (t : Text) : Text := stripLeading blanks t

/-- The text without the white space behind it. -/
def trimEnd (t : Text) : Text := (stripLeading (blanks.map List.reverse) t.reverse).reverse

/-- The text without the white space around it. -/
def trim (t : Text) : Text := trimEnd (trimStart t)

end ShadeGraph.Text
