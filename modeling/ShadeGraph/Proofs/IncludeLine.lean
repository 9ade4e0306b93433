/-
  Which lines are include lines.

  1. An include line is the word `#include`, white space, and a path between double quotes (`includeLine`).  It
     starts with a byte that no blank starts with and ends with one that no blank ends with, so it is what
     trimming leaves of itself with white space around it (`trimmed_of_quote`).
  2. The path is read from such lines only.  The white space behind the word is trimmed away, and there is none
     behind the last quote because the line has been trimmed before (`includePath?_eq_some_iff`).
-/
import ShadeGraph.Library.Source
import ShadeGraph.Proofs.WhiteSpace

namespace ShadeGraph.Source

open Text (WhiteSpace Trimmed trimmed_iff)

variable {line path blank front back t : Text}

/-- A path between double quotes. -/
def inQuotes (path : Text) : Text := "\"" ++ path ++ "\""

/-- The include line of a path, with some text behind its word. -/
def includeLine (blank path : Text) : Text := includeWord ++ blank ++ inQuotes path

/-- What stands between quotes is all between the first and the last byte; one byte alone is not both. -/
theorem unquote?_eq_some_iff : unquote? t = some path ↔ t = inQuotes path := by
  have hquotes : inQuotes path = 34 :: (path ++ [34]) := by rw [inQuotes, List.append_assoc]; rfl
  constructor
  · intro h
    rw [unquote?] at h
    split at h
    · next hends =>
      obtain ⟨hlength, hhead, hlast⟩ := hends
      obtain ⟨inner, rfl⟩ := List.getLast?_eq_some_iff.mp hlast
      cases inner with
      | nil => exact absurd hlength (by decide)
      | cons a inner =>
        obtain rfl := Option.some.inj hhead
        rw [List.cons_append, List.drop_one, List.tail_cons, List.dropLast_concat] at h
        rw [hquotes, ← Option.some.inj h, List.cons_append]
    · cases h
  · rintro rfl
    rw [hquotes, unquote?, if_pos ⟨by simp, rfl, List.getLast?_concat (l := 34 :: path)⟩, List.drop_one,
      List.tail_cons, List.dropLast_concat]

theorem getLast?_inQuotes (t path : Text) : (t ++ inQuotes path).getLast? = some 34 := by
  rw [inQuotes, List.getLast?_append, List.getLast?_append]
  rfl

/-- No blank starts with a quote or a number sign, or ends with a quote. -/
theorem trimmed_of_quote (hfront : front.WhiteSpace) (hback : back.WhiteSpace)
    (hhead : t.head? = some 34 ∨ t.head? = some 35) (hlast : t.getLast? = some 34) :
    Trimmed (front ++ t ++ back) t := by
  have hblanks : ∀ w ∈ Text.blanks, w.head? ≠ some 34 ∧ w.head? ≠ some 35 ∧ w.getLast? ≠ some 34 := by decide
  refine Text.trimmed_of_ends hfront hback fun w hw => ?_
  obtain ⟨hquote, hsign, hend⟩ := hblanks w hw
  rw [hlast]
  rcases hhead with hhead | hhead
  · exact ⟨hhead ▸ hquote, hend⟩
  · exact ⟨hhead ▸ hsign, hend⟩

/-- The path of a line is read from the line without the white space around it. -/
theorem includePath?_eq_some_iff : includePath? line = some path ↔
    ∃ blank, blank.WhiteSpace ∧ Trimmed line (includeLine blank path) := by
  simp only [trimmed_iff]
  rw [includePath?]
  constructor
  · intro h
    split at h
    · next hword =>
      obtain ⟨rest, hrest⟩ := List.isPrefixOf_iff_prefix.mp hword
      rw [← hrest, List.drop_left, unquote?_eq_some_iff, ← trimmed_iff] at h
      obtain ⟨blank, behind, hblank, hbehind, rfl⟩ := h.around
      -- white space behind the last quote would be white space behind the line
      have hnone : behind = [] := by
        refine (Text.whiteSpace_iff.mp hbehind).eq_nil (includeWord ++ (blank ++ inQuotes path)) fun w hw => ?_
        rw [List.append_assoc, hrest]
        exact ((Text.trimmed_trim line).blank hw).2
      exact ⟨blank, hblank, by rw [← hrest, hnone, List.append_nil, includeLine, List.append_assoc]⟩
    · cases h
  · rintro ⟨blank, hblank, hline⟩
    have hrest : Text.trim (blank ++ inQuotes path) = inQuotes path := by
      have htrimmed := trimmed_of_quote hblank Text.Strung.nil (Or.inl rfl) (getLast?_inQuotes [] path)
      rw [List.append_nil] at htrimmed
      exact trimmed_iff.mp htrimmed
    rw [hline, includeLine, List.append_assoc]
    simp only [List.isPrefixOf_iff_prefix.mpr (List.prefix_append _ _), if_true, List.drop_left, hrest]
    exact unquote?_eq_some_iff.mpr rfl

/-- **Which lines are include lines, and of which path**: without the white space around it, the line is the word,
white space and the path in quotes; that is, it is those three with white space around them. -/
theorem include_lines_read (line path : Text) :
    (includePath? line = some path ↔ ∃ blank, blank.WhiteSpace ∧ Trimmed line (includeLine blank path)) ∧
    (includePath? line = some path ↔ ∃ front blank back, front.WhiteSpace ∧ blank.WhiteSpace ∧
      back.WhiteSpace ∧ line = front ++ includeLine blank path ++ back) ∧
    (∀ t, Trimmed line t ↔ line.trim = t) := by
  refine ⟨includePath?_eq_some_iff, ?_, fun t => trimmed_iff⟩
  rw [includePath?_eq_some_iff]
  constructor
  · rintro ⟨blank, hblank, hline⟩
    obtain ⟨front, back, hfront, hback, rfl⟩ := hline.around
    exact ⟨front, blank, back, hfront, hblank, hback, rfl⟩
  · rintro ⟨front, blank, back, hfront, hblank, hback, rfl⟩
    exact ⟨blank, hblank, trimmed_of_quote hfront hback (Or.inr rfl) (getLast?_inQuotes _ path)⟩

/-- One quote is not two. -/
example : includePath? "#include \"" = none := by decide

end ShadeGraph.Source
