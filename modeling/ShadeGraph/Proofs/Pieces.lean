/-
  Texts and their pieces.

  A text is split at every occurrence of a byte.  Pieces hold no such byte, a text without it is its only
  piece, and a text put together from two with the byte between them has the pieces of both.  Lines are the
  pieces between line feeds.
-/
import ShadeGraph.Text.Basic

namespace ShadeGraph.Text

/-- The library splits lists in the same way. -/
theorem splitOn_eq (sep : UInt8) (t : Text) : splitOn sep t = List.splitOn sep t := by
  induction t with
  | nil => rfl
  | cons b t ih =>
    rw [splitOn, List.splitOn_cons_eq_if_modifyHead, ih]
    by_cases hb : b = sep
    · rw [if_pos hb, if_pos (beq_iff_eq.mpr hb)]
    · rw [if_neg hb, if_neg (mt beq_iff_eq.mp hb)]
      cases hpieces : List.splitOn sep t with
      | nil => exact absurd hpieces (List.splitOn_ne_nil sep t)
      | cons piece rest => rfl

theorem splitOn_append (sep : UInt8) (t u : Text) :
    splitOn sep (t ++ sep :: u) = splitOn sep t ++ splitOn sep u := by
  rw [splitOn_eq, splitOn_eq, splitOn_eq, List.splitOn_append_cons_self]

theorem splitOn_of_not_mem {sep : UInt8} {t : Text} (h : sep ∉ t) : splitOn sep t = [t] := by
  rw [splitOn_eq, List.splitOn_eq_singleton h]

/-- No piece holds the separator. -/
theorem not_mem_of_mem_splitOn {sep : UInt8} {t piece : Text} (h : piece ∈ splitOn sep t) : sep ∉ piece := by
  induction t generalizing piece with
  | nil => rw [List.mem_singleton.mp h]; exact List.not_mem_nil
  | cons b t ih =>
    rw [splitOn] at h
    split at h
    · rcases List.mem_cons.mp h with rfl | h
      · exact List.not_mem_nil
      · exact ih h
    · next hb =>
      split at h
      · rw [List.mem_singleton.mp h]
        exact fun hmem => hb (List.mem_singleton.mp hmem).symm
      · next first rest hpieces =>
        rcases List.mem_cons.mp h with rfl | h
        · rw [List.mem_cons, not_or]
          exact ⟨Ne.symm hb, ih (hpieces ▸ List.mem_cons_self)⟩
        · exact ih (hpieces ▸ List.mem_cons_of_mem first h)

/-- Pieces without the separator are found again. -/
theorem splitOn_joinWith {sep : UInt8} {pieces : List Text} (h : ∀ piece ∈ pieces, sep ∉ piece)
    (hne : pieces ≠ []) : splitOn sep (joinWith [sep] pieces) = pieces := by
  rw [splitOn_eq, joinWith, List.splitOn_intercalate sep h hne]

/-- Pieces with the separator between them are the text. -/
theorem joinWith_splitOn (sep : UInt8) (t : Text) : joinWith [sep] (splitOn sep t) = t := by
  rw [splitOn_eq, joinWith, List.intercalate_splitOn]

/-- Every piece stands in the text that they are joined to. -/
theorem infix_joinWith {sep piece : Text} {pieces : List Text} (h : piece ∈ pieces) :
    piece <:+: joinWith sep pieces := by
  rw [joinWith]
  induction pieces with
  | nil => cases h
  | cons first rest ih =>
    cases rest with
    | nil =>
      obtain rfl := List.mem_singleton.mp h
      exact List.intercalate_singleton ▸ List.infix_refl piece
    | cons second rest =>
      rw [List.intercalate_cons_cons, List.append_assoc]
      rcases List.mem_cons.mp h with rfl | h
      · exact (List.prefix_append _ _).isInfix
      · exact ((ih h).trans (List.suffix_append _ _).isInfix).trans (List.suffix_append _ _).isInfix

/-- What holds of the separator and of all pieces holds of the pieces joined, if appending keeps it. -/
theorem joinWith_induction {P : Text → Prop} {sep : Text} {pieces : List Text} (hnil : P [])
    (happend : ∀ {s t : Text}, P s → P t → P (s ++ t)) (hsep : P sep) (h : ∀ p ∈ pieces, P p) :
    P (joinWith sep pieces) := by
  rw [joinWith]
  induction pieces with
  | nil => rw [List.intercalate_nil]; exact hnil
  | cons p pieces ih =>
    have hp := h p List.mem_cons_self
    have hrest := ih fun q hq => h q (List.mem_cons_of_mem p hq)
    cases pieces with
    | nil => rw [List.intercalate_singleton]; exact hp
    | cons q pieces => rw [List.intercalate_cons_cons]; exact happend (happend hp hsep) hrest

/-- The lines of a text that was written line by line; behind the last line feed comes an empty one. -/
theorem lines_flatMap {written : List Text} (h : ∀ line ∈ written, 10 ∉ line) :
    lines (written.flatMap (· ++ [10])) = written ++ [[]] := by
  induction written with
  | nil => rfl
  | cons line rest ih =>
    rw [List.flatMap_cons, List.append_assoc, List.singleton_append, lines, splitOn_append,
      splitOn_of_not_mem (h line List.mem_cons_self)]
    exact congrArg (line :: ·) (ih fun l hl => h l (List.mem_cons_of_mem line hl))

end ShadeGraph.Text
