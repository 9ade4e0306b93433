/-
  What mending does to a name.

  1. Well spelled names (`Identifier.Spelled`) are what mending is for.  The loop carries whether an underscore
     has just been written.  On a text whose underscores stand alone it drops nothing (`collapse_of_isChain`), so
     a well spelled name is changed by the guard alone, and that looks for `gl_`.
  2. A number behind a mended name ends in a digit and does not touch what is in front of it.
-/
import ShadeGraph.Proofs.IdentifierRuns
import ShadeGraph.Proofs.LegalNames

namespace ShadeGraph

namespace Identifier

variable {name t : Text}

/-! ## Names that mending leaves -/

theorem mendByte_of_isWordByte {b : UInt8} (h : isWordByte b = true) : mendByte b = b := by
  rw [isWordByte, Bool.or_eq_true] at h
  rw [mendByte]
  split
  · rfl
  · next hother => exact (eq_of_beq (h.resolve_left hother)).symm

/-- Underscores that stand alone are all kept, unless the first one follows another. -/
theorem collapse_of_isChain : ∀ {t : Text} {after : Bool}, t.IsChain Apart →
    (after = true → t.head? ≠ some underscore) → collapse after t = t := by
  intro t
  induction t with
  | nil => intro after _ _; rfl
  | cons a t ih =>
    intro after hchain hafter
    obtain ⟨hnext, hrest⟩ := List.isChain_cons.mp hchain
    rw [collapse]
    by_cases ha : a = underscore
    · -- the flag is not set in front of this one, and the next byte is no underscore
      have hclear : ¬ after = true := fun h => hafter h (congrArg some ha)
      rw [if_pos ha, if_neg hclear, ih hrest fun _ hhead => hnext underscore hhead ⟨ha, rfl⟩]
    · rw [if_neg ha, ih hrest fun h => by cases h]

theorem needsGuard_of_languagePrefix (h : languagePrefix <+: name) : needsGuard name = true := by
  cases name with
  | nil => cases List.prefix_nil.mp h
  | cons b t => rw [needsGuard, List.isPrefixOf_iff_prefix.mpr h, Bool.or_true]

/-- A name that is spelled as names are needs a guard only for the prefix of the language. -/
theorem needsGuard_of_spelled (h : Spelled name) (hforeign : ¬ languagePrefix <+: name) :
    needsGuard name = false := by
  cases name with
  | nil => rfl
  | cons b t =>
    rw [needsGuard, h.start b rfl, Bool.false_or, Bool.eq_false_iff]
    exact fun hstart => hforeign (List.isPrefixOf_iff_prefix.mp hstart)

/-- A name is its own mended form if it is well spelled and does not start like a name of the language. -/
theorem legal_eq_self_iff : legal name = name ↔ Spelled name ∧ ¬ languagePrefix <+: name := by
  constructor
  · intro heq
    refine ⟨heq ▸ spelled_legal name, fun hstart => ?_⟩
    -- the guard puts an underscore where the name has a `g`
    have hguard := needsGuard_of_languagePrefix hstart
    cases name with
    | nil => cases hguard
    | cons b t =>
      obtain ⟨rest, _, hlegal⟩ := legal_cons b t
      rw [hguard, if_pos rfl, heq] at hlegal
      exact absurd ((List.cons.inj hlegal).1 ▸ hstart) (not_languagePrefix_underscore t)
  · rintro ⟨hspelled, hforeign⟩
    have hmend : name.map mendByte = name :=
      (List.map_congr_left fun b hb => mendByte_of_isWordByte (hspelled.word b hb)).trans name.map_id
    have hbody : collapse false name = name :=
      collapse_of_isChain (single_iff.mp hspelled.single) fun h => by cases h
    rw [legal, if_neg hspelled.nonempty, needsGuard_of_spelled hspelled hforeign]
    simp only [hmend, hbody, Bool.false_eq_true, if_false]

/-! ## Numbers behind a mended name -/

theorem Spelled.numbered {v : Text} (h : Spelled t) (hv : IdentifierMap.Numbered t v) : Spelled v := by
  obtain ⟨digits, rfl, hdigits⟩ := Naming.exists_digits hv
  exact (spelled_append_digits hdigits h.nonempty).mpr h

end Identifier

namespace IdentifierMap

open Identifier

/-- **Mending gives well spelled names, and changes no name that is one already.**  The names that it leaves
are the well spelled ones that do not start with `gl_`.  An identifier that is handed out for a name, by a map
in which the reserved words are taken, is well spelled too: it is the mended name, with a number if need be.
It is no reserved word and was not taken. -/
theorem mended_names_spelled (name : Text) :
    Spelled (legal name) ∧
    (legal name = name ↔ Spelled name ∧ ¬ languagePrefix <+: name) ∧
    ∀ ids : IdentifierMap, (∀ w ∈ Glsl.reservedWords, ids.contains w = true) →
      Spelled (ids.makeIdentifier name).1 ∧
      Numbered (legal name) (ids.makeIdentifier name).1 ∧
      (ids.makeIdentifier name).1 ∉ Glsl.reservedWords ∧
      ids.contains (ids.makeIdentifier name).1 = false := by
  refine ⟨spelled_legal name, legal_eq_self_iff, fun ids hreserved => ?_⟩
  have hnumbered := makeUnique_numbered ids (legal name)
  have hfresh : ids.contains (ids.makeIdentifier name).1 = false := makeUnique_fresh ids (legal name)
  refine ⟨(spelled_legal name).numbered hnumbered, hnumbered, fun hword => ?_, hfresh⟩
  rw [hreserved _ hword] at hfresh
  cases hfresh

/-- The words of the language are taken, and two names of which one is numbered. -/
def crowded : IdentifierMap := (reserved.reserve "_2_x").reserve "_2_x1"

theorem mended_names_spelled_crowded :
    legal "2-_x" = Text.ofString "_2_x" ∧
    (∀ w ∈ Glsl.reservedWords, crowded.contains w = true) ∧
    (crowded.makeIdentifier "2-_x").1 = Text.ofString "_2_x2" ∧
    Spelled (crowded.makeIdentifier "2-_x").1 ∧
    crowded.contains (crowded.makeIdentifier "2-_x").1 = false ∧
    legal "a_b1_" = Text.ofString "a_b1_" := by
  have hreserved : ∀ w ∈ Glsl.reservedWords, crowded.contains w = true := fun w hw =>
    contains_reserve.mpr (Or.inr (contains_reserve.mpr (Or.inr (contains_reserved hw))))
  obtain ⟨_, _, hidentifier⟩ := mended_names_spelled "2-_x"
  obtain ⟨hspelled, _, _, hfree⟩ := hidentifier crowded hreserved
  exact ⟨by decide, hreserved, by decide +kernel, hspelled, hfree, by decide⟩

end IdentifierMap
end ShadeGraph
