/-
  Swizzles that are checked pick what they name.

  The check of a swizzle and its expression walk over the channels on their own, and treat a channel that is
  not there differently: the check refuses it and the expression reads it as zero.

  1. `Swizzle.Names` says which component a letter names; the search over the letters finds it and no other
     (`index?_eq_some_iff`).
  2. `Swizzle.Fits` is what the check accepts, said channel by channel (`check_eq_ok_iff`).
  3. A channel that names a component of the source is written as that component (`member_eq_picked`), so of
     channels that fit none is read as zero.
-/
import Mathlib.Tactic.IntervalCases
import ShadeGraph.Glsl.Swizzle

namespace ShadeGraph

namespace DataType

variable {t : DataType}

/-- A scalar, a vector or a color. -/
def HasChannels (t : DataType) : Prop :=
  t.isScalar = true ∨ t.isFloat2 = true ∨ t.isFloat3 = true ∨ t.isFloat4 = true

/-- What is left without the matrices and the types without components. -/
theorem hasChannels_iff : t.HasChannels ↔ ¬ (t.size = 0 ∨ t = .matrix33 ∨ t = .matrix44) := by
  cases t <;> simp [HasChannels, isScalar, isFloat2, isFloat3, isFloat4, size]

theorem size_eq_one_iff : t.size = 1 ↔ t.isScalar = true := by
  cases t <;> simp [isScalar, size]

end DataType

namespace Swizzle

variable {source target : DataType} {channels name : Text} {c letter : UInt8} {i : Nat}

/-! ## Channels -/

/-- A channel names a component, by its letter in vectors or by that in colors. -/
def Names (c : UInt8) (i : Nat) : Prop := vectorChannels[i]? = some c ∨ colorChannels[i]? = some c

theorem Names.lt_four (h : Names c i) : i < 4 := by
  rcases h with h | h
  · exact (List.getElem?_eq_some_iff.mp h).1
  · exact (List.getElem?_eq_some_iff.mp h).1

/-- The search finds the component that a channel names. -/
theorem index?_eq_some_iff : index? c = some i ↔ Names c i := by
  constructor
  · intro h
    have hfound := List.find?_some h
    rw [Bool.or_eq_true, beq_iff_eq, beq_iff_eq] at hfound
    exact hfound
  · intro h
    have hlt := h.lt_four
    -- eight letters, and no letter is found earlier
    interval_cases i <;> rcases h with h | h <;> obtain rfl := Option.some.inj h <;> rfl

/-- The bounded search finds the component that a channel names, if the type has it. -/
theorem indexBelow?_eq_some_iff {n : Nat} : indexBelow? n c = some i ↔ Names c i ∧ i < n := by
  rw [indexBelow?, Option.filter_eq_some_iff, index?_eq_some_iff, decide_eq_true_iff]

theorem isSome_indexBelow?_iff {n : Nat} : (indexBelow? n c).isSome = true ↔ ∃ i < n, Names c i := by
  rw [Option.isSome_iff_exists]
  simp only [indexBelow?_eq_some_iff, and_comm]

/-! ## The check -/

/-- Channels of a source type that make a value of the target type. -/
structure Fits (source : DataType) (channels : Text) (target : DataType) : Prop where
  swizzlable : source.HasChannels
  nonempty : channels ≠ []
  length : channels.length = target.size
  picks : ∀ c ∈ channels, ∃ i < source.size, Names c i

/-- **The check accepts exactly the channels that fit.** -/
theorem check_eq_ok_iff : check source channels target = .ok () ↔ Fits source channels target := by
  rw [check]
  constructor
  · intro h
    split at h
    · cases h
    next hsource =>
    split at h
    · cases h
    next hnonempty =>
    split at h
    · cases h
    next hlength =>
    split at h
    · cases h
    next hfind =>
    refine ⟨DataType.hasChannels_iff.mpr hsource, hnonempty, Decidable.not_not.mp hlength, fun c hc => ?_⟩
    have hpicked := List.find?_eq_none.mp hfind c hc
    rwa [Option.isNone_iff_eq_none, ← ne_eq, Option.ne_none_iff_isSome, isSome_indexBelow?_iff] at hpicked
  · intro h
    have hfind : channels.find? (fun c => (indexBelow? source.size c).isNone) = none := by
      refine List.find?_eq_none.mpr fun c hc => ?_
      rw [Option.isNone_iff_eq_none, ← ne_eq, Option.ne_none_iff_isSome, isSome_indexBelow?_iff]
      exact h.picks c hc
    rw [if_neg (DataType.hasChannels_iff.mp h.swizzlable), if_neg h.nonempty, if_neg (not_not_intro h.length),
      hfind]

/-! ## The expression -/

/-- A component of a variable; a scalar is its only one. -/
def picked (name : Text) (source : DataType) (letter : UInt8) : Text :=
  if source.isScalar then name else name ++ [46, letter]

/-- A channel that names a component of the source is written as that component. -/
theorem member_eq_picked (name : Text) (h : Names c i) (hi : i < source.size) :
    ∃ letter, vectorChannels[i]? = some letter ∧ member name source c = picked name source letter := by
  have hlt : i < vectorChannels.length := h.lt_four
  refine ⟨vectorChannels[i], List.getElem?_eq_getElem hlt, ?_⟩
  have hletter : (vectorChannels.drop i).take 1 = [vectorChannels[i]] := by
    rw [List.drop_eq_getElem_cons hlt, List.take_succ_cons, List.take_zero]
  rw [member, indexBelow?_eq_some_iff.mpr ⟨h, hi⟩, picked]
  simp only [DataType.size_eq_one_iff, hletter]

/-- Only a scalar can read like a zero that is filled in, for a component ends in its letter. -/
theorem picked_eq_zero (hletter : letter ∈ vectorChannels)
    (h : picked name source letter = Text.ofString "0.0") :
    source.isScalar = true ∧ name = Text.ofString "0.0" := by
  rw [picked] at h
  split at h
  · next hscalar => exact ⟨hscalar, h⟩
  · have hlast := congrArg List.getLast? h
    rw [List.getLast?_append] at hlast
    have hzero : letter = 48 := Option.some.inj hlast
    exact absurd (hzero ▸ hletter) (by decide)

theorem expression_singleton {m : Text} (h : channels.map (member name source) = [m]) :
    expression name source channels target = m := by
  rw [expression, h]

/-- Any other number of members is put together by a constructor. -/
theorem expression_of_length (h : channels.length ≠ 1) :
    expression name source channels target =
      Glsl.construct target.glslName (Text.joinWith ", " (channels.map (member name source))) := by
  rw [expression]
  split
  · next m hm =>
    have hone := congrArg List.length hm
    rw [List.length_map] at hone
    exact absurd hone h
  · rfl

/-- **A swizzle that passes the check is written with the components that it names.**  The check accepts the
channels that fit.  The expression of such channels has as many members as the target type has components,
one alone and several in a call of the type.  Each is the component that its channel names, and none is a zero
that is filled in: it only reads like one if that is the variable's own text. -/
theorem checked_members_picked (name : Text) (source : DataType) (channels : Text) (target : DataType) :
    (check source channels target = .ok () ↔ Fits source channels target) ∧
    (check source channels target = .ok () → ∃ members : List Text,
      members.length = target.size ∧
      (∀ m, members = [m] → expression name source channels target = m) ∧
      (members.length ≠ 1 → expression name source channels target =
        target.glslName ++ "(" ++ Text.joinWith ", " members ++ ")") ∧
      (∀ (j : Nat) c, channels[j]? = some c → ∃ (i : Nat) (letter : UInt8),
        Names c i ∧ i < source.size ∧ vectorChannels[i]? = some letter ∧
        members[j]? = some (if source.isScalar then name else name ++ [46, letter])) ∧
      ∀ m ∈ members, m = Text.ofString "0.0" → source.isScalar = true ∧ m = name) := by
  refine ⟨check_eq_ok_iff, fun hcheck => ?_⟩
  have hfits := check_eq_ok_iff.mp hcheck
  have hlength : (channels.map (member name source)).length = target.size := by
    rw [List.length_map, hfits.length]
  refine ⟨channels.map (member name source), hlength, fun m => expression_singleton, ?_, ?_, ?_⟩
  · intro hmany
    rw [List.length_map] at hmany
    exact expression_of_length hmany
  · intro j c hj
    obtain ⟨i, hi, hnames⟩ := hfits.picks c (List.mem_of_getElem? hj)
    obtain ⟨letter, hletter, hmember⟩ := member_eq_picked name hnames hi
    refine ⟨i, letter, hnames, hi, hletter, ?_⟩
    rw [List.getElem?_map, hj, Option.map_some, hmember, picked]
  · intro m hm hzero
    obtain ⟨c, hc, rfl⟩ := List.mem_map.mp hm
    obtain ⟨i, hi, hnames⟩ := hfits.picks c hc
    obtain ⟨letter, hletter, hmember⟩ := member_eq_picked name hnames hi
    obtain ⟨hscalar, hname⟩ := picked_eq_zero (List.mem_of_getElem? hletter) (hmember.symm.trans hzero)
    exact ⟨hscalar, hzero.trans hname.symm⟩

/-- Letters of both kinds, and the only channel of a scalar taken twice. -/
theorem checked_members_picked_mixed :
    check .color4 "wgx" .vector3 = .ok () ∧
    expression "c" .color4 "wgx" .vector3 = Text.ofString "vec3(c.w, c.y, c.x)" ∧
    (∃ members : List Text, members.length = 3 ∧ members[1]? = some (Text.ofString "c.y")) ∧
    check .float "rr" .vector2 = .ok () ∧
    expression "0.0" .float "rr" .vector2 = Text.ofString "vec2(0.0, 0.0)" := by
  have hcheck : check .color4 "wgx" .vector3 = .ok () := rfl
  obtain ⟨members, hlength, _, _, hmembers, _⟩ := (checked_members_picked "c" .color4 "wgx" .vector3).2 hcheck
  obtain ⟨i, letter, hnames, _, hletter, hmember⟩ := hmembers 1 103 rfl
  obtain rfl : 1 = i := Option.some.inj (index?_eq_some_iff.mpr hnames)
  obtain rfl : 121 = letter := Option.some.inj hletter
  exact ⟨hcheck, rfl, ⟨members, hlength, hmember⟩, rfl, rfl⟩

end Swizzle
end ShadeGraph
