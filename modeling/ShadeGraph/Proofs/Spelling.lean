/-
  The bytes of what is written into code.

  Numbers are written with digits, a minus and a point, and types, literals, identifiers and swizzles with
  brackets, commas and letters.  None of them holds a dollar sign or a number sign, and they close every
  bracket that they open, so whatever a graph asks for, such a piece of code is `Text.Calm`.  A declaration
  puts texts around a variable, which may be a token, and is as sound as the variable is.
-/
import ShadeGraph.Proofs.Brackets

namespace ShadeGraph

namespace Text

/-! ## Numbers -/

theorem calm_of_isDigit {t : Text} (h : ∀ b ∈ t, isDigit b = true) : t.Calm :=
  calm_of_isWordByte fun b hb => by rw [Identifier.isWordByte, h b hb, Bool.true_or, Bool.true_or]

theorem calm_ofNat (n : Nat) : (ofNat n).Calm := calm_of_isDigit fun _ => isDigit_of_mem_ofNat

/-- Numbers are calm, those with a sign included. -/
theorem calm_ofInt : ∀ i : Int, (ofInt i).Calm
  | .ofNat n => calm_ofNat n
  | .negSucc n => Calm.append (s := [45]) (by decide) (calm_ofNat (n + 1))

end Text

namespace Digits

/-- The digits of a decimal are decimal digits. -/
theorem isDigit_of_mem_ofDecimal {d : Decimal} {b : UInt8} (h : b ∈ (ofDecimal d).digits) :
    Text.isDigit b = true := by
  rw [ofDecimal] at h
  split at h
  · exact absurd h List.not_mem_nil
  · have hrev := List.dropWhile_subset _ (List.mem_reverse.mp h)
    exact Text.isDigit_of_mem_ofNat (List.mem_reverse.mp hrev)

theorem isDigit_of_mem_replicate {n : Nat} {b : UInt8} (h : b ∈ List.replicate n 48) :
    Text.isDigit b = true := by
  rw [List.eq_of_mem_replicate h]; decide

/-- In front of the point there are digits, and zeros where the digits do not reach. -/
theorem isDigit_of_mem_whole {d : Digits} (hd : ∀ b ∈ d.digits, Text.isDigit b = true) :
    ∀ b ∈ d.whole, Text.isDigit b = true := by
  intro b hb
  rw [whole] at hb
  split at hb
  · rw [List.mem_singleton.mp hb]; decide
  · rcases List.mem_append.mp hb with hb | hb
    · exact hd b (List.mem_of_mem_take hb)
    · exact isDigit_of_mem_replicate hb

/-- Behind the point there are digits, and zeros in front of them for small numbers. -/
theorem isDigit_of_mem_fraction {d : Digits} (hd : ∀ b ∈ d.digits, Text.isDigit b = true) :
    ∀ b ∈ d.fraction, Text.isDigit b = true := by
  intro b hb
  rw [fraction] at hb
  split at hb
  · split at hb
    · exact absurd hb List.not_mem_nil
    · rcases List.mem_append.mp hb with hb | hb
      · exact isDigit_of_mem_replicate hb
      · exact hd b hb
  · exact hd b (List.mem_of_mem_drop hb)

end Digits

/-- A float literal in positional notation is digits, a minus and a point. -/
theorem Binary32.calm_literal (x : Binary32) : (x.literal .fixed).Calm := by
  have hdigits : ∀ b ∈ x.literalValue.digits.digits, Text.isDigit b = true := fun _ =>
    Digits.isDigit_of_mem_ofDecimal
  have hwhole := Text.calm_of_isDigit (Digits.isDigit_of_mem_whole hdigits)
  have hfraction : Text.Calm
      (if x.literalValue.digits.fraction = [] then [48] else x.literalValue.digits.fraction) := by
    split
    · decide
    · exact Text.calm_of_isDigit (Digits.isDigit_of_mem_fraction hdigits)
  have hbody := hwhole.append (Text.Calm.append (s := [46]) (by decide) hfraction)
  rw [literal, fixedLiteral, withSign]
  split
  · exact Text.Calm.append (s := [45]) (by decide) hbody
  · exact hbody

/-! ## Types, literals and identifiers -/

theorem DataType.calm_glslName (t : DataType) : t.glslName.Calm := by
  cases t <;> exact of_decide_eq_true rfl

theorem DataType.calm_glslDefault (t : DataType) : t.glslDefault.Calm := by
  cases t <;> exact of_decide_eq_true rfl

/-- A constructor call has its brackets in pairs. -/
theorem Glsl.calm_construct {type arguments : Text} (htype : type.Calm)
    (harguments : arguments.Calm) : (construct type arguments).Calm := by
  have hbrackets : Text.Calm (Text.joinWith arguments ["(", ")"]) := harguments.fill (by decide) (by decide)
  have hconstruct : construct type arguments = type ++ Text.joinWith arguments ["(", ")"] := by
    simp [construct, Text.joinWith, List.intercalate_cons_cons]
  rw [hconstruct]
  exact htype.append hbrackets

/-- Numbers with commas between them are calm. -/
theorem Glsl.calm_floats (xs : List Binary32) : (floats .fixed ", " xs).Calm := by
  refine Text.Calm.joinWith (by decide) fun p hp => ?_
  obtain ⟨x, _, rfl⟩ := List.mem_map.mp hp
  exact x.calm_literal

/-- The literal of a value is calm, whatever the value. -/
theorem Value.calm_literal (v : Value) : (v.literal .fixed).Calm := by
  rw [literal]
  split
  · rw [flagText]; split <;> decide
  · exact Text.calm_ofInt _
  · exact Binary32.calm_literal _
  all_goals first
    | exact Glsl.calm_construct (DataType.calm_glslName _) (Glsl.calm_floats _)
    | exact Glsl.calm_construct (by decide) (Glsl.calm_floats _)
    | exact DataType.calm_glslDefault _

theorem calm_splat (t : DataType) {number : Text} (h : number.Calm) : (splat t number).Calm := by
  rw [splat]
  split
  · exact h
  · exact Glsl.calm_construct t.calm_glslName h

/-- One channel of something calm. -/
theorem Swizzle.calm_member {name : Text} (h : name.Calm) (source : DataType) (c : UInt8) :
    (member name source c).Calm := by
  have hchannels : vectorChannels.all Identifier.isWordByte = true := by decide
  rw [member]
  split
  · decide
  · split
    · exact h
    · refine h.append (Text.Calm.append (s := [46]) (by decide) (Text.calm_of_isWordByte fun b hb => ?_))
      exact List.all_eq_true.mp hchannels b (List.mem_of_mem_drop (List.mem_of_mem_take hb))

/-- Channels of something calm, one alone or several in a constructor call. -/
theorem Swizzle.calm_expression {name : Text} (h : name.Calm) (source : DataType) (channels : Text)
    (target : DataType) : (expression name source channels target).Calm := by
  have hmembers : ∀ p ∈ channels.map (member name source), p.Calm := by
    intro p hp
    obtain ⟨c, _, rfl⟩ := List.mem_map.mp hp
    exact calm_member h source c
  rw [expression]
  split
  · next m hm => exact hmembers m (hm ▸ List.mem_singleton_self m)
  · exact Glsl.calm_construct target.calm_glslName (Text.Calm.joinWith (by decide) hmembers)

/-! ## Declarations -/

namespace Port

/-- What a port is set to is calm, whatever its value is. -/
theorem calm_initializer (p : Port) : (p.initializer .fixed).Calm := by
  rw [initializer]
  split
  · decide
  · split
    · exact Value.calm_literal _
    · exact DataType.calm_glslDefault _

end Port

/-- A declaration is as sober as the name that it declares. -/
theorem Glsl.sober_declaration {words : List Text} {qualifier type name value : Text}
    (hqualifier : qualifier.Calm) (htype : type.Calm) (hname : name.Sober words) (hvalue : value.Calm) :
    (declaration qualifier type name value).Sober words := by
  have hfront : Text.Calm (if qualifier = [] then [] else qualifier ++ " ") := by
    split
    · decide
    · exact hqualifier.append (by decide)
  have hassignment : Text.Calm (if value = [] then [] else " = " ++ value) := by
    split
    · decide
    · exact Text.Calm.append (by decide) hvalue
  exact (((hfront.append htype).append (by decide)).sober.append hname).append hassignment.sober

/-- A declaration is as sober as the identifier in it. -/
theorem Port.sober_declaration {words : List Text} {p : Port} (h : p.ident.Sober words) {qualifier : Text}
    (hqualifier : qualifier.Calm) (assign : Bool) :
    (p.declaration .fragment .fixed qualifier assign).Sober words := by
  have hsuffix : wideSuffix.Calm := by decide
  rw [declaration]
  split
  · exact Glsl.sober_declaration hqualifier (by decide) (h.append hsuffix.sober) (by decide)
  · refine Glsl.sober_declaration hqualifier p.type.calm_glslName h ?_
    split
    · exact p.calm_initializer
    · decide

end ShadeGraph
