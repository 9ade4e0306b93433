/-
  Fixed literals stand for the numbers they are written for.

  1. The digits that a decimal is written with make its value, whatever zeros are put around them
     (`Digits.ratio_eq_places`), and they end in no zero.
  2. So the literal of a number is an optional minus, digits, a point and digits (`FixedLiteral`), whose value
     lies in the interval of the number and has that number as its nearest (`Binary32.toFixed_denotes`).
  3. A literal written behind a buffer and edited there is the literal behind the buffer
     (`Binary32.appendFixed_eq`).  The loop cuts off the zeros behind the first digit of the fraction
     (`Text.cutZeros_eq_dropTrailing`), and the digits end in none.
  4. The literal of a value has one of these for each component, those of a matrix column by column.
-/
import Mathlib.Data.List.DropRight
import ShadeGraph.Glsl.Literal
import ShadeGraph.Number.Buffer
import ShadeGraph.Proofs.NearestNumber
import ShadeGraph.Proofs.Spelling

namespace ShadeGraph

/-! ## Digits and their value -/

namespace Text

variable {t : Text}

/-- A number with a decimal digit behind it. -/
def addDigit (n : Nat) (b : UInt8) : Nat := 10 * n + (b.toNat - 48)

/-- The number that decimal digits make. -/
def decimal (t : Text) : Nat := t.foldl addDigit 0

/-- Digits behind a number move it up by as many places as they are. -/
theorem foldl_addDigit (t : Text) (n : Nat) : t.foldl addDigit n = n * 10 ^ t.length + decimal t := by
  induction t generalizing n with
  | nil => rw [List.foldl_nil, List.length_nil, decimal, List.foldl_nil, Nat.pow_zero, Nat.mul_one, Nat.add_zero]
  | cons b t ih =>
    rw [decimal, List.foldl_cons, List.foldl_cons, ih, ih (addDigit 0 b), List.length_cons, addDigit, addDigit]
    ring

/-- The number of digits behind others. -/
theorem decimal_append (s t : Text) : decimal (s ++ t) = decimal s * 10 ^ t.length + decimal t := by
  rw [decimal, List.foldl_append]
  exact foldl_addDigit t _

@[simp] theorem decimal_replicate_zero (n : Nat) : decimal (List.replicate n 48) = 0 := by
  induction n with
  | zero => rfl
  | succ n ih =>
    rw [List.replicate_succ', decimal_append, ih, Nat.zero_mul]
    rfl

/-- Reading digits gives the number that they make. -/
theorem digitsValue?_eq (h : ∀ b ∈ t, isDigit b = true) (n : Nat) :
    digitsValue? t n = some (t.foldl addDigit n) := by
  induction t generalizing n with
  | nil => rfl
  | cons b t ih =>
    rw [digitsValue?, if_pos (h b List.mem_cons_self), List.foldl_cons]
    exact ih (fun c hc => h c (List.mem_cons_of_mem b hc)) _

/-- The digits of a number make the number. -/
theorem decimal_ofNat (n : Nat) : decimal (ofNat n) = n := by
  have hread := digitsValue?_eq (fun b => isDigit_of_mem_ofNat (b := b) (n := n)) 0
  rw [digitsValue?_ofNat] at hread
  exact (Option.some.inj hread).symm

/-- What is cut off the end of digits is a run of zeros. -/
theorem decimal_eq_dropTrailing (t : Text) : ∃ n, t.length = (dropTrailing 48 t).length + n ∧
    decimal t = decimal (dropTrailing 48 t) * 10 ^ n := by
  have hsplit : dropTrailing 48 t ++ t.rtakeWhile (· == 48) = t := List.rdropWhile_append_rtakeWhile
  have hzeros : t.rtakeWhile (· == 48) = List.replicate (t.rtakeWhile (· == 48)).length 48 := by
    refine List.eq_replicate_iff.mpr ⟨rfl, fun b hb => ?_⟩
    have hb := List.mem_rtakeWhile_imp hb
    exact eq_of_beq hb
  refine ⟨(t.rtakeWhile (· == 48)).length, ?_, ?_⟩
  · rw [← List.length_append, hsplit]
  · conv_lhs => rw [← hsplit, decimal_append]
    rw [hzeros, decimal_replicate_zero, Nat.add_zero, List.length_replicate]

/-- Where all bytes of a kind are dropped at the end, none is left there. -/
theorem getLast?_dropTrailing (b : UInt8) (t : Text) : (dropTrailing b t).getLast? ≠ some b := by
  intro hlast
  have hne : dropTrailing b t ≠ [] := fun hnil => by
    rw [hnil] at hlast
    cases hlast
  have hnot := List.rdropWhile_last_not (· == b) t hne
  rw [List.getLast?_eq_some_getLast hne] at hlast
  exact hnot (beq_of_eq (Option.some.inj hlast))

end Text

namespace Digits

variable {d : Digits}

/-- Digits that end in no zero. -/
structure Proper (d : Digits) : Prop where
  isDigit : ∀ b ∈ d.digits, Text.isDigit b = true
  trimmed : d.digits.getLast? ≠ some 48

/-- The ratio that digits and the place of their point stand for. -/
def ratio (d : Digits) : ℚ := Text.decimal d.digits * 10 ^ (d.point - d.digits.length)

/-- The digits of a decimal have their zeros cut off at the end. -/
theorem ofDecimal_proper (d : Decimal) : (ofDecimal d).Proper := by
  refine ⟨fun _ => isDigit_of_mem_ofDecimal, ?_⟩
  rw [ofDecimal]
  split
  · exact (Option.some_ne_none 48).symm
  · exact Text.getLast?_dropTrailing 48 _

/-- Writing a decimal with digits keeps its ratio. -/
theorem ofDecimal_ratio (d : Decimal) : (ofDecimal d).ratio = d.ratio := by
  rw [ratio, Decimal.ratio, ofDecimal]
  split
  · next hzero => rw [hzero, Nat.cast_zero, zero_mul]; exact zero_mul _
  · obtain ⟨n, hlength, hvalue⟩ := Text.decimal_eq_dropTrailing (Text.ofNat d.digits)
    rw [Text.decimal_ofNat] at hvalue
    show (Text.decimal (Text.dropTrailing 48 (Text.ofNat d.digits)) : ℚ) * 10 ^ (_ : ℤ) = _
    have hexponent : ((Text.ofNat d.digits).length + d.exponent
        - (Text.dropTrailing 48 (Text.ofNat d.digits)).length : ℤ) = n + d.exponent := by
      rw [hlength]
      push_cast
      ring
    rw [hexponent, zpow_add₀ (by norm_num), zpow_natCast, ← mul_assoc]
    congr 1
    exact_mod_cast hvalue.symm

/-- The digits behind the point of a fixed literal; at least one. -/
def places (d : Digits) : Text := if d.fraction = [] then [48] else d.fraction

theorem whole_ne_nil (d : Digits) : d.whole ≠ [] := by
  rw [whole]
  split
  · exact List.cons_ne_nil _ _
  · intro hnil
    have hlength := congrArg List.length hnil
    rw [List.length_append, List.length_take, List.length_replicate, List.length_nil] at hlength
    omega

/-- There is a digit behind the point, a zero if the fraction is empty. -/
theorem places_ne_nil (d : Digits) : d.places ≠ [] := by
  rw [places]
  split
  · exact List.cons_ne_nil _ _
  · assumption

/-- What is behind the point are digits, the zeros included that fill up an empty place. -/
theorem Proper.isDigit_places (h : d.Proper) : ∀ b ∈ d.places, Text.isDigit b = true := by
  rw [places]
  split
  · intro b hb
    rw [List.mem_singleton.mp hb]
    rfl
  · exact isDigit_of_mem_fraction h.isDigit

/-- The last digit behind the point is the last of all, so it is no zero unless it is alone. -/
theorem Proper.places_trimmed (h : d.Proper) (hlength : 1 < d.places.length) : d.places.getLast? ≠ some 48 := by
  rw [places] at hlength ⊢
  split at hlength
  · exact absurd hlength (Nat.lt_irrefl 1)
  · next hne =>
    rw [if_neg hne]
    rw [fraction] at hne ⊢
    split at hne
    · next hpoint =>
      rw [if_pos hpoint]
      split at hne
      · exact absurd rfl hne
      · next hdigits =>
        rw [if_neg hdigits, List.getLast?_append_of_ne_nil _ hdigits]
        exact h.trimmed
    · next hpoint =>
      rw [if_neg hpoint, List.getLast?_drop, if_neg]
      · exact h.trimmed
      · rwa [List.drop_eq_nil_iff] at hne

/-- The digits in front of the point and those behind it make the ratio. -/
theorem ratio_eq_fraction (d : Digits) :
    (Text.decimal (d.whole ++ d.fraction) : ℚ) / 10 ^ d.fraction.length = d.ratio := by
  have hten : (10 : ℚ) ≠ 0 := by norm_num
  rw [ratio, whole, fraction, div_eq_mul_inv, ← zpow_natCast, ← zpow_neg]
  split
  · split
    · next hdigits =>
      have hnone : Text.decimal [] = 0 := rfl
      have hzero : Text.decimal ([48] ++ []) = 0 := rfl
      rw [hdigits, hnone, hzero, Nat.cast_zero, zero_mul, zero_mul]
    · -- zeros stand in front of the digits
      next hpoint _ =>
      have hvalue : Text.decimal ([48] ++ (List.replicate (-d.point).toNat 48 ++ d.digits)) =
          Text.decimal d.digits := by
        rw [← List.append_assoc, Text.decimal_append, ← List.replicate_one, ← List.replicate_add,
          Text.decimal_replicate_zero, Nat.zero_mul, Nat.zero_add]
      rw [hvalue, List.length_append, List.length_replicate]
      congr 2
      push_cast
      omega
  · next hpoint =>
    dsimp only
    rcases Nat.lt_or_ge d.point.toNat d.digits.length with hinside | hbehind
    · -- the point stands among the digits
      rw [Nat.sub_eq_zero_of_le hinside.le, List.replicate_zero, List.append_nil, List.take_append_drop,
        List.length_drop]
      congr 2
      omega
    · -- zeros stand behind the digits
      rw [List.take_of_length_le hbehind, List.drop_eq_nil_of_le hbehind, List.append_nil, Text.decimal_append,
        Text.decimal_replicate_zero, Nat.add_zero, List.length_replicate, Nat.cast_mul, Nat.cast_pow,
        Nat.cast_ofNat, ← zpow_natCast, mul_assoc, ← zpow_add₀ hten]
      congr 2
      rw [List.length_nil]
      push_cast
      omega

/-- Zeros in front of the point and behind it are counted on both sides of the division. -/
theorem ratio_eq_places (d : Digits) :
    (Text.decimal (d.whole ++ d.places) : ℚ) / 10 ^ d.places.length = d.ratio := by
  rw [← ratio_eq_fraction, places]
  split
  · next hnil =>
    have hvalue : Text.decimal (d.whole ++ [48]) = Text.decimal d.whole * 10 := Text.decimal_append d.whole [48]
    rw [hnil, hvalue, List.append_nil]
    push_cast
    norm_num
  · rfl

end Digits

/-! ## Literals -/

/-- A fixed literal: an optional minus, digits, a point and digits, which end in no zero behind the first. -/
structure FixedLiteral where
  /-- Whether there is a minus. -/
  negative : Bool
  /-- The digits in front of the point. -/
  whole : Text
  /-- The digits behind the point. -/
  places : Text
  whole_ne_nil : whole ≠ []
  places_ne_nil : places ≠ []
  isDigit_whole : ∀ b ∈ whole, Text.isDigit b = true
  isDigit_places : ∀ b ∈ places, Text.isDigit b = true
  trimmed : 1 < places.length → places.getLast? ≠ some 48

namespace FixedLiteral

/-- The text of a literal. -/
def text (l : FixedLiteral) : Text := (if l.negative then [45] else []) ++ l.whole ++ 46 :: l.places

/-- The number that the digits of a literal make without the point. -/
def numerator (l : FixedLiteral) : Nat := Text.decimal (l.whole ++ l.places)

/-- The power of ten that the point divides by. -/
def denominator (l : FixedLiteral) : Nat := Nat.pow 10 l.places.length

/-- The value of a literal. -/
def value (l : FixedLiteral) : ℚ := Binary32.signed l.negative (l.numerator / l.denominator)

/-- A literal denotes a finite number if it has its sign and is rounded to it.  An infinity and NaN are denoted
by zero. -/
structure Denotes (l : FixedLiteral) (x : Binary32) : Prop where
  sign : x.isFinite = true → l.negative = x.isNegative
  nearest : x.isFinite = true → Binary32.IsNearest l.value x
  rounded : x.isFinite = true → Binary32.ofRatio l.negative l.numerator l.denominator = x
  zero : x.isFinite = false → l.text = Text.ofString "0.0"

/-- The literal of digits. -/
def ofDigits (negative : Bool) (d : Digits) (h : d.Proper) : FixedLiteral where
  negative := negative
  whole := d.whole
  places := d.places
  whole_ne_nil := d.whole_ne_nil
  places_ne_nil := d.places_ne_nil
  isDigit_whole := Digits.isDigit_of_mem_whole h.isDigit
  isDigit_places := h.isDigit_places
  trimmed := h.places_trimmed

/-- The literal of digits stands for the ratio that the digits stand for. -/
theorem ratio_ofDigits {negative : Bool} {d : Digits} (h : d.Proper) :
    ((ofDigits negative d h).numerator / (ofDigits negative d h).denominator : ℚ) = d.ratio := by
  rw [← d.ratio_eq_places]
  show (_ / ((10 ^ d.places.length : Nat) : ℚ) : ℚ) = _
  rw [Nat.cast_pow]
  rfl

end FixedLiteral

namespace Binary32

theorem digits_proper (x : Binary32) : x.digits.Proper := Digits.ofDecimal_proper _

theorem digits_ratio (x : Binary32) : x.digits.ratio = (Decimal.shortest x).ratio := Digits.ofDecimal_ratio _

/-- The literal of a number. -/
def toFixed (x : Binary32) : FixedLiteral :=
  .ofDigits x.literalValue.isNegative x.literalValue.digits x.literalValue.digits_proper

theorem fixedLiteral_eq (sign point : UInt8) (x : Binary32) : x.fixedLiteral sign point =
    x.literalValue.withSign sign (x.toFixed.whole ++ point :: x.toFixed.places) := rfl

/-- The literal in the fixed format is the text of the number's `FixedLiteral`. -/
theorem literal_fixed (x : Binary32) : x.literal .fixed = x.toFixed.text := by
  show x.fixedLiteral 45 46 = x.toFixed.text
  rw [fixedLiteral_eq, withSign, FixedLiteral.text]
  show _ = (if x.literalValue.isNegative then [45] else []) ++ x.toFixed.whole ++ 46 :: x.toFixed.places
  split
  · rw [List.append_assoc]
    rfl
  · rw [List.nil_append]

/-- **The literal of a number denotes it.** -/
theorem toFixed_denotes (x : Binary32) : x.toFixed.Denotes x := by
  by_cases hx : x.isFinite = true
  · have hself : x.literalValue = x := if_pos hx
    have hsign : x.toFixed.negative = x.isNegative := congrArg isNegative hself
    have hratio : (x.toFixed.numerator / x.toFixed.denominator : ℚ) = (Decimal.shortest x).ratio := by
      rw [toFixed, FixedLiteral.ratio_ofDigits, hself, digits_ratio]
    have hrounds : x.Rounds (x.toFixed.numerator / x.toFixed.denominator) := hratio ▸ Decimal.shortest_rounds x
    refine ⟨fun _ => hsign, fun _ => ?_, fun _ => ?_, fun hinfinite => ?_⟩
    · rw [FixedLiteral.value, hsign]
      exact hrounds.isNearest hx
    · rw [hsign]
      exact hrounds.ofRatio_eq (Nat.pow_pos (by decide)) hx
    · rw [hx] at hinfinite
      cases hinfinite
  · have hzero : x.literalValue = zero := if_neg hx
    refine ⟨fun h => absurd h hx, fun h => absurd h hx, fun h => absurd h hx, fun _ => ?_⟩
    rw [← literal_fixed]
    show x.fixedLiteral 45 46 = _
    rw [fixedLiteral, hzero]
    rfl

end Binary32

/-! ## Writing into a buffer -/

namespace Text

variable {front : Text}

theorem indexOf?_eq_none {b : UInt8} (h : b ∉ front) : indexOf? b front = none := by
  rw [indexOf?, List.findIdx?_eq_none_iff]
  exact fun c hc => beq_eq_false_iff_ne.mpr fun heq => h (heq ▸ hc)

/-- A byte is first found where it stands, if it is not in front of that. -/
theorem indexOf?_append_cons {b : UInt8} (h : b ∉ front) (t : Text) :
    indexOf? b (front ++ b :: t) = some front.length := by
  have hnone := indexOf?_eq_none h
  rw [indexOf?] at hnone ⊢
  rw [List.findIdx?_append, hnone, List.findIdx?_cons, if_pos (beq_self_eq_true b), Option.map_some,
    Nat.zero_add, Option.none_or]

/-- A number without a fraction gets one, and the point is found in front of it either way. -/
theorem withPoint_eq (buffer : Text) (h : 46 ∉ front) (fraction : Text) :
    withPoint buffer.length (buffer ++ if fraction = [] then front else front ++ 46 :: fraction) =
      ((buffer ++ front).length, (buffer ++ front) ++ 46 :: if fraction = [] then [48] else fraction) := by
  rw [withPoint, List.drop_left]
  split
  · next i hi =>
    split at hi
    · rw [indexOf?_eq_none h] at hi
      cases hi
    · next hfraction =>
      rw [indexOf?_append_cons h] at hi
      rw [if_neg hfraction, if_neg hfraction, ← Option.some.inj hi, List.length_append, List.append_assoc]
  · next hnone =>
    split at hnone
    · next hfraction => rw [if_pos hfraction, if_pos hfraction]
    · rw [indexOf?_append_cons h] at hnone
      cases hnone

/-- Replacing the point touches one byte. -/
theorem replacePoint_eq (point : UInt8) (t : Text) :
    replacePoint front.length point (front ++ 46 :: t) = front ++ point :: t := by
  rw [replacePoint]
  split
  · next hpoint => rw [hpoint]
  · rw [List.set_append_right _ _ (Nat.le_refl _), Nat.sub_self, List.set_cons_zero]

/-- Behind a buffer a minus becomes the sign that is asked for. -/
theorem replaceSign_minus (buffer : Text) (sign : UInt8) (t : Text) :
    replaceSign buffer.length sign (buffer ++ 45 :: t) = buffer ++ sign :: t := by
  rw [replaceSign, List.getElem?_append_right (Nat.le_refl _), List.set_append_right _ _ (Nat.le_refl _),
    Nat.sub_self, List.getElem?_cons_zero, if_pos rfl, List.set_cons_zero]

/-- Without a minus behind the buffer, nothing is replaced there. -/
theorem replaceSign_other (buffer : Text) (sign : UInt8) {t : Text} (h : t.head? ≠ some 45) :
    replaceSign buffer.length sign (buffer ++ t) = buffer ++ t := by
  rw [replaceSign, if_neg]
  rwa [List.getElem?_append_right (Nat.le_refl _), Nat.sub_self, ← List.head?_eq_getElem?]

theorem dropTrailing_concat_self (b : UInt8) (t : Text) : dropTrailing b (t ++ [b]) = dropTrailing b t :=
  List.rdropWhile_concat_pos (· == b) t b (beq_self_eq_true b)

theorem dropTrailing_concat_of_ne {b c : UInt8} (h : c ≠ b) (t : Text) : dropTrailing b (t ++ [c]) = t ++ [c] :=
  List.rdropWhile_concat_neg (· == b) t c fun heq => h (eq_of_beq heq)

/-- The loop goes back over the zeros that are behind position `least`. -/
theorem take_endWithoutZeros (least : Nat) (t : Text) {n : Nat} (hn : n ≤ t.length) :
    t.take (endWithoutZeros least t n) =
      (t.take n).take (least + 1) ++ dropTrailing 48 ((t.take n).drop (least + 1)) := by
  induction n with
  | zero => rw [endWithoutZeros, List.take_zero, List.take_nil, List.drop_nil]; rfl
  | succ n ih =>
    have hlt : n < t.length := hn
    have hlast : t.take (n + 1) = t.take n ++ [t[n]] := List.take_succ_eq_append_getElem hlt
    have hlength : (t.take n).length = n := List.length_take_of_le hlt.le
    rw [endWithoutZeros]
    -- Behind the least number of bytes zeros are dropped one by one; in front of it none is.
    rcases Nat.lt_or_ge least n with hbehind | hshort
    · have hfront : (t.take (n + 1)).take (least + 1) = (t.take n).take (least + 1) := by
        rw [hlast, List.take_append_of_le_length (by omega)]
      have hdrop : (t.take (n + 1)).drop (least + 1) = (t.take n).drop (least + 1) ++ [t[n]] := by
        rw [hlast, List.drop_append_of_le_length (by omega)]
      rw [hfront, hdrop]
      by_cases hzero : t[n] = 48
      · rw [hzero, dropTrailing_concat_self, if_pos, ih hlt.le]
        rw [Bool.and_eq_true, decide_eq_true_iff, beq_iff_eq, List.getElem?_eq_getElem hlt, hzero]
        exact ⟨hbehind, rfl⟩
      · rw [dropTrailing_concat_of_ne hzero, if_neg, ← List.append_assoc, List.take_append_drop, hlast]
        rw [Bool.and_eq_true, beq_iff_eq, List.getElem?_eq_getElem hlt]
        exact fun hboth => hzero (Option.some.inj hboth.2)
    · have hall : (t.take (n + 1)).length ≤ least + 1 := (List.length_take_le _ _).trans (by omega)
      rw [if_neg, List.take_of_length_le hall, List.drop_eq_nil_of_le hall]
      · exact (List.append_nil _).symm
      · rw [Bool.and_eq_true, decide_eq_true_iff]
        exact fun hboth => Nat.not_lt.mpr hshort hboth.1

/-- **The loop that cuts zeros** keeps as many bytes as it is told and drops the zeros at the end of the rest.
-/
theorem cutZeros_eq_dropTrailing (least : Nat) (t : Text) :
    cutZeros least t = t.take (least + 1) ++ dropTrailing 48 (t.drop (least + 1)) := by
  rw [cutZeros, take_endWithoutZeros least t (Nat.le_refl _), List.take_length]

/-- Nothing is cut off a text that ends in no zero behind position `least`. -/
theorem cutZeros_eq {least : Nat} {t : Text} (h : (t.drop (least + 1)).getLast? ≠ some 48) :
    cutZeros least t = t := by
  have hkeep : dropTrailing 48 (t.drop (least + 1)) = t.drop (least + 1) := by
    refine List.rdropWhile_eq_self_iff.mpr fun hne hzero => h ?_
    rw [List.getLast?_eq_some_getLast hne, eq_of_beq hzero]
  rw [cutZeros_eq_dropTrailing, hkeep, List.take_append_drop]

end Text

namespace Binary32

theorem withSign_append (x : Binary32) (sign : UInt8) (s t : Text) :
    x.withSign sign (s ++ t) = x.withSign sign s ++ t := by
  rw [withSign, withSign]
  split <;> rfl

/-- A sign is one byte, whichever it is. -/
theorem length_withSign (x : Binary32) (sign sign' : UInt8) (t : Text) :
    (x.withSign sign t).length = (x.withSign sign' t).length := by
  rw [withSign, withSign]
  split <;> rfl

/-- The positional text of a number has a point only if there is a fraction. -/
theorem withSign_positional (x : Binary32) (sign : UInt8) (d : Digits) : x.withSign sign d.positional =
    if d.fraction = [] then x.withSign sign d.whole else x.withSign sign d.whole ++ 46 :: d.fraction := by
  rw [Digits.positional]
  split
  · rfl
  · exact withSign_append x sign _ _

/-- A minus and digits hold no point. -/
theorem point_not_mem_whole (x : Binary32) {d : Digits} (h : d.Proper) : 46 ∉ x.withSign 45 d.whole := by
  have hwhole : 46 ∉ d.whole := fun hmem => by
    have hdigit := Digits.isDigit_of_mem_whole h.isDigit 46 hmem
    cases hdigit
  rw [withSign]
  split
  · exact List.not_mem_cons_of_ne_of_not_mem (by decide) hwhole
  · exact hwhole

/-- Only the minus of a negative number is replaced. -/
theorem replaceSign_withSign (buffer : Text) (x : Binary32) (sign : UInt8) {d : Digits} (h : d.Proper)
    (t : Text) :
    Text.replaceSign buffer.length sign (buffer ++ (x.withSign 45 d.whole ++ t)) =
      buffer ++ (x.withSign sign d.whole ++ t) := by
  rw [withSign, withSign]
  split
  · exact Text.replaceSign_minus buffer sign _
  · refine Text.replaceSign_other buffer sign fun hhead => ?_
    rw [List.head?_append_of_ne_nil _ d.whole_ne_nil] at hhead
    have hdigit := Digits.isDigit_of_mem_whole h.isDigit 45 (List.mem_of_mem_head? hhead)
    cases hdigit

/-- **A literal written behind a buffer leaves the buffer as it is.** -/
theorem appendFixed_eq (buffer : Text) (sign point : UInt8) (x : Binary32) :
    x.appendFixed buffer sign point = buffer ++ x.fixedLiteral sign point := by
  have hproper := x.literalValue.digits_proper
  generalize hfront : x.literalValue.withSign 45 x.literalValue.digits.whole = front
  have hpoint : 46 ∉ front := hfront ▸ point_not_mem_whole _ hproper
  have hpointed : Text.withPoint buffer.length
      (buffer ++ x.literalValue.withSign 45 x.literalValue.digits.positional) =
        ((buffer ++ front).length, buffer ++ front ++ 46 :: x.literalValue.digits.places) := by
    rw [withSign_positional, hfront]
    exact Text.withPoint_eq buffer hpoint _
  have hliteral : x.fixedLiteral sign point =
      x.literalValue.withSign sign x.literalValue.digits.whole ++ point :: x.literalValue.digits.places :=
    withSign_append _ sign _ _
  rw [appendFixed, hpointed]
  dsimp only
  rw [Text.replacePoint_eq, List.append_assoc, ← hfront, replaceSign_withSign buffer _ sign hproper,
    ← hliteral]
  -- a digit that may be cut off is behind the first one, so the last of them is no zero
  refine Text.cutZeros_eq ?_
  rw [List.getLast?_drop]
  split
  · exact (Option.some_ne_none 48).symm
  · next hlength =>
    rw [hliteral] at hlength ⊢
    rw [← List.append_assoc, List.append_cons, List.getLast?_append_of_ne_nil _ (Digits.places_ne_nil _)]
    refine hproper.places_trimmed ?_
    simp only [List.length_append, List.length_cons] at hlength
    rw [length_withSign _ sign 45] at hlength
    omega

end Binary32

/-! ## Values -/

namespace DataType

/-- The types that are written with float literals: floats, vectors, colors and matrices. -/
def isReal : DataType → Bool
  | .float | .vector2 | .vector3 | .vector4 | .color3 | .color4 | .matrix33 | .matrix44 => true
  | _ => false

/-- The component that the `k`-th literal is for.  A matrix is kept row by row and written column by column. -/
def writtenComponent (t : DataType) (k : Nat) : Nat :=
  match t with
  | .matrix33 => k % 3 * 3 + k / 3
  | .matrix44 => k % 4 * 4 + k / 4
  | _ => k

end DataType

namespace Glsl

/-- Numbers with separators between them are the texts of their literals, joined. -/
theorem floats_fixed (sep : Text) (xs : List Binary32) :
    floats .fixed sep xs = Text.joinWith sep ((xs.map Binary32.toFixed).map FixedLiteral.text) := by
  have htext : Binary32.literal .fixed = FixedLiteral.text ∘ Binary32.toFixed := funext Binary32.literal_fixed
  rw [floats, List.map_map, htext]

theorem length_columns (d : Nat) (xs : List Binary32) : (columns d xs).length = d * d := by
  rw [columns, List.length_map, List.length_range]

/-- The entry at position `k`, column by column, is in row `k % d` and column `k / d`. -/
theorem getElem?_columns {d k : Nat} {xs : List Binary32} {x : Binary32} (h : xs.length = d * d)
    (hx : (columns d xs)[k]? = some x) : xs[k % d * d + k / d]? = some x := by
  rw [columns, List.getElem?_map] at hx
  obtain ⟨i, hi, rfl⟩ := Option.map_eq_some_iff.mp hx
  obtain ⟨hk, rfl⟩ := List.getElem?_eq_some_iff.mp hi
  rw [List.length_range] at hk
  rw [List.getElem_range]
  have hd : 0 < d := Nat.pos_of_ne_zero fun hzero => by
    rw [hzero] at hk
    exact Nat.not_lt_zero k hk
  have hinside : k % d * d + k / d < xs.length := by
    calc k % d * d + k / d < k % d * d + d := Nat.add_lt_add_left (Nat.div_lt_of_lt_mul hk) _
      _ = (k % d + 1) * d := (Nat.succ_mul _ _).symm
      _ ≤ d * d := Nat.mul_le_mul_right d (Nat.mod_lt k hd)
      _ = xs.length := h.symm
  rw [List.getD_eq_getElem?_getD, List.getElem?_eq_getElem hinside, Option.getD_some]

end Glsl

namespace Value

/-- The literal of a value is made of the literals `ls`, alone or in a constructor call: one for each component,
and each denotes the component that it is for. -/
structure WrittenWith (v : Value) (ls : List FixedLiteral) : Prop where
  length : ls.length = v.type.size
  alone : v.type = .float → ∃ l, ls = [l] ∧ v.literal .fixed = l.text
  constructed : v.type ≠ .float → v.literal .fixed =
    v.type.glslName ++ "(" ++ Text.joinWith ", " (ls.map FixedLiteral.text) ++ ")"
  denotes : ∀ k l, ls[k]? = some l → ∃ x, v.components[v.type.writtenComponent k]? = some x ∧ l.Denotes x

variable {v : Value} {xs : List Binary32}

/-- Literals for the numbers `xs` denote the components that these are taken from. -/
theorem denotes_map_toFixed (h : ∀ k x, xs[k]? = some x → v.components[v.type.writtenComponent k]? = some x)
    (k : Nat) (l : FixedLiteral) (hl : (xs.map Binary32.toFixed)[k]? = some l) :
    ∃ x, v.components[v.type.writtenComponent k]? = some x ∧ l.Denotes x := by
  rw [List.getElem?_map] at hl
  obtain ⟨x, hx, rfl⟩ := Option.map_eq_some_iff.mp hl
  exact ⟨x, h k x hx, x.toFixed_denotes⟩

/-- A constructor call with the literals of numbers, if each of them is the component that its place is for. -/
theorem writtenWith_of_construct (xs : List Binary32) (htype : v.type ≠ .float)
    (hlength : xs.length = v.type.size)
    (hliteral : v.literal .fixed = Glsl.construct v.type.glslName (Glsl.floats .fixed ", " xs))
    (h : ∀ k x, xs[k]? = some x → v.components[v.type.writtenComponent k]? = some x) :
    v.WrittenWith (xs.map Binary32.toFixed) where
  length := (List.length_map _).trans hlength
  alone := fun hfloat => absurd hfloat htype
  constructed := fun _ => by rw [hliteral, Glsl.floats_fixed, Glsl.construct]
  denotes := denotes_map_toFixed h

/-- **A value of any type that is written with numbers has its literals**: the case of each type says which
numbers are written. -/
theorem exists_writtenWith (hreal : v.type.isReal = true) : ∃ ls, v.WrittenWith ls := by
  have hsize := v.sized fun hboolean => by rw [hboolean] at hreal; cases hreal
  obtain ⟨type, numbers, text, flag, _⟩ := v
  cases type
  case float =>
    obtain ⟨x, rfl⟩ := List.length_eq_one_iff.mp hsize
    refine ⟨[x].map Binary32.toFixed, rfl, fun _ => ?_, fun h => absurd rfl h, ?_⟩
    · exact ⟨x.toFixed, rfl, x.literal_fixed⟩
    · exact denotes_map_toFixed fun k y hy => hy
  case vector2 | vector3 | vector4 | color3 | color4 =>
    exact ⟨_, writtenWith_of_construct numbers (fun h => nomatch h) hsize rfl fun k y hy => hy⟩
  case matrix33 =>
    exact ⟨_, writtenWith_of_construct (Glsl.columns 3 numbers) (fun h => nomatch h)
      (Glsl.length_columns 3 numbers) rfl fun k y hy => Glsl.getElem?_columns hsize hy⟩
  case matrix44 =>
    exact ⟨_, writtenWith_of_construct (Glsl.columns 4 numbers) (fun h => nomatch h)
      (Glsl.length_columns 4 numbers) rfl fun k y hy => Glsl.getElem?_columns hsize hy⟩
  all_goals cases hreal

/-- **Every component of a value is denoted by the literal that is written for it**, and a literal leaves what
stands in front of it as it is. -/
theorem literal_denotes_components (v : Value) (hreal : v.type.isReal = true) :
    (∃ ls, v.WrittenWith ls) ∧
    (∀ x : Binary32, x.literal .fixed = x.appendFixed [] 45 46) ∧
    ∀ (buffer : Text) (sign point : UInt8) (x : Binary32),
      x.appendFixed buffer sign point = buffer ++ x.appendFixed [] sign point := by
  refine ⟨exists_writtenWith hreal, fun x => ?_, fun buffer sign point x => ?_⟩
  · exact (Binary32.appendFixed_eq [] 45 46 x).symm
  · rw [Binary32.appendFixed_eq, Binary32.appendFixed_eq, List.nil_append]

/-- A matrix with a negative zero, a NaN, an infinity, the least number above zero and one beyond the whole
numbers that are all kept. -/
def unevenMatrix : Value where
  type := .matrix33
  numbers := [.one, ⟨0x3DCCCCCD⟩, ⟨0x7FC00000⟩, ⟨0x80000000⟩, ⟨0xC0200000⟩, ⟨0x4B800001⟩, ⟨0x40E00000⟩, ⟨1⟩,
    ⟨0xFF800000⟩]
  text := []
  flag := false
  sized _ := rfl

theorem literal_denotes_components_uneven :
    unevenMatrix.type.isReal = true ∧
    unevenMatrix.literal .fixed = Text.ofString "mat3(1.0, -0.0, 7.0, 0.1, -2.5, " ++
      Text.ofString "0.000000000000000000000000000000000000000000001, 0.0, 16777218.0, 0.0)" ∧
    (∃ ls, unevenMatrix.WrittenWith ls) ∧
    Binary32.appendFixed (Text.ofString "-0.0, ") 126 44 ⟨0xC0200000⟩ = Text.ofString "-0.0, ~2,5" := by
  obtain ⟨hwritten, _, hbuffer⟩ := literal_denotes_components unevenMatrix rfl
  refine ⟨rfl, by decide +kernel, hwritten, ?_⟩
  rw [hbuffer]
  decide +kernel

end Value

end ShadeGraph
