/-
  Numbers and their values.

  1. A finite number has a `size`, the rational `m * 2 ^ q`.  The pairs that `scale` makes are ratios times
     powers of two (`scale_ratio`), and `floorLog2` finds the power of two below a ratio (`floorLog2_eq`).
  2. So rounding the size of a number gives the number back (`ofRatio_size`): exponent and significand
     of the rounded ratio are those of the number.
  3. Half precision bits that stand for a number hold its size exactly, so they are read as the number
     (`ofHalf_toHalf?`).  Only the payload of a NaN is lost.
-/
import Mathlib.Algebra.Order.Field.Power
import Mathlib.Data.Nat.Cast.Field
import Mathlib.Data.Rat.Cast.Order
import Mathlib.Tactic.FieldSimp
import Mathlib.Tactic.Linarith
import Mathlib.Tactic.NormNum
import Mathlib.Tactic.Positivity
import Mathlib.Tactic.Ring
import ShadeGraph.Number.Binary32

namespace ShadeGraph
namespace Binary32

/-! ## Ratios and powers of two -/

section

variable {num den : Nat}

theorem scale_pos (num : Nat) (hden : 0 < den) (e : Int) : 0 < (scale num den e).2 := by
  cases e with
  | ofNat n => exact hden
  | negSucc n => exact Nat.mul_pos hden (Nat.two_pow_pos (n + 1))

/-- A scaled pair is the ratio times a power of two. -/
theorem scale_ratio (num den : Nat) (e : Int) :
    ((scale num den e).1 : ℚ) / (scale num den e).2 = num / den * 2 ^ e := by
  cases e with
  | ofNat n =>
    show ((num * 2 ^ n : Nat) : ℚ) / den = num / den * 2 ^ (n : ℤ)
    rw [zpow_natCast]
    push_cast
    ring
  | negSucc n =>
    show (num : ℚ) / ((den * 2 ^ (n + 1) : Nat) : ℚ) = num / den * 2 ^ (Int.negSucc n)
    rw [zpow_negSucc]
    push_cast
    rw [← div_div, div_eq_mul_inv (num / den : ℚ)]

/-- Two powers of two around the same ratio are the same. -/
theorem exponent_unique {v : ℚ} {e f : ℤ} (he : (2 : ℚ) ^ e ≤ v) (he' : v < 2 ^ (e + 1))
    (hf : (2 : ℚ) ^ f ≤ v) (hf' : v < 2 ^ (f + 1)) : e = f := by
  have h₁ := (zpow_lt_zpow_iff_right₀ (one_lt_two : (1 : ℚ) < 2)).mp (he.trans_lt hf')
  have h₂ := (zpow_lt_zpow_iff_right₀ (one_lt_two : (1 : ℚ) < 2)).mp (hf.trans_lt he')
  omega

/-- The power of two below a positive natural number. -/
theorem log2_bounds {n : Nat} (hn : 0 < n) :
    (2 : ℚ) ^ (Nat.log2 n : ℤ) ≤ n ∧ (n : ℚ) < 2 ^ ((Nat.log2 n : ℤ) + 1) := by
  constructor
  · rw [zpow_natCast]
    exact_mod_cast Nat.log2_self_le hn.ne'
  · have hlt : n < 2 ^ (Nat.log2 n + 1) := Nat.lt_log2_self
    rw [show (Nat.log2 n : ℤ) + 1 = ((Nat.log2 n + 1 : Nat) : ℤ) from by push_cast; ring, zpow_natCast]
    exact_mod_cast hlt

/-- The power of two below a positive ratio. -/
theorem floorLog2_bounds (hnum : 0 < num) (hden : 0 < den) :
    (2 : ℚ) ^ floorLog2 num den ≤ num / den ∧ (num / den : ℚ) < 2 ^ (floorLog2 num den + 1) := by
  obtain ⟨hnum₁, hnum₂⟩ := log2_bounds hnum
  obtain ⟨hden₁, hden₂⟩ := log2_bounds hden
  have hdenpos : (0 : ℚ) < den := Nat.cast_pos.mpr hden
  -- The difference of the two logarithms is the exponent, or one too large.
  have hupper : (num / den : ℚ) < 2 ^ ((Nat.log2 num : ℤ) - Nat.log2 den + 1) := by
    rw [div_lt_iff₀ hdenpos]
    calc (num : ℚ) < 2 ^ ((Nat.log2 num : ℤ) + 1) := hnum₂
      _ = 2 ^ ((Nat.log2 num : ℤ) - Nat.log2 den + 1) * 2 ^ (Nat.log2 den : ℤ) := by
        rw [← zpow_add₀ two_ne_zero]; congr 1; ring
      _ ≤ 2 ^ ((Nat.log2 num : ℤ) - Nat.log2 den + 1) * den := by gcongr
  have hlower : (2 : ℚ) ^ ((Nat.log2 num : ℤ) - Nat.log2 den - 1) ≤ num / den := by
    rw [le_div_iff₀ hdenpos]
    calc (2 : ℚ) ^ ((Nat.log2 num : ℤ) - Nat.log2 den - 1) * den
        ≤ 2 ^ ((Nat.log2 num : ℤ) - Nat.log2 den - 1) * 2 ^ ((Nat.log2 den : ℤ) + 1) := by gcongr
      _ = 2 ^ (Nat.log2 num : ℤ) := by rw [← zpow_add₀ two_ne_zero]; congr 1; ring
      _ ≤ num := hnum₁
  have hratio := scale_ratio num den (-((Nat.log2 num : ℤ) - Nat.log2 den))
  have hpos := scale_pos num hden (-((Nat.log2 num : ℤ) - Nat.log2 den))
  rw [floorLog2]
  generalize (Nat.log2 num : ℤ) - Nat.log2 den = e at *
  generalize scale num den (-e) = r at *
  obtain ⟨a, b⟩ := r
  have hbpos : (0 : ℚ) < b := Nat.cast_pos.mpr hpos
  have htest : (a < b) ↔ (num / den : ℚ) < 2 ^ e := by
    rw [← Nat.cast_lt (α := ℚ), ← div_lt_one hbpos, hratio, zpow_neg, ← div_eq_mul_inv,
      div_lt_one (by positivity)]
  simp only
  split
  · next h => exact ⟨hlower, by rw [sub_add_cancel]; exact htest.mp h⟩
  · next h => exact ⟨not_lt.mp (mt htest.mpr h), hupper⟩

/-- It is the only such power. -/
theorem floorLog2_eq {e : ℤ} (hnum : 0 < num) (hden : 0 < den) (he : (2 : ℚ) ^ e ≤ num / den)
    (he' : (num / den : ℚ) < 2 ^ (e + 1)) : floorLog2 num den = e :=
  exponent_unique (floorLog2_bounds hnum hden).1 (floorLog2_bounds hnum hden).2 he he'

/-- A quotient without remainder is not rounded. -/
theorem roundDiv_mul (k : Nat) (hden : 0 < den) : roundDiv (k * den) den = k := by
  rw [roundDiv, Nat.mul_div_cancel k hden, Nat.mul_mod_left, if_pos hden]

end

/-! ## The bits of a number -/

/-- The absolute value of a finite number. -/
def size (x : Binary32) : ℚ := x.significand * 2 ^ x.exponent

/-- Sign and magnitude make up a number. -/
theorem ofMagnitude_magnitude (x : Binary32) : ofMagnitude x.isNegative x.magnitude = x := by
  have hlt : x.bits.toNat < 0x100000000 := x.bits.toNat_lt
  have hbits : (if x.isNegative then signBit + x.magnitude else x.magnitude) = x.bits.toNat := by
    cases hsign : x.isNegative with
    | true =>
      have hhigh : signBit ≤ x.bits.toNat := of_decide_eq_true hsign
      simp only [if_true, magnitude, signBit] at hhigh ⊢
      omega
    | false =>
      have hlow : ¬ signBit ≤ x.bits.toNat := of_decide_eq_false hsign
      simp only [Bool.false_eq_true, if_false, magnitude, signBit] at hlow ⊢
      omega
  rw [ofMagnitude, hbits]
  exact congrArg Binary32.mk UInt32.ofNat_toNat

/-- Exponent and significand of a finite number, and how they are stored. -/
theorem parts (x : Binary32) (hfinite : x.isFinite = true) :
    -149 ≤ x.exponent ∧ x.exponent ≤ 104 ∧ x.significand < 2 ^ 24 ∧
      (x.exponent = -149 ∨ 2 ^ 23 ≤ x.significand) ∧
      x.magnitude = (x.exponent + 149).toNat * implicitBit + x.significand := by
  have hmagnitude : x.magnitude < 0x7F800000 := of_decide_eq_true hfinite
  rw [significand, exponent]
  by_cases hfield : x.exponentField = 0
  · rw [if_pos hfield]
    simp only [exponentField, implicitBit] at hfield ⊢
    omega
  · rw [if_neg hfield]
    simp only [exponentField, implicitBit] at hfield ⊢
    omega

/-- **A number is the nearest one to its own size.** -/
theorem roundedMagnitude_size {x : Binary32} (hfinite : x.isFinite = true) {num den : Nat}
    (hden : 0 < den) (hsize : (num / den : ℚ) = x.size) : roundedMagnitude num den = x.magnitude := by
  obtain ⟨hlow, hhigh, hbound, hnormal, hstored⟩ := x.parts hfinite
  have hdenpos : (0 : ℚ) < den := Nat.cast_pos.mpr hden
  have hmagnitude : x.magnitude < infinityMagnitude := of_decide_eq_true hfinite
  rw [roundedMagnitude]
  split
  · next hzero =>
    -- Nothing but zero has the size zero.
    subst hzero
    have hsignificand : x.significand = 0 := by
      rw [Nat.cast_zero, zero_div, size] at hsize
      have := (mul_eq_zero.mp hsize.symm).resolve_right (zpow_ne_zero _ two_ne_zero)
      exact_mod_cast this
    rcases hnormal with hexponent | hlarge
    · rw [hstored, hexponent, hsignificand]
      rfl
    · rw [hsignificand] at hlarge
      exact absurd hlarge (by decide)
  · next hnum =>
    have hnumpos : 0 < num := Nat.pos_of_ne_zero hnum
    have hsignificand : 0 < x.significand := by
      refine Nat.pos_of_ne_zero fun hzero => ?_
      rw [size, hzero, Nat.cast_zero, zero_mul, div_eq_zero_iff] at hsize
      rcases hsize with h | h
      · exact hnum (by exact_mod_cast h)
      · exact hdenpos.ne' h
    -- The exponent is the one that the number has.
    obtain ⟨hlog₁, hlog₂⟩ := log2_bounds hsignificand
    have hfloor : floorLog2 num den = (Nat.log2 x.significand : ℤ) + x.exponent := by
      refine floorLog2_eq hnumpos hden ?_ ?_
      · rw [hsize, size, zpow_add₀ two_ne_zero]
        gcongr
      · rw [hsize, size, add_right_comm, zpow_add₀ two_ne_zero]
        gcongr
    have hexponent : max (floorLog2 num den - 23) (-149) = x.exponent := by
      have hlog : Nat.log2 x.significand < 24 := (Nat.log2_lt hsignificand.ne').mpr hbound
      rw [hfloor]
      rcases hnormal with hleast | hlarge
      · omega
      · have : 23 ≤ Nat.log2 x.significand := (Nat.le_log2 hsignificand.ne').mpr hlarge
        omega
    -- Nothing is left over.
    have hratio := scale_ratio num den (-x.exponent)
    have hpos := scale_pos num hden (-x.exponent)
    have hexact : (scale num den (-x.exponent)).1 = x.significand * (scale num den (-x.exponent)).2 := by
      have hbpos : (0 : ℚ) < (scale num den (-x.exponent)).2 := Nat.cast_pos.mpr hpos
      rw [hsize, size, mul_assoc, ← zpow_add₀ two_ne_zero, add_neg_cancel, zpow_zero, mul_one,
        div_eq_iff hbpos.ne'] at hratio
      exact_mod_cast hratio
    rw [hexponent]
    show min (_ * implicitBit +
      roundDiv (scale num den (-x.exponent)).1 (scale num den (-x.exponent)).2) _ = _
    rw [hexact, roundDiv_mul x.significand hpos, ← hstored]
    exact Nat.min_eq_left hmagnitude.le

/-- A finite number is read back from any ratio that is its size. -/
theorem ofRatio_size {x : Binary32} (hfinite : x.isFinite = true) {num den : Nat} (hden : 0 < den)
    (hsize : (num / den : ℚ) = x.size) : ofRatio x.isNegative num den = x := by
  rw [ofRatio, roundedMagnitude_size hfinite hden hsize, ofMagnitude_magnitude]

/-! ## Half precision -/

/-- What stands in front of the half precision bits of a magnitude. -/
def halfSign (negative : Bool) : Nat := if negative then 0x8000 else 0

/-- Half precision bits that hold an exponent and a significand are read as these.  The significand has
eleven bits, and fewer only with the least exponent. -/
theorem ofHalf_parts (negative : Bool) {step k : Nat} (hstep : step ≤ 29) (hk : k < 2 ^ 11)
    (hnormal : step = 0 ∨ 2 ^ 10 ≤ k) :
    ofHalf (UInt16.ofNat (halfSign negative + step * 0x400 + k)) =
      ofRatio negative (scale k 1 ((step : Int) - 24)).1 (scale k 1 ((step : Int) - 24)).2 := by
  have hsign : halfSign negative = 0 ∨ halfSign negative = 0x8000 := by cases negative <;> simp [halfSign]
  have hbits : (UInt16.ofNat (halfSign negative + step * 0x400 + k)).toNat =
      halfSign negative + step * 0x400 + k := by
    refine UInt16.toNat_ofNat_of_lt' ?_
    show _ < 65536
    omega
  have hnegative : decide (0x8000 ≤ halfSign negative + step * 0x400 + k) = negative := by
    cases negative <;> simp [halfSign] <;> omega
  rw [ofHalf, hbits]
  simp only [hnegative]
  have hfield : (halfSign negative + step * 0x400 + k) % 0x8000 = step * 0x400 + k := by omega
  rw [hfield, if_neg (by omega)]
  -- The leading bit of the significand counts one step of the exponent.
  by_cases hsmall : k < 2 ^ 10
  · rw [if_pos (by omega)]
    have hk' : (step * 0x400 + k) % 0x400 = k := by omega
    have he : ((max ((step * 0x400 + k) / 0x400) 1 : Nat) : Int) - 25 = (step : Int) - 24 := by omega
    rw [hk', he]
  · rw [if_neg (by omega)]
    have hk' : (step * 0x400 + k) % 0x400 + 0x400 = k := by omega
    have he : ((max ((step * 0x400 + k) / 0x400) 1 : Nat) : Int) - 25 = (step : Int) - 24 := by omega
    rw [hk', he]

/-- A number whose size is a natural number of at most eleven bits times a power of two. -/
theorem ofHalf_size {x : Binary32} (hfinite : x.isFinite = true) {q : Int} {k : Nat} (hlow : -24 ≤ q)
    (hhigh : q ≤ 5) (hk : k < 2 ^ 11) (hnormal : q = -24 ∨ 2 ^ 10 ≤ k)
    (hsize : (k : ℚ) * 2 ^ q = x.size) :
    ofHalf (UInt16.ofNat (halfSign x.isNegative + (q + 24).toNat * 0x400 + k)) = x := by
  have hstep : ((q + 24).toNat : Int) - 24 = q := by omega
  rw [ofHalf_parts x.isNegative (by omega) hk (by omega), hstep]
  refine ofRatio_size hfinite (scale_pos k Nat.one_pos q) ?_
  rw [scale_ratio, Nat.cast_one, div_one, hsize]

/-- The significand that half precision stores, and its bounds. -/
theorem half_significand {x : Binary32} (hsignificand : 0 < x.significand) {e q : Int}
    (he : e = (Nat.log2 x.significand : Int) + x.exponent) (hq : q = max (e - 10) (-24))
    (hwhole : (scale x.significand 1 (x.exponent - q)).1 % (scale x.significand 1 (x.exponent - q)).2 = 0) :
    let k := (scale x.significand 1 (x.exponent - q)).1 / (scale x.significand 1 (x.exponent - q)).2
    (k : ℚ) * 2 ^ q = x.size ∧ k < 2 ^ 11 ∧ (q = -24 ∨ 2 ^ 10 ≤ k) := by
  intro k
  have hratio := scale_ratio x.significand 1 (x.exponent - q)
  have hpos : (0 : ℚ) < (scale x.significand 1 (x.exponent - q)).2 :=
    Nat.cast_pos.mpr (scale_pos x.significand Nat.one_pos (x.exponent - q))
  have hk : (k : ℚ) = x.significand * 2 ^ (x.exponent - q) := by
    rw [Nat.cast_div (Nat.dvd_of_mod_eq_zero hwhole) hpos.ne', hratio, Nat.cast_one, div_one]
  have hsize : (k : ℚ) * 2 ^ q = x.size := by
    rw [hk, mul_assoc, ← zpow_add₀ two_ne_zero, sub_add_cancel, size]
  obtain ⟨hlog₁, hlog₂⟩ := log2_bounds hsignificand
  -- The size lies between two powers of two, and so does the stored significand.
  have hupper : (k : ℚ) * 2 ^ q < 2 ^ (11 : ℤ) * 2 ^ q := by
    rw [hsize, size]
    calc (x.significand : ℚ) * 2 ^ x.exponent
        < 2 ^ ((Nat.log2 x.significand : ℤ) + 1) * 2 ^ x.exponent := by gcongr
      _ = 2 ^ (e + 1) := by rw [← zpow_add₀ two_ne_zero, he]; congr 1; ring
      _ ≤ 2 ^ (11 + q) := zpow_le_zpow_right₀ one_le_two (by omega)
      _ = 2 ^ (11 : ℤ) * 2 ^ q := zpow_add₀ two_ne_zero _ _
  have hlower : q = e - 10 → (2 : ℚ) ^ (10 : ℤ) * 2 ^ q ≤ k * 2 ^ q := by
    intro hnormal
    rw [hsize, size]
    calc (2 : ℚ) ^ (10 : ℤ) * 2 ^ q = 2 ^ (Nat.log2 x.significand : ℤ) * 2 ^ x.exponent := by
          rw [← zpow_add₀ two_ne_zero, ← zpow_add₀ two_ne_zero, hnormal, he]; congr 1; ring
      _ ≤ x.significand * 2 ^ x.exponent := by gcongr
  have hscale : (0 : ℚ) < 2 ^ q := by positivity
  refine ⟨hsize, ?_, ?_⟩
  · have := lt_of_mul_lt_mul_right hupper hscale.le
    exact_mod_cast this
  · by_cases hleast : q = -24
    · exact Or.inl hleast
    · have := le_of_mul_le_mul_right (hlower (by omega)) hscale
      exact Or.inr (by exact_mod_cast this)

/-- What half precision bits stand for: a NaN, an infinity, or a significand and an exponent. -/
theorem toHalf?_cases {x : Binary32} {h : UInt16} (hx : x.toHalf? = some h) :
    (x.isNaN = true ∧ h = 0x7E00) ∨
    (x.magnitude = infinityMagnitude ∧ h = UInt16.ofNat (halfSign x.isNegative + 0x7C00)) ∨
    (x.isFinite = true ∧ ∃ (q : Int) (k : Nat), (-24 ≤ q ∧ q ≤ 5) ∧ k < 2 ^ 11 ∧
      (q = -24 ∨ 2 ^ 10 ≤ k) ∧ (k : ℚ) * 2 ^ q = x.size ∧
      h = UInt16.ofNat (halfSign x.isNegative + (q + 24).toNat * 0x400 + k)) := by
  have htop : (if x.isNegative = true then 0x8000 else 0) = halfSign x.isNegative := rfl
  simp only [toHalf?, htop] at hx
  split at hx
  · next hnan => exact Or.inl ⟨hnan, (Option.some.inj hx).symm⟩
  · next hnan =>
    have hnan : ¬ infinityMagnitude < x.magnitude := fun h => hnan (decide_eq_true h)
    split at hx
    · next hinfinite =>
      have hinfinite : ¬ x.magnitude < infinityMagnitude := by
        intro h
        rw [isFinite, decide_eq_true h] at hinfinite
        cases hinfinite
      exact Or.inr (Or.inl ⟨by omega, (Option.some.inj hx).symm⟩)
    · next hfinite =>
      have hfinite : x.isFinite = true := by simpa using hfinite
      refine Or.inr (Or.inr ⟨hfinite, ?_⟩)
      split at hx
      -- A zero has the least exponent, like the numbers that are not normal.
      · next hzero =>
        have hsize : ((0 : Nat) : ℚ) * 2 ^ (-24 : ℤ) = x.size := by
          rw [size, hzero, Nat.cast_zero, zero_mul, zero_mul]
        exact ⟨-24, 0, by omega, by omega, Or.inl rfl, hsize, (Option.some.inj hx).symm⟩
      · next hnonzero =>
        split at hx
        · next htest =>
          have htest := Bool.and_eq_true_iff.mp htest
          have hhigh := of_decide_eq_true htest.1
          obtain ⟨hsize, hk, hnormal⟩ :=
            half_significand (Nat.pos_of_ne_zero hnonzero) rfl rfl (eq_of_beq htest.2)
          exact ⟨_, _, by omega, hk, hnormal, hsize, (Option.some.inj hx).symm⟩
        · cases hx

/-- **Half precision bits that stand for a number are read as the number.**  A NaN is read as the one
without payload. -/
theorem ofHalf_toHalf? {x : Binary32} {h : UInt16} (hx : x.toHalf? = some h) :
    ofHalf h = if x.isNaN then nan else x := by
  rcases toHalf?_cases hx with ⟨hnan, rfl⟩ | ⟨hinfinite, rfl⟩ | ⟨hfinite, q, k, hq, hk, hnormal, hsize, rfl⟩
  · rw [hnan]
    rfl
  · have hnan : ¬ x.isNaN = true := by simp [isNaN, hinfinite]
    have hbits : ∀ negative, ofHalf (UInt16.ofNat (halfSign negative + 0x7C00)) =
        ofMagnitude negative infinityMagnitude := by decide
    rw [if_neg hnan, hbits, ← hinfinite, ofMagnitude_magnitude]
  · have hnan : ¬ x.isNaN = true := by
      have hlt : x.magnitude < infinityMagnitude := of_decide_eq_true hfinite
      simp only [isNaN, decide_eq_true_eq]
      omega
    rw [if_neg hnan]
    exact ofHalf_size hfinite hq.1 hq.2 hk hnormal hsize

end Binary32
end ShadeGraph
