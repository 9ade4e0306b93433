/-
  The shortest decimal of a number is nearest to it.

  1. Numbers lie in the order of their magnitudes, and the next one is a unit of the last place away
     (`size_add_unit_le`); below a power of two it is half of that (`size_add_gap_le`).
  2. So the interval of a number reaches half way to its neighbours.  A ratio in it has no number nearer, and
     one as near only at an end that the even significand takes (`Rounds.nearer`, `Rounds.isNearest`).
  3. Rounding such a ratio gives the number (`Rounds.ofRatio_eq`).  The exponent is that of the number,
     or one less when the ratio lies below a power of two and rounds up to it.
  4. A decimal is taken from the grids only if it lies in the interval, and the exact value does
     (`shortest_rounds`).
-/
import Mathlib.Algebra.Order.Ring.Abs
import ShadeGraph.Number.Shortest
import ShadeGraph.Proofs.HalfPrecision

namespace ShadeGraph
namespace Binary32

variable {x y : Binary32} {r : ℚ}

/-! ## Neighbours -/

/-- A quarter of the last place of a number. -/
def quarter (x : Binary32) : ℚ := 2 ^ (x.exponent - 2)

theorem quarter_pos (x : Binary32) : 0 < x.quarter := by
  rw [quarter]
  positivity

theorem mul_quarter_le {a b : ℚ} (h : a ≤ b) (x : Binary32) : a * x.quarter ≤ b * x.quarter :=
  mul_le_mul_of_nonneg_right h x.quarter_pos.le

/-- A unit of the last place is four quarters. -/
theorem unit_eq (x : Binary32) : (2 : ℚ) ^ x.exponent = 4 * x.quarter := by
  rw [quarter, zpow_sub₀ two_ne_zero]
  norm_num
  ring

/-- The size of a number, counted in quarters of its last place. -/
theorem size_eq (x : Binary32) : x.size = 4 * x.significand * x.quarter := by
  rw [size, unit_eq]
  ring

/-- Numbers of the same magnitude have the same size. -/
theorem size_congr (h : x.magnitude = y.magnitude) : x.size = y.size := by
  have hfield : x.exponentField = y.exponentField := by rw [exponentField, exponentField, h]
  rw [size, size, significand, significand, exponent, exponent, hfield, h]

/-- A larger magnitude is larger by a unit of the last place or more. -/
theorem size_add_unit_le (hx : x.isFinite = true) (hy : y.isFinite = true)
    (h : x.magnitude < y.magnitude) : x.size + 4 * x.quarter ≤ y.size := by
  obtain ⟨hxlow, _, hxbound, hxnormal, hxstored⟩ := x.parts hx
  obtain ⟨hylow, _, hybound, hynormal, hystored⟩ := y.parts hy
  rw [hxstored, hystored, implicitBit] at h
  rw [size, ← unit_eq]
  rcases lt_trichotomy x.exponent y.exponent with hlt | heq | hgt
  · -- the other exponent is larger, and so is its least significand
    have hy23 : (2 : ℚ) ^ (23 : ℤ) ≤ y.significand := by
      exact_mod_cast hynormal.resolve_left (by omega)
    have hx24 : (x.significand : ℚ) + 1 ≤ 2 ^ (24 : ℤ) := by exact_mod_cast hxbound
    calc (x.significand : ℚ) * 2 ^ x.exponent + 2 ^ x.exponent
        = (x.significand + 1) * 2 ^ x.exponent := by ring
      _ ≤ 2 ^ (24 : ℤ) * 2 ^ x.exponent := by gcongr
      _ = 2 ^ (24 + x.exponent) := (zpow_add₀ two_ne_zero _ _).symm
      _ ≤ 2 ^ (23 + y.exponent) := zpow_le_zpow_right₀ one_le_two (by omega)
      _ = 2 ^ (23 : ℤ) * 2 ^ y.exponent := zpow_add₀ two_ne_zero _ _
      _ ≤ y.significand * 2 ^ y.exponent := by gcongr
  · have hsignificand : x.significand + 1 ≤ y.significand := by rw [heq] at h; omega
    have hsignificand : (x.significand : ℚ) + 1 ≤ y.significand := by exact_mod_cast hsignificand
    calc (x.significand : ℚ) * 2 ^ x.exponent + 2 ^ x.exponent
        = (x.significand + 1) * 2 ^ x.exponent := by ring
      _ ≤ y.significand * 2 ^ y.exponent := by rw [heq]; gcongr
  · exfalso
    have := hxnormal.resolve_left (by omega)
    omega

/-- How many quarters of the last place the interval of a number reaches down. -/
def gap (x : Binary32) : Nat := if x.significand = implicitBit && 1 < x.exponentField then 1 else 2

/-- The interval of a number reaches down half a unit at most. -/
theorem gap_le (x : Binary32) : x.gap ≤ 2 := by
  rw [gap]
  split <;> decide

theorem gap_pos (x : Binary32) : 0 < x.gap := by
  rw [gap]
  split <;> decide

theorem gap_mul_quarter_le (x : Binary32) : x.gap * x.quarter ≤ 2 * x.quarter :=
  mul_quarter_le (by exact_mod_cast x.gap_le) x

theorem gap_mul_quarter_pos (x : Binary32) : 0 < x.gap * x.quarter :=
  mul_pos (by exact_mod_cast x.gap_pos) x.quarter_pos

/-- A number that is no power of two has its neighbours at equal distances. -/
theorem gap_eq (h : x.significand ≠ implicitBit) : x.gap = 2 := by
  rw [gap, if_neg]
  rw [Bool.and_eq_true, decide_eq_true_iff, decide_eq_true_iff]
  exact fun hboth => h hboth.1

/-- At a power of two, the numbers below lie twice as close. -/
theorem gap_of_power (hpower : x.significand = implicitBit) (hexponent : -149 < x.exponent) : x.gap = 1 := by
  have hfield : 1 < x.exponentField := by
    rw [exponent] at hexponent
    omega
  rw [gap, hpower]
  simp [hfield]

/-- A smaller magnitude is smaller by a unit of the last place, or by half of one below a power of two. -/
theorem size_add_gap_le (hx : x.isFinite = true) (hy : y.isFinite = true) (h : y.magnitude < x.magnitude) :
    y.size + 2 * x.gap * x.quarter ≤ x.size := by
  obtain ⟨hxlow, _, hxbound, hxnormal, hxstored⟩ := x.parts hx
  obtain ⟨hylow, _, hybound, hynormal, hystored⟩ := y.parts hy
  have hnext := size_add_unit_le hy hx h
  have hquarter := x.quarter_pos
  rcases lt_trichotomy x.exponent y.exponent with hlt | heq | hgt
  · exfalso
    rw [hxstored, hystored, implicitBit] at h
    have := hynormal.resolve_left (by omega)
    omega
  · have hsame : y.quarter = x.quarter := by rw [quarter, quarter, heq]
    rw [hsame] at hnext
    linarith [x.gap_mul_quarter_le]
  · -- the smaller one ends half a unit below the least number of this exponent
    have hy24 : (y.significand : ℚ) ≤ 2 ^ 24 - 1 := by
      have : y.significand + 1 ≤ 2 ^ 24 := hybound
      have : (y.significand : ℚ) + 1 ≤ 2 ^ 24 := by exact_mod_cast this
      linarith
    have hfiner : y.quarter * 2 ≤ x.quarter := by
      rw [quarter, quarter, ← zpow_add_one₀ two_ne_zero]
      exact zpow_le_zpow_right₀ one_le_two (by omega)
    have hysize : y.size ≤ (2 ^ 25 - 2) * x.quarter := by
      rw [size_eq]
      linarith [mul_quarter_le hy24 y]
    have hx23 : implicitBit ≤ x.significand := hxnormal.resolve_left (by omega)
    rw [size_eq x]
    by_cases hpower : x.significand = implicitBit
    · have hgap : (x.gap : ℚ) = 1 := by rw [gap_of_power hpower (by omega), Nat.cast_one]
      rw [hgap, hpower, implicitBit]
      push_cast
      linarith
    · have hgap : (x.gap : ℚ) = 2 := by rw [gap_eq hpower]; rfl
      have hx : (implicitBit : ℚ) + 1 ≤ x.significand := by
        have : implicitBit + 1 ≤ x.significand := by omega
        exact_mod_cast this
      rw [implicitBit] at hx
      rw [hgap]
      push_cast at hx
      linarith [mul_quarter_le hx x]

end Binary32

/-! ## The interval of a number -/

namespace Decimal

/-- A ratio that lies in an interval of the unit `2 ^ u`.  The ends belong to a closed one. -/
structure Interval.Around (i : Interval) (u : ℤ) (r : ℚ) : Prop where
  low : i.low * 2 ^ u ≤ r
  high : r ≤ i.high * 2 ^ u
  ends : i.closed = false → r ≠ i.low * 2 ^ u ∧ r ≠ i.high * 2 ^ u

end Decimal

namespace Binary32

variable {x y : Binary32} {r : ℚ}

/-- A ratio in the interval of a number. -/
def Rounds (x : Binary32) (r : ℚ) : Prop := (Decimal.interval x).Around (x.exponent - 2) r

namespace Rounds

/-- The interval of a number holds no negative ratios. -/
theorem nonneg (h : x.Rounds r) : 0 ≤ r := by
  refine le_trans ?_ h.low
  positivity

/-- It reaches up by half a unit of the last place. -/
theorem high_le (h : x.Rounds r) : r ≤ x.size + 2 * x.quarter := by
  have hhigh : r ≤ ((4 * x.significand + 2 : Nat) : ℚ) * x.quarter := h.high
  rw [size_eq]
  push_cast at hhigh
  linarith

/-- An odd significand does not take the upper end. -/
theorem high_ne (h : x.Rounds r) (hodd : x.significand % 2 = 1) : r ≠ x.size + 2 * x.quarter := by
  have hclosed : (x.significand % 2 == 0) = false := by rw [hodd]; rfl
  have hne : r ≠ ((4 * x.significand + 2 : Nat) : ℚ) * x.quarter := (h.ends hclosed).2
  rw [size_eq]
  push_cast at hne
  intro heq
  exact hne (by rw [heq]; ring)

/-- The lower end of the interval of a positive number. -/
theorem low_eq (hpos : 0 < x.significand) :
    ((Decimal.interval x).low : ℚ) * 2 ^ (x.exponent - 2) = x.size - x.gap * x.quarter := by
  have hle : x.gap ≤ 4 * x.significand := x.gap_le.trans (by omega)
  show ((4 * x.significand - x.gap : Nat) : ℚ) * x.quarter = _
  rw [Nat.cast_sub hle, size_eq]
  push_cast
  ring

/-- It reaches down to the gap. -/
theorem low_le (h : x.Rounds r) (hpos : 0 < x.significand) : x.size - x.gap * x.quarter ≤ r :=
  low_eq hpos ▸ h.low

/-- An odd significand does not take the lower end either. -/
theorem low_ne (h : x.Rounds r) (hpos : 0 < x.significand) (hodd : x.significand % 2 = 1) :
    r ≠ x.size - x.gap * x.quarter := by
  have hclosed : (x.significand % 2 == 0) = false := by rw [hodd]; rfl
  exact low_eq hpos ▸ (h.ends hclosed).1

/-- A number other than the one whose interval it is lies farther away, or as far at an end of the interval
of an even significand. -/
theorem nearer (h : x.Rounds r) (hx : x.isFinite = true) (hy : y.isFinite = true)
    (hne : y.magnitude ≠ x.magnitude) :
    |r - x.size| < |r - y.size| ∨ |r - x.size| = |r - y.size| ∧ x.significand % 2 = 0 := by
  have hquarter := x.quarter_pos
  have hgap := x.gap_mul_quarter_pos
  -- if the significand is odd, the ends are out
  suffices hdistance : |r - x.size| ≤ |r - y.size| ∧ (x.significand % 2 = 1 → |r - x.size| ≠ |r - y.size|) by
    rcases hdistance.1.lt_or_eq with hlt | heq
    · exact Or.inl hlt
    · refine Or.inr ⟨heq, ?_⟩
      by_contra hodd
      exact hdistance.2 (by omega) heq
  rcases lt_or_gt_of_ne hne with hbelow | habove
  · have hpos : 0 < x.significand := by
      refine Nat.pos_of_ne_zero fun hzero => ?_
      obtain ⟨_, _, _, hnormal, hstored⟩ := x.parts hx
      rw [hzero] at hnormal hstored
      have hleast := hnormal.resolve_right (by decide)
      rw [hstored, hleast] at hbelow
      exact Nat.not_lt_zero _ hbelow
    have hstep := size_add_gap_le hx hy hbelow
    have hlow := h.low_le hpos
    have hover : |r - y.size| = r - y.size := abs_of_nonneg (by linarith)
    rw [hover]
    constructor
    · rw [abs_le]
      constructor <;> linarith
    · intro hodd heq
      rcases abs_choice (r - x.size) with habs | habs
      · rw [habs] at heq
        linarith
      · rw [habs] at heq
        exact h.low_ne hpos hodd (by linarith)
  · have hstep := size_add_unit_le hx hy habove
    have hhigh := h.high_le
    have hunder : |r - y.size| = y.size - r := by rw [abs_sub_comm]; exact abs_of_nonneg (by linarith)
    rw [hunder]
    constructor
    · rw [abs_le]
      constructor <;> linarith
    · intro hodd heq
      rcases abs_choice (r - x.size) with habs | habs
      · rw [habs] at heq
        exact h.high_ne hodd (by linarith)
      · rw [habs] at heq
        linarith

end Rounds

/-! ## The nearest number -/

/-- A ratio with a sign. -/
def signed (negative : Bool) (r : ℚ) : ℚ := if negative then -r else r

/-- The value of a finite number. -/
def value (x : Binary32) : ℚ := signed x.isNegative x.size

/-- The number that a ratio is rounded to: none is nearer, one that is as near gives way to an even
significand, and the ratio is not so large that it is infinite. -/
structure IsNearest (r : ℚ) (x : Binary32) : Prop where
  finite : x.isFinite = true
  least : ∀ y : Binary32, y.isFinite = true → |r - x.value| ≤ |r - y.value|
  even : ∀ y : Binary32, y.isFinite = true → y.value ≠ x.value → |r - x.value| = |r - y.value| →
    x.significand % 2 = 0
  bounded : |r| < 2 ^ 128 - 2 ^ 103

/-- Two ratios of the same sign are as far apart as they are without it. -/
theorem abs_signed_sub (negative : Bool) (r s : ℚ) : |signed negative r - signed negative s| = |r - s| := by
  cases negative with
  | false => rfl
  | true =>
    show |-r - -s| = _
    rw [neg_sub_neg, abs_sub_comm]

/-- Numbers of different signs are as far apart as their sizes make together. -/
theorem abs_signed_sub_of_ne {r s : ℚ} (hr : 0 ≤ r) (hs : 0 ≤ s) {b c : Bool} (h : b ≠ c) :
    |signed b r - signed c s| = r + s := by
  cases b <;> cases c
  · exact absurd rfl h
  · show |r - -s| = _
    rw [sub_neg_eq_add, abs_of_nonneg (by linarith)]
  · show |-r - s| = _
    rw [← neg_add', abs_neg, abs_of_nonneg (by linarith)]
  · exact absurd rfl h

/-- Signs only take numbers apart. -/
theorem abs_sub_le_signed {r s : ℚ} (hr : 0 ≤ r) (hs : 0 ≤ s) (b c : Bool) :
    |r - s| ≤ |signed b r - signed c s| := by
  by_cases hsame : b = c
  · rw [hsame, abs_signed_sub]
  · rw [abs_signed_sub_of_ne hr hs hsame, abs_le]
    constructor <;> linarith

theorem size_nonneg (x : Binary32) : 0 ≤ x.size := by
  rw [size]
  positivity

theorem size_zero : zero.size = 0 := by
  have hsignificand : zero.significand = 0 := by decide
  rw [size, hsignificand, Nat.cast_zero, zero_mul]

/-- A ratio in the interval of a finite number is not so large that it is rounded to infinity. -/
theorem Rounds.lt_bound (h : x.Rounds r) (hx : x.isFinite = true) : r < 2 ^ 128 - 2 ^ 103 := by
  obtain ⟨_, hexponent, hbound, _, _⟩ := x.parts hx
  have hhigh := h.high_le
  rw [size_eq] at hhigh
  have hquarter := x.quarter_pos
  have hlargest : x.quarter ≤ 2 ^ 102 := by
    rw [quarter, ← zpow_natCast]
    exact zpow_le_zpow_right₀ one_le_two (by push_cast; omega)
  -- the largest significand is odd, so its upper end is out
  by_cases hlast : x.significand = 2 ^ 24 - 1
  · have hne := h.high_ne (by omega)
    rw [size_eq] at hne
    have hlt := lt_of_le_of_ne hhigh hne
    rw [hlast] at hlt
    push_cast at hlt
    linarith
  · have hsmall : x.significand + 2 ≤ 2 ^ 24 := by omega
    have hsmall : (x.significand : ℚ) + 2 ≤ 2 ^ 24 := by exact_mod_cast hsmall
    linarith [mul_quarter_le hsmall x]

/-- The number of the other sign is farther away: it is as far only from zero, and zero is nearer then. -/
theorem Rounds.opposite_ne (h : x.Rounds r) (hx : x.isFinite = true) (hsame : y.magnitude = x.magnitude)
    (hne : y.value ≠ x.value) : |r - x.size| ≠ |signed x.isNegative r - y.value| := by
  intro heq
  have hsize := size_congr hsame
  have hsign : y.isNegative ≠ x.isNegative := fun hsign => hne (by rw [value, value, hsign, hsize])
  have hnonzero : x.size ≠ 0 := by
    intro hzero
    refine hne ?_
    rw [value, value, hsize, hzero]
    cases y.isNegative <;> cases x.isNegative <;> simp [signed]
  rw [value, hsize, abs_signed_sub_of_ne h.nonneg x.size_nonneg (Ne.symm hsign)] at heq
  have hr : r = 0 := by
    rcases abs_choice (r - x.size) with habs | habs
    · exact absurd (by linarith) hnonzero
    · linarith
  have hmagnitude : zero.magnitude ≠ x.magnitude := fun hzero =>
    hnonzero ((size_congr hzero).symm.trans size_zero)
  have hnearest := h.nearer hx (y := zero) (by decide) hmagnitude
  rw [hr, size_zero, sub_zero, abs_zero, zero_sub, abs_neg] at hnearest
  rcases hnearest with hlt | ⟨hzero, _⟩
  · exact absurd hlt (not_lt.mpr (abs_nonneg _))
  · exact hnonzero (abs_eq_zero.mp hzero)

/-- **A ratio in the interval of a number has that number as its nearest.** -/
theorem Rounds.isNearest (h : x.Rounds r) (hx : x.isFinite = true) : IsNearest (signed x.isNegative r) x := by
  have hdistance : |signed x.isNegative r - x.value| = |r - x.size| := abs_signed_sub _ _ _
  have hfarther : ∀ y : Binary32, |r - y.size| ≤ |signed x.isNegative r - y.value| := fun y =>
    abs_sub_le_signed h.nonneg y.size_nonneg _ _
  refine ⟨hx, fun y hy => ?_, fun y hy hne heq => ?_, ?_⟩
  · rw [hdistance]
    by_cases hsame : y.magnitude = x.magnitude
    · exact size_congr hsame ▸ hfarther y
    · refine le_trans ?_ (hfarther y)
      rcases h.nearer hx hy hsame with hlt | ⟨heq, _⟩
      · exact hlt.le
      · exact heq.le
  · rw [hdistance] at heq
    by_cases hsame : y.magnitude = x.magnitude
    · exact absurd heq (h.opposite_ne hx hsame hne)
    · rcases h.nearer hx hy hsame with hlt | ⟨_, heven⟩
      · exact absurd heq (hlt.trans_le (hfarther y)).ne
      · exact heven
  · have habs : |signed x.isNegative r| = r := by
      have hself := abs_of_nonneg h.nonneg
      cases x.isNegative with
      | false => exact hself
      | true => exact (abs_neg r).trans hself
    rw [habs]
    exact h.lt_bound hx

/-! ## Rounding -/

/-- A quotient is rounded to the number that it is at most a half away from; a half goes to the even one. -/
theorem roundDiv_eq {num den k : Nat} (hden : 0 < den) (hlow : (k : ℚ) - 1 / 2 ≤ num / den)
    (hhigh : (num / den : ℚ) ≤ k + 1 / 2)
    (hodd : k % 2 = 1 → (num / den : ℚ) ≠ k - 1 / 2 ∧ (num / den : ℚ) ≠ k + 1 / 2) :
    roundDiv num den = k := by
  have hdenpos : (0 : ℚ) < den := Nat.cast_pos.mpr hden
  have hsplit : (num / den : ℚ) = (num / den : Nat) + (num % den : Nat) / den := by
    rw [div_eq_iff hdenpos.ne', add_mul, div_mul_cancel₀ _ hdenpos.ne']
    exact_mod_cast (Nat.div_add_mod' num den).symm
  have hrest : 0 ≤ ((num % den : Nat) / den : ℚ) := by positivity
  have hless : ((num % den : Nat) / den : ℚ) < 1 := by
    rw [div_lt_one hdenpos]
    exact_mod_cast Nat.mod_lt num hden
  have hbelow : 2 * (num % den) < den ↔ ((num % den : Nat) / den : ℚ) < 1 / 2 := by
    rw [div_lt_div_iff₀ hdenpos two_pos, one_mul, mul_comm]
    exact_mod_cast Iff.rfl
  have habove : den < 2 * (num % den) ↔ (1 / 2 : ℚ) < (num % den : Nat) / den := by
    rw [div_lt_div_iff₀ two_pos hdenpos, one_mul, mul_comm]
    exact_mod_cast Iff.rfl
  rw [hsplit] at hlow hhigh hodd
  simp only [roundDiv, hbelow, habove]
  generalize (num / den : Nat) = d at *
  generalize ((num % den : Nat) / den : ℚ) = rest at *
  -- the quotient is cut off to the number or to the one below it
  have hle : d ≤ k := by
    have : (d : ℚ) < k + 1 := by linarith
    exact Nat.lt_succ_iff.mp (by exact_mod_cast this)
  have hge : k ≤ d + 1 := by
    have : (k : ℚ) < (d + 1) + 1 := by linarith
    exact Nat.lt_succ_iff.mp (by exact_mod_cast this)
  rcases Nat.eq_or_lt_of_le hle with rfl | hlt
  · split
    · rfl
    · next hhalf =>
      have hrest : rest = 1 / 2 := le_antisymm (by linarith) (not_lt.mp hhalf)
      rw [if_neg (by rw [hrest]; exact lt_irrefl _)]
      have heven : d % 2 ≠ 1 := fun h => (hodd h).2 (by rw [hrest])
      omega
  · obtain rfl : k = d + 1 := by omega
    push_cast at hlow hodd
    have hhalf : 1 / 2 ≤ rest := by linarith
    rw [if_neg (not_lt.mpr hhalf)]
    split
    · rfl
    · next hexact =>
      have hrest : rest = 1 / 2 := le_antisymm (not_lt.mp hexact) hhalf
      have heven : (d + 1) % 2 ≠ 1 := fun h => (hodd h).1 (by rw [hrest]; ring)
      omega

/-- The ratio that is rounded to a significand, when the exponent is `q`. -/
theorem roundedMagnitude_of_exponent {num den k : Nat} {q : ℤ} (hnum : 0 < num) (hden : 0 < den)
    (hq : max (floorLog2 num den - 23) (-149) = q) (hlow : ((k : ℚ) - 1 / 2) * 2 ^ q ≤ num / den)
    (hhigh : (num / den : ℚ) ≤ (k + 1 / 2) * 2 ^ q)
    (hodd : k % 2 = 1 → (num / den : ℚ) ≠ (k - 1 / 2) * 2 ^ q ∧ (num / den : ℚ) ≠ (k + 1 / 2) * 2 ^ q) :
    roundedMagnitude num den = min ((q + 149).toNat * implicitBit + k) infinityMagnitude := by
  have hunit : (0 : ℚ) < 2 ^ q := by positivity
  have hratio := scale_ratio num den (-q)
  have hround : roundDiv (scale num den (-q)).1 (scale num den (-q)).2 = k := by
    refine roundDiv_eq (scale_pos num hden (-q)) ?_ ?_ ?_
    all_goals rw [hratio, zpow_neg, ← div_eq_mul_inv]
    · rwa [le_div_iff₀ hunit]
    · rwa [div_le_iff₀ hunit]
    · rw [ne_eq, ne_eq, div_eq_iff hunit.ne', div_eq_iff hunit.ne']
      exact hodd
  rw [roundedMagnitude, if_neg hnum.ne']
  simp only [hq, hround]

/-- Zero lies in the interval of zero only. -/
theorem Rounds.significand_eq_zero (h : x.Rounds r) (hr : r = 0) : x.significand = 0 := by
  by_contra hne
  have hpos := Nat.pos_of_ne_zero hne
  have hlow := h.low_le hpos
  have hone : (1 : ℚ) ≤ x.significand := by exact_mod_cast hpos
  rw [size_eq, hr] at hlow
  linarith [x.quarter_pos, x.gap_mul_quarter_le, mul_quarter_le hone x]

/-- Above the least number of its exponent, a ratio has the exponent of the number in whose interval it is. -/
theorem Rounds.round_within {num den : Nat} (hnum : 0 < num) (hden : 0 < den) (h : x.Rounds (num / den))
    (hx : x.isFinite = true) (hwithin : x.exponent = -149 ∨ (2 : ℚ) ^ (x.exponent + 23) ≤ num / den) :
    roundedMagnitude num den = x.magnitude := by
  obtain ⟨hlow, _, hbound, _, hstored⟩ := x.parts hx
  have hmagnitude : x.magnitude < infinityMagnitude := of_decide_eq_true hx
  have hquarter := x.quarter_pos
  have htop := h.high_le
  obtain ⟨hfloor, hfloor'⟩ := floorLog2_bounds hnum hden
  have hpow : (2 : ℚ) ^ (x.exponent + 24) = 2 ^ 26 * x.quarter := by
    rw [zpow_add₀ two_ne_zero, unit_eq]
    norm_num
    ring
  have hupper : (num / den : ℚ) < 2 ^ (x.exponent + 24) := by
    have hbound : (x.significand : ℚ) + 1 ≤ 2 ^ 24 := by exact_mod_cast hbound
    rw [hpow]
    rw [size_eq] at htop
    linarith [mul_quarter_le hbound x]
  have hle := (zpow_lt_zpow_iff_right₀ (one_lt_two : (1 : ℚ) < 2)).mp (hfloor.trans_lt hupper)
  -- The ratio is rounded at the exponent of the number.
  have hq : max (floorLog2 num den - 23) (-149) = x.exponent := by
    rcases hwithin with hleast | hpower
    · omega
    · have := (zpow_lt_zpow_iff_right₀ (one_lt_two : (1 : ℚ) < 2)).mp (hpower.trans_lt hfloor')
      omega
  have hhalf : ((x.significand : ℚ) - 1 / 2) * 2 ^ x.exponent = x.size - 2 * x.quarter := by
    rw [unit_eq, size_eq]
    ring
  have hhalf' : ((x.significand : ℚ) + 1 / 2) * 2 ^ x.exponent = x.size + 2 * x.quarter := by
    rw [unit_eq, size_eq]
    ring
  have hgap := x.gap_mul_quarter_le
  rw [roundedMagnitude_of_exponent hnum hden hq (k := x.significand), ← hstored]
  · exact Nat.min_eq_left hmagnitude.le
  · rw [hhalf]
    rcases Nat.eq_zero_or_pos x.significand with hzero | hpos
    · rw [size_eq, hzero]
      rw [Nat.cast_zero]
      linarith [h.nonneg]
    · linarith [h.low_le hpos]
  · rw [hhalf']
    exact htop
  · intro hodd
    have hpos : 0 < x.significand := by omega
    rw [hhalf, hhalf']
    refine ⟨fun heq => h.low_ne hpos hodd ?_, h.high_ne hodd⟩
    linarith [h.low_le hpos]

/-- Below the least number of its exponent, a ratio is in the interval of that number only, and is rounded up
to it. -/
theorem Rounds.round_below {num den : Nat} (hnum : 0 < num) (hden : 0 < den) (h : x.Rounds (num / den))
    (hx : x.isFinite = true) (hexponent : x.exponent ≠ -149)
    (hbelow : (num / den : ℚ) < 2 ^ (x.exponent + 23)) : roundedMagnitude num den = x.magnitude := by
  obtain ⟨hlow, _, hbound, hnormal, hstored⟩ := x.parts hx
  have hmagnitude : x.magnitude < infinityMagnitude := of_decide_eq_true hx
  have hquarter := x.quarter_pos
  have hleast : implicitBit ≤ x.significand := hnormal.resolve_left hexponent
  have hpow : (2 : ℚ) ^ (x.exponent + 23) = 2 ^ 25 * x.quarter := by
    rw [zpow_add₀ two_ne_zero, unit_eq]
    norm_num
    ring
  have hbottom := h.low_le (by rw [implicitBit] at hleast; omega)
  rw [size_eq] at hbottom
  -- Only below a power of two is there room between the number and the next exponent.
  have hpower : x.significand = implicitBit := by
    by_contra hne
    have hmore : implicitBit + 1 ≤ x.significand := by omega
    have hmore : (implicitBit : ℚ) + 1 ≤ x.significand := by exact_mod_cast hmore
    rw [implicitBit] at hmore
    rw [hpow] at hbelow
    push_cast at hmore
    linarith [x.gap_mul_quarter_le, mul_quarter_le hmore x]
  rw [gap_of_power hpower (by omega), hpower, implicitBit] at hbottom
  push_cast at hbottom
  have hfloor : floorLog2 num den = x.exponent + 22 := by
    refine floorLog2_eq hnum hden ?_ ?_
    · rw [zpow_add₀ two_ne_zero, unit_eq]
      norm_num
      linarith
    · rw [add_assoc]
      exact hbelow
  have hunit : (2 : ℚ) ^ (x.exponent - 1) = 2 * x.quarter := by
    rw [quarter, ← zpow_one_add₀ two_ne_zero]
    congr 1
    ring
  -- The ratio has a smaller exponent than the number, and rounding it carries into the next one.
  rw [roundedMagnitude_of_exponent hnum hden (q := x.exponent - 1) (k := 2 ^ 24) (by omega)]
  · have hcarry : (x.exponent - 1 + 149).toNat * implicitBit + 2 ^ 24 = x.magnitude := by
      rw [hstored, hpower, implicitBit]
      omega
    rw [hcarry, Nat.min_eq_left hmagnitude.le]
  · rw [hunit]
    push_cast
    linarith
  · rw [hunit]
    rw [hpow] at hbelow
    push_cast
    linarith
  · intro hodd
    cases hodd

/-- **A ratio in the interval of a number is rounded to the number.** -/
theorem Rounds.ofRatio_eq {num den : Nat} (hden : 0 < den) (h : x.Rounds (num / den))
    (hx : x.isFinite = true) : ofRatio x.isNegative num den = x := by
  have hround : roundedMagnitude num den = x.magnitude := by
    rcases Nat.eq_zero_or_pos num with rfl | hnum
    · have hzero := h.significand_eq_zero (by rw [Nat.cast_zero, zero_div])
      refine roundedMagnitude_size hx hden ?_
      rw [size, hzero, Nat.cast_zero, zero_div, zero_mul]
    · by_cases hwithin : x.exponent = -149 ∨ (2 : ℚ) ^ (x.exponent + 23) ≤ num / den
      · exact h.round_within hnum hden hx hwithin
      · rw [not_or, not_le] at hwithin
        exact h.round_below hnum hden hx hwithin.1 hwithin.2
  rw [ofRatio, hround, ofMagnitude_magnitude]

end Binary32

/-! ## The shortest decimal -/

namespace Decimal

variable {i : Interval} {u e : ℤ} {d : Decimal}

/-- The ratio that a decimal stands for. -/
def ratio (d : Decimal) : ℚ := d.digits * 10 ^ d.exponent

/-- A power of `b`, as a pair of numerator and denominator. -/
def power (b : Nat) : ℤ → Nat × Nat
  | .ofNat n => (Nat.pow b n, 1)
  | .negSucc n => (1, Nat.pow b (n + 1))

/-- The pair stands for the power, and its denominator can be divided by. -/
theorem power_eq {b : Nat} (hb : 0 < b) (e : ℤ) :
    0 < (power b e).2 ∧ ((power b e).1 : ℚ) = (b : ℚ) ^ e * (power b e).2 := by
  have hpos : (b : ℚ) ≠ 0 := Nat.cast_ne_zero.mpr hb.ne'
  cases e with
  | ofNat n =>
    refine ⟨Nat.one_pos, ?_⟩
    show ((b ^ n : Nat) : ℚ) = (b : ℚ) ^ (n : ℤ) * (1 : Nat)
    rw [zpow_natCast, Nat.cast_one, mul_one, Nat.cast_pow]
  | negSucc n =>
    refine ⟨Nat.pow_pos hb, ?_⟩
    show ((1 : Nat) : ℚ) = (b : ℚ) ^ (Int.negSucc n) * (b ^ (n + 1) : Nat)
    rw [zpow_negSucc, Nat.cast_pow, inv_mul_cancel₀ (pow_ne_zero _ hpos), Nat.cast_one]

/-- Scaling to one denominator multiplies across. -/
theorem commonScale_power (e u : ℤ) : commonScale e u =
    ((power 10 e).1 * (power 2 u).2, (power 2 u).1 * (power 10 e).2) := by
  cases e <;> cases u <;> rfl

/-- The two factors are those of the grid and of the unit, multiplied alike. -/
theorem commonScale_eq (e u : ℤ) : ∃ f : ℚ, 0 < f ∧
    ((commonScale e u).1 : ℚ) = 10 ^ e * f ∧ ((commonScale e u).2 : ℚ) = 2 ^ u * f := by
  obtain ⟨hten, hten'⟩ := power_eq (b := 10) (by decide) e
  obtain ⟨htwo, htwo'⟩ := power_eq (b := 2) (by decide) u
  have hten : (0 : ℚ) < (power 10 e).2 := Nat.cast_pos.mpr hten
  have htwo : (0 : ℚ) < (power 2 u).2 := Nat.cast_pos.mpr htwo
  rw [commonScale_power]
  refine ⟨(power 10 e).2 * (power 2 u).2, mul_pos hten htwo, ?_, ?_⟩
  · rw [Nat.cast_mul, hten']
    push_cast
    ring
  · rw [Nat.cast_mul, htwo']
    push_cast
    ring

/-- A point of a grid that passes the test lies in the interval. -/
theorem Interval.around_of_holds {n : Nat} (h : i.holds (n * (commonScale e u).1) (commonScale e u).2 = true) :
    i.Around u (n * 10 ^ e) := by
  obtain ⟨f, hf, hgrid, hunit⟩ := commonScale_eq e u
  have hpoint : ∀ b : Nat, ((b * (commonScale e u).1 : Nat) : ℚ) = b * 10 ^ e * f := fun b => by
    rw [Nat.cast_mul, hgrid, mul_assoc]
  have hend : ∀ a : Nat, ((a * (commonScale e u).2 : Nat) : ℚ) = a * 2 ^ u * f := fun a => by
    rw [Nat.cast_mul, hunit, mul_assoc]
  have hle : ∀ a b : Nat, a * (commonScale e u).2 ≤ b * (commonScale e u).1 ↔ (a : ℚ) * 2 ^ u ≤ b * 10 ^ e := by
    intro a b
    rw [← Nat.cast_le (α := ℚ), hpoint, hend, mul_le_mul_iff_of_pos_right hf]
  have hge : ∀ a b : Nat, b * (commonScale e u).1 ≤ a * (commonScale e u).2 ↔ (b : ℚ) * 10 ^ e ≤ a * 2 ^ u := by
    intro a b
    rw [← Nat.cast_le (α := ℚ), hpoint, hend, mul_le_mul_iff_of_pos_right hf]
  rw [holds] at h
  split at h
  · next hclosed =>
    rw [Bool.and_eq_true, decide_eq_true_iff, decide_eq_true_iff] at h
    exact ⟨(hle _ _).mp h.1, (hge _ _).mp h.2, fun hopen => by rw [hclosed] at hopen; cases hopen⟩
  · rw [Bool.and_eq_true, decide_eq_true_iff, decide_eq_true_iff, ← Nat.not_le, ← Nat.not_le] at h
    have hlow : (i.low : ℚ) * 2 ^ u < n * 10 ^ e := not_le.mp (mt (hge _ _).mpr h.1)
    have hhigh : (n : ℚ) * 10 ^ e < i.high * 2 ^ u := not_le.mp (mt (hle _ _).mpr h.2)
    exact ⟨hlow.le, hhigh.le, fun _ => ⟨hlow.ne', hhigh.ne⟩⟩

/-- What a grid gives lies in the interval. -/
theorem gridHit?_around (h : gridHit? i u e = some d) : i.Around u d.ratio := by
  simp only [gridHit?] at h
  generalize i.middle * (commonScale e u).2 / (commonScale e u).1 = n at h
  generalize hdown : i.holds (n * (commonScale e u).1) (commonScale e u).2 = down at h
  generalize hup : i.holds ((n + 1) * (commonScale e u).1) (commonScale e u).2 = up at h
  have hhere : down = true → i.Around u (Decimal.ratio ⟨n, e⟩) := fun htrue =>
    Interval.around_of_holds (hdown.trans htrue)
  have hnext : up = true → i.Around u (Decimal.ratio ⟨n + 1, e⟩) := fun htrue =>
    Interval.around_of_holds (hup.trans htrue)
  split at h
  · next hboth =>
    rw [Bool.and_eq_true] at hboth
    split at h
    · exact Option.some.inj h ▸ hhere hboth.1
    · exact Option.some.inj h ▸ hnext hboth.2
  · split at h
    · next hone => exact Option.some.inj h ▸ hhere hone
    · split at h
      · next hone => exact Option.some.inj h ▸ hnext hone
      · cases h

/-- What is found on a grid lies in the interval, because this was asked before it was taken. -/
theorem firstHit_around : ∀ {tries : Nat} {e : ℤ}, firstHit i u tries e = some d → i.Around u d.ratio := by
  intro tries
  induction tries with
  | zero => intro e h; cases h
  | succ tries ih =>
    intro e h
    rw [firstHit] at h
    split at h
    · next hhit => exact gridHit?_around (hhit.trans h)
    · exact ih h

/-- The exact decimal of a number has its size: a power of two below one is a power of five over one of ten. -/
theorem exact_ratio (x : Binary32) : (exact x).ratio = x.size := by
  rw [exact, Binary32.size]
  cases x.exponent with
  | ofNat n =>
    show ((x.significand * 2 ^ n : Nat) : ℚ) * 10 ^ (0 : ℤ) = x.significand * 2 ^ (n : ℤ)
    rw [zpow_zero, mul_one, zpow_natCast]
    push_cast
    rfl
  | negSucc n =>
    show ((x.significand * 5 ^ (n + 1) : Nat) : ℚ) * 10 ^ (Int.negSucc n) = x.significand * 2 ^ (Int.negSucc n)
    rw [zpow_negSucc, zpow_negSucc, show (10 : ℚ) = 5 * 2 from by norm_num, mul_pow, mul_inv]
    push_cast
    rw [mul_assoc, ← mul_assoc ((5 : ℚ) ^ (n + 1)), mul_inv_cancel₀ (by positivity), one_mul]

/-- A number lies in its own interval. -/
theorem rounds_size (x : Binary32) : x.Rounds x.size := by
  have hquarter := x.quarter_pos
  have hhigh : x.size < ((interval x).high : ℚ) * 2 ^ (x.exponent - 2) := by
    show x.size < ((4 * x.significand + 2 : Nat) : ℚ) * x.quarter
    rw [Binary32.size_eq]
    push_cast
    linarith
  rcases Nat.eq_zero_or_pos x.significand with hzero | hpos
  · -- zero is its own lower end, and even
    have hlow : (interval x).low = 0 := by
      show 4 * x.significand - _ = 0
      rw [hzero, Nat.mul_zero, Nat.zero_sub]
    have hclosed : (interval x).closed = true := by
      show (x.significand % 2 == 0) = true
      rw [hzero]
      rfl
    refine ⟨?_, hhigh.le, fun hopen => by rw [hclosed] at hopen; cases hopen⟩
    rw [hlow, Nat.cast_zero, zero_mul]
    exact x.size_nonneg
  · have hlow : ((interval x).low : ℚ) * 2 ^ (x.exponent - 2) < x.size := by
      rw [Binary32.Rounds.low_eq hpos]
      linarith [x.gap_mul_quarter_pos]
    exact ⟨hlow.le, hhigh.le, fun _ => ⟨hlow.ne', hhigh.ne⟩⟩

/-- **The shortest decimal of a number lies in the number's interval.** -/
theorem shortest_rounds (x : Binary32) : x.Rounds (shortest x).ratio := by
  rw [shortest]
  split
  · next hzero =>
    have hsize : x.size = (Decimal.ratio ⟨0, 0⟩) := by
      rw [Binary32.size, hzero, ratio, Nat.cast_zero, zero_mul, zero_mul]
    exact hsize ▸ rounds_size x
  · simp only
    cases hfirst : firstHit (interval x) (x.exponent - 2) 9
        (pointOf (Binary32.scale x.significand 1 x.exponent).1 (Binary32.scale x.significand 1 x.exponent).2 - 1) with
    | some d => exact firstHit_around hfirst
    | none =>
      rw [Option.getD_none, exact_ratio]
      exact rounds_size x

end Decimal
end ShadeGraph
