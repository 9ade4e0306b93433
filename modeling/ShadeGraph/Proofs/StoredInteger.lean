/-
  Integers are stored as single precision numbers.

  1. A significand that is at most a half away (`roundDiv_near`) belongs to the number in whose interval the
     ratio lies, whether it is stored as it is or carried into the next exponent (`Significant.rounds`,
     `Significant.rounds_carried`).  So rounding is to the nearest number (`rounds_ofRatio`, `isNearest_ofInt`).
  2. An integer that is a number itself has no nearer one.  The integers among the numbers are those of at most
     24 bits with zeros behind them (`exists_size`), so these and no others are kept (`value_ofInt_iff`).
  3. The number stored for any other integer is still whole (`exists_value_ofInt`), since its last place is no
     fraction, and cutting off the fraction does nothing (`toInt_ofInt`).
-/
import ShadeGraph.Glsl.Literal
import ShadeGraph.Proofs.GraphCodec
import ShadeGraph.Proofs.NearestNumber
import ShadeGraph.Proofs.OptionsFile

namespace ShadeGraph
namespace Binary32

variable {x : Binary32} {r : ℚ} {num den step k : Nat}

/-! ## Rounding is to the nearest number -/

/-- A significand and an exponent, counted from the least one, as a finite number stores them. -/
structure Stored (step k : Nat) : Prop where
  short : k < 2 ^ 24
  normal : step = 0 ∨ 2 ^ 23 ≤ k
  finite : step ≤ 253

/-- What a finite number stores stays below infinity. -/
theorem Stored.min_eq (h : Stored step k) :
    min (step * implicitBit + k) infinityMagnitude = step * implicitBit + k := by
  obtain ⟨hshort, _, hfinite⟩ := h
  simp only [implicitBit, infinityMagnitude]
  omega

/-- The number that stores them. -/
theorem Stored.parts (h : Stored step k) (negative : Bool) :
    ∃ x, ofMagnitude negative (step * implicitBit + k) = x ∧ x.isNegative = negative ∧ x.isFinite = true ∧
      x.significand = k ∧ x.exponent = (step : ℤ) - 149 := by
  obtain ⟨hshort, hnormal, hfinite⟩ := h
  refine ⟨_, rfl, ?_⟩
  have hmagnitude : step * implicitBit + k < infinityMagnitude := by
    simp only [implicitBit, infinityMagnitude]
    omega
  -- The sign bit stands above every magnitude, so the two are read back apart.
  generalize hm : step * implicitBit + k = m at hmagnitude ⊢
  have hbits : (ofMagnitude negative m).bits.toNat = if negative then signBit + m else m := by
    rw [ofMagnitude]
    refine UInt32.toNat_ofNat_of_lt' ?_
    show _ < 4294967296
    simp only [signBit, infinityMagnitude] at hmagnitude ⊢
    split <;> omega
  have hstored : (ofMagnitude negative m).magnitude = m := by
    rw [magnitude, hbits]
    simp only [signBit, infinityMagnitude] at hmagnitude ⊢
    split <;> omega
  refine ⟨?_, ?_, ?_, ?_⟩
  · rw [isNegative, hbits]
    simp only [signBit, infinityMagnitude] at hmagnitude ⊢
    cases negative <;> simp
    omega
  · rw [isFinite, hstored]
    exact decide_eq_true hmagnitude
  · rw [significand, exponentField, hstored, ← hm]
    split
    · next hfield =>
      simp only [implicitBit] at hfield ⊢
      omega
    · next hfield =>
      simp only [implicitBit] at hfield ⊢
      omega
  · rw [exponent, exponentField, hstored, ← hm]
    simp only [implicitBit]
    omega

/-- A rounded quotient is at most a half away, and an odd one less. -/
theorem roundDiv_near (num : Nat) (hden : 0 < den) :
    (roundDiv num den : ℚ) - 1 / 2 ≤ num / den ∧ (num / den : ℚ) ≤ roundDiv num den + 1 / 2 ∧
      (roundDiv num den % 2 = 1 →
        (num / den : ℚ) ≠ roundDiv num den - 1 / 2 ∧ (num / den : ℚ) ≠ roundDiv num den + 1 / 2) := by
  have hdenpos : (0 : ℚ) < den := Nat.cast_pos.mpr hden
  -- without fractions these are facts about natural numbers
  have hnat : 2 * roundDiv num den * den ≤ 2 * num + den ∧ 2 * num ≤ 2 * roundDiv num den * den + den ∧
      (roundDiv num den % 2 = 1 →
        2 * num + den ≠ 2 * roundDiv num den * den ∧ 2 * num ≠ 2 * roundDiv num den * den + den) := by
    have hsplit := Nat.div_add_mod num den
    have hrest := Nat.mod_lt num hden
    rw [roundDiv]
    generalize num / den = d at *
    generalize num % den = rest at *
    have hcut : 2 * d * den = 2 * (den * d) := by ring
    have hnext : 2 * (d + 1) * den = 2 * (den * d) + 2 * den := by ring
    split
    · omega
    · split
      · omega
      · have hparity := Nat.mod_two_eq_zero_or_one d
        rcases hparity with heven | hodd
        · rw [heven, Nat.add_zero]
          omega
        · rw [hodd]
          omega
  obtain ⟨hlow, hhigh, hodd⟩ := hnat
  have hlow : (2 * roundDiv num den * den : ℚ) ≤ 2 * num + den := by exact_mod_cast hlow
  have hhigh : (2 * num : ℚ) ≤ 2 * roundDiv num den * den + den := by exact_mod_cast hhigh
  have hmul : (num / den : ℚ) * den = num := div_mul_cancel₀ _ hdenpos.ne'
  refine ⟨?_, ?_, fun h => ⟨fun heq => (hodd h).1 ?_, fun heq => (hodd h).2 ?_⟩⟩
  · rw [le_div_iff₀ hdenpos]
    linarith
  · rw [div_le_iff₀ hdenpos]
    linarith
  · rw [heq] at hmul
    have : (2 * num + den : ℚ) = 2 * roundDiv num den * den := by linarith
    exact_mod_cast this
  · rw [heq] at hmul
    have : (2 * num : ℚ) = 2 * roundDiv num den * den + den := by linarith
    exact_mod_cast this

/-- What it takes to lie in the interval of a number. -/
theorem rounds_of_bounds (hr : 0 ≤ r) (hlow : x.size - x.gap * x.quarter ≤ r) (hhigh : r ≤ x.size + 2 * x.quarter)
    (hodd : x.significand % 2 = 1 → r ≠ x.size - x.gap * x.quarter ∧ r ≠ x.size + 2 * x.quarter) :
    x.Rounds r := by
  have htop : ((Decimal.interval x).high : ℚ) * 2 ^ (x.exponent - 2) = x.size + 2 * x.quarter := by
    show ((4 * x.significand + 2 : Nat) : ℚ) * x.quarter = _
    rw [size_eq]
    push_cast
    ring
  refine ⟨?_, htop ▸ hhigh, fun hclosed => ?_⟩
  · rcases Nat.eq_zero_or_pos x.significand with hzero | hpos
    · have hbottom : (Decimal.interval x).low = 0 := by
        show 4 * x.significand - x.gap = 0
        omega
      rw [hbottom, Nat.cast_zero, zero_mul]
      exact hr
    · exact Rounds.low_eq hpos ▸ hlow
  · have hparity : x.significand % 2 = 1 := by
      have hne : ¬ x.significand % 2 = 0 := by simpa [Decimal.interval] using hclosed
      omega
    rw [Rounds.low_eq (by omega), htop]
    exact hodd hparity

/-- A ratio and what is rounded of it: the exponent that leaves 24 bits, or the least one, and the significand
that is at most a half away, an odd one less. -/
structure Significant (r : ℚ) (q : ℤ) (k : Nat) : Prop where
  below : r < 2 ^ 24 * 2 ^ q
  above : q = -149 ∨ 2 ^ 23 * 2 ^ q ≤ r
  low : (k - 1 / 2) * 2 ^ q ≤ r
  high : r ≤ (k + 1 / 2) * 2 ^ q
  odd : k % 2 = 1 → r ≠ (k - 1 / 2) * 2 ^ q ∧ r ≠ (k + 1 / 2) * 2 ^ q

/-- **Rounding finds a significand**: a positive ratio below `2 ^ 127` has an exponent and a significand as
`Significant` asks for, and its rounded magnitude is made of the two. -/
theorem exists_significant (hnum : 0 < num) (hden : 0 < den) (hbound : (num / den : ℚ) < 2 ^ 127) :
    ∃ q k, -149 ≤ q ∧ q ≤ 103 ∧ Significant (num / den) q k ∧
      roundedMagnitude num den = min ((q + 149).toNat * implicitBit + k) infinityMagnitude := by
  obtain ⟨hfloor, hfloor'⟩ := floorLog2_bounds hnum hden
  generalize he : floorLog2 num den = e at hfloor hfloor'
  have hsmall : e < 127 := by
    have := hfloor.trans_lt hbound
    exact (zpow_lt_zpow_iff_right₀ (one_lt_two : (1 : ℚ) < 2)).mp (by exact_mod_cast this)
  generalize hq : max (e - 23) (-149) = q
  have hunit : (0 : ℚ) < 2 ^ q := by positivity
  have hratio := scale_ratio num den (-q)
  obtain ⟨hlow, hhigh, hodd⟩ := roundDiv_near (scale num den (-q)).1 (scale_pos num hden (-q))
  rw [hratio, zpow_neg, ← div_eq_mul_inv] at hlow hhigh hodd
  rw [le_div_iff₀ hunit] at hlow
  rw [div_le_iff₀ hunit] at hhigh
  rw [ne_eq, ne_eq, div_eq_iff hunit.ne', div_eq_iff hunit.ne'] at hodd
  refine ⟨q, _, by omega, by omega, ⟨?_, ?_, hlow, hhigh, hodd⟩, ?_⟩
  · refine hfloor'.trans_le ?_
    rw [← zpow_natCast, ← zpow_add₀ two_ne_zero]
    exact zpow_le_zpow_right₀ one_le_two (by push_cast; omega)
  · refine (le_total (e - 23) (-149)).imp (fun h => by omega) fun h => le_trans ?_ hfloor
    rw [← zpow_natCast, ← zpow_add₀ two_ne_zero]
    exact zpow_le_zpow_right₀ one_le_two (by push_cast; omega)
  · rw [roundedMagnitude, if_neg hnum.ne']
    simp only [he, hq]

namespace Significant

variable {q : ℤ}

theorem le (h : Significant r q k) : k ≤ 2 ^ 24 := by
  have hunit : (0 : ℚ) < 2 ^ q := by positivity
  have : ((k : ℚ) - 1 / 2) < 2 ^ 24 := lt_of_mul_lt_mul_right (h.low.trans_lt h.below) hunit.le
  have : (k : ℚ) < (2 ^ 24 + 1 : Nat) := by push_cast; linarith
  exact Nat.lt_succ_iff.mp (by exact_mod_cast this)

/-- Above the least exponent the leading bit is set. -/
theorem normal (h : Significant r q k) : q = -149 ∨ 2 ^ 23 ≤ k := by
  have hunit : (0 : ℚ) < 2 ^ q := by positivity
  refine h.above.imp_right fun habove => ?_
  have : (2 : ℚ) ^ 23 ≤ k + 1 / 2 := le_of_mul_le_mul_right (habove.trans h.high) hunit
  have : ((2 ^ 23 : Nat) : ℚ) < (k + 1 : Nat) := by push_cast; linarith
  exact Nat.lt_succ_iff.mp (by exact_mod_cast this)

/-- The number of that exponent and significand. -/
theorem rounds (h : Significant r q k) (hr : 0 ≤ r) (hsignificand : x.significand = k)
    (hexponent : x.exponent = q) : x.Rounds r := by
  have hsize : x.size = k * 2 ^ q := by rw [size, hsignificand, hexponent]
  have hquarter : (2 : ℚ) ^ q = 4 * x.quarter := hexponent ▸ x.unit_eq
  have hpos := x.quarter_pos
  obtain ⟨hbelow, habove, hlow, hhigh, hodd⟩ := h
  refine rounds_of_bounds hr ?_ ?_ fun hparity => ?_
  · by_cases hpower : x.significand = implicitBit ∧ -149 < x.exponent
    · -- below a power of two the numbers lie closer, but the ratio is not below it
      have hleast := habove.resolve_left (by omega)
      have hk : (k : ℚ) = 2 ^ 23 := by rw [← hsignificand, hpower.1, implicitBit]; norm_num
      rw [hsize, hk]
      linarith [x.gap_mul_quarter_pos]
    · have hgap : x.gap = 2 := by
        rw [gap, if_neg]
        simp only [Bool.and_eq_true, decide_eq_true_eq]
        rw [exponent] at hpower
        omega
      rw [hsize, hgap]
      push_cast
      linarith
  · rw [hsize]
    linarith
  · have hgap : x.gap = 2 := gap_eq fun h => by rw [h, implicitBit] at hparity; omega
    obtain ⟨hne, hne'⟩ := hodd (hsignificand ▸ hparity)
    rw [hgap, hsize]
    refine ⟨fun heq => hne ?_, fun heq => hne' ?_⟩
    · rw [heq]
      push_cast
      linarith
    · rw [heq]
      linarith

/-- A significand that has become too long is carried into the next exponent. -/
theorem rounds_carried (h : Significant r q (2 ^ 24)) (hr : 0 ≤ r) (hleast : -149 ≤ q)
    (hsignificand : x.significand = 2 ^ 23) (hexponent : x.exponent = q + 1) : x.Rounds r := by
  have hunit : (2 : ℚ) ^ q = 2 * x.quarter := by
    have hnext : (2 : ℚ) ^ (q + 1) = 4 * x.quarter := hexponent ▸ x.unit_eq
    rw [zpow_add_one₀ two_ne_zero] at hnext
    linarith
  have hsize : x.size = 2 ^ 25 * x.quarter := by
    rw [size_eq, hsignificand]
    push_cast
    ring
  have hgap : x.gap = 1 := gap_of_power hsignificand (by omega)
  have hpos := x.quarter_pos
  have hlow := h.low
  have hbelow := h.below
  rw [hunit] at hlow hbelow
  push_cast at hlow
  refine rounds_of_bounds hr ?_ ?_ fun hparity => ?_
  · rw [hgap, hsize]
    push_cast
    linarith
  · rw [hsize]
    linarith
  · rw [hsignificand] at hparity
    cases hparity

end Significant

/-- **Rounding gives the number in whose interval the ratio lies.** -/
theorem rounds_ofRatio (negative : Bool) (hden : 0 < den) (hbound : (num / den : ℚ) < 2 ^ 127) :
    ∃ x, ofRatio negative num den = x ∧ x.isNegative = negative ∧ x.isFinite = true ∧ x.Rounds (num / den) := by
  have hr : (0 : ℚ) ≤ num / den := by positivity
  rcases Nat.eq_zero_or_pos num with rfl | hnum
  · have hstored : Stored 0 0 := ⟨by decide, Or.inl rfl, by decide⟩
    obtain ⟨x, hx, hsign, hfinite, hsignificand, hexponent⟩ := hstored.parts negative
    have hzero : Significant (((0 : Nat) : ℚ) / den) (-149) 0 := by
      rw [Nat.cast_zero, zero_div]
      constructor <;> simp
    exact ⟨x, hx, hsign, hfinite, hzero.rounds hr hsignificand hexponent⟩
  · obtain ⟨q, k, hleast, hgreatest, hrounded, hmagnitude⟩ := exists_significant hnum hden hbound
    rw [ofRatio, hmagnitude]
    have hnormal := hrounded.normal
    rcases hrounded.le.lt_or_eq with hshort | rfl
    · have hstored : Stored (q + 149).toNat k := ⟨hshort, by omega, by omega⟩
      obtain ⟨x, hx, hsign, hfinite, hsignificand, hexponent⟩ := hstored.parts negative
      exact ⟨x, by rw [hstored.min_eq, hx], hsign, hfinite, hrounded.rounds hr hsignificand (by omega)⟩
    -- Rounding up to `2 ^ 24` carries: the same number has half the significand at the next exponent.
    · have hstored : Stored ((q + 149).toNat + 1) (2 ^ 23) := ⟨by decide, Or.inr le_rfl, by omega⟩
      obtain ⟨x, hx, hsign, hfinite, hsignificand, hexponent⟩ := hstored.parts negative
      have hcarry : (q + 149).toNat * implicitBit + 2 ^ 24 = ((q + 149).toNat + 1) * implicitBit + 2 ^ 23 := by
        rw [implicitBit]
        omega
      have hexponent : x.exponent = q + 1 := by
        push_cast at hexponent
        omega
      refine ⟨x, ?_, hsign, hfinite, hrounded.rounds_carried hr hleast hsignificand hexponent⟩
      rw [hcarry, hstored.min_eq, hx]

/-! ## Integers -/

/-- An integer of at most 24 bits with zeros behind them. -/
def Short (n : ℤ) : Prop := ∃ m k : Nat, m < 2 ^ 24 ∧ n.natAbs = m * 2 ^ k

variable {n : ℤ}

/-- An integer from its sign and its size. -/
theorem signed_natAbs (n : ℤ) : signed (n < 0) n.natAbs = n := by
  rw [signed, Nat.cast_natAbs, Int.cast_abs]
  by_cases hneg : n < 0
  · rw [if_pos (decide_eq_true hneg), abs_of_neg (by exact_mod_cast hneg), neg_neg]
  · rw [if_neg (by simpa using hneg), abs_of_nonneg (by exact_mod_cast not_lt.mp hneg)]

theorem isNaN_of_isFinite (h : x.isFinite = true) : x.isNaN = false :=
  decide_eq_false (not_lt.mpr (of_decide_eq_true h).le)

/-- The nearest number to an integer has its sign, is finite, and rounds its size. -/
theorem rounds_ofInt (h : n.natAbs < 2 ^ 127) :
    (ofInt n).isNegative = decide (n < 0) ∧ (ofInt n).isFinite = true ∧ (ofInt n).Rounds n.natAbs := by
  have hone : ((n.natAbs : Nat) : ℚ) / (1 : Nat) = n.natAbs := by rw [Nat.cast_one, div_one]
  have hbound : ((n.natAbs : Nat) : ℚ) / (1 : Nat) < 2 ^ 127 := by
    rw [hone]
    exact_mod_cast h
  obtain ⟨x, hx, hsign, hfinite, hrounds⟩ := rounds_ofRatio (n < 0) Nat.one_pos hbound
  have hx : ofInt n = x := hx
  rw [hx]
  exact ⟨hsign, hfinite, hone ▸ hrounds⟩

/-- **An integer is stored as the nearest number.** -/
theorem isNearest_ofInt (h : n.natAbs < 2 ^ 127) : IsNearest n (ofInt n) := by
  obtain ⟨hsign, hfinite, hrounds⟩ := rounds_ofInt h
  have hnearest := hrounds.isNearest hfinite
  rwa [hsign, signed_natAbs] at hnearest

/-- At most 24 bits and zeros behind them are the size of a number: the bits are moved to the left until the
first of the 24 is set. -/
theorem exists_size (negative : Bool) {m k : Nat} (hpos : 0 < m) (hm : m < 2 ^ 24) (hbound : m * 2 ^ k < 2 ^ 127) :
    ∃ y : Binary32, y.isNegative = negative ∧ y.isFinite = true ∧ y.size = m * 2 ^ k := by
  have hlow : 2 ^ Nat.log2 m ≤ m := Nat.log2_self_le hpos.ne'
  have hhigh : m < 2 ^ (Nat.log2 m + 1) := Nat.lt_log2_self
  generalize Nat.log2 m = l at hlow hhigh
  have hl : l < 24 := (Nat.pow_lt_pow_iff_right Nat.one_lt_two).mp (hlow.trans_lt hm)
  have hk : l + k < 127 := by
    refine (Nat.pow_lt_pow_iff_right Nat.one_lt_two).mp (lt_of_le_of_lt ?_ hbound)
    rw [Nat.pow_add]
    exact Nat.mul_le_mul_right _ hlow
  have hstored : Stored (k + 126 + l) (m * 2 ^ (23 - l)) := by
    refine ⟨?_, Or.inr ?_, by omega⟩
    · calc m * 2 ^ (23 - l) < 2 ^ (l + 1) * 2 ^ (23 - l) := Nat.mul_lt_mul_of_pos_right hhigh (Nat.two_pow_pos _)
        _ = 2 ^ 24 := by rw [← Nat.pow_add]; congr 1; omega
    · calc 2 ^ 23 = 2 ^ l * 2 ^ (23 - l) := by rw [← Nat.pow_add]; congr 1; omega
        _ ≤ m * 2 ^ (23 - l) := Nat.mul_le_mul_right _ hlow
  obtain ⟨y, _, hsign, hfinite, hsignificand, hexponent⟩ := hstored.parts negative
  refine ⟨y, hsign, hfinite, ?_⟩
  rw [size, hsignificand, hexponent, Nat.cast_mul, mul_assoc]
  congr 1
  push_cast
  rw [← zpow_natCast, ← zpow_natCast, ← zpow_add₀ two_ne_zero]
  congr 1
  omega

/-- A short integer is a number. -/
theorem Short.exists_number (h : Short n) (hbound : n.natAbs < 2 ^ 127) :
    ∃ y : Binary32, y.isFinite = true ∧ y.value = n := by
  obtain ⟨m, k, hm, hn⟩ := h
  rcases Nat.eq_zero_or_pos m with rfl | hpos
  · have hzero : n = 0 := Int.natAbs_eq_zero.mp (hn.trans (Nat.zero_mul _))
    refine ⟨zero, by decide, ?_⟩
    rw [value, size_zero, hzero, Int.cast_zero]
    rfl
  · obtain ⟨y, hsign, hfinite, hsize⟩ := exists_size (n < 0) hpos hm (hn ▸ hbound)
    have hsize : y.size = n.natAbs := by
      rw [hsize, hn]
      push_cast
      rfl
    exact ⟨y, hfinite, by rw [value, hsign, hsize, signed_natAbs]⟩

theorem short_of_lt (h : n.natAbs < 2 ^ 24) : Short n := ⟨n.natAbs, 0, h, by omega⟩

theorem size_of_value (h : x.value = n) : x.size = n.natAbs := by
  rw [Nat.cast_natAbs, Int.cast_abs, ← h, value]
  cases x.isNegative <;> simp [signed, abs_of_nonneg x.size_nonneg]

/-- A number whose last place is a fraction is small. -/
theorem size_lt_of_exponent (hfinite : x.isFinite = true) (hexponent : x.exponent < 0) :
    x.size + 2 * x.quarter < 2 ^ 24 := by
  obtain ⟨_, _, hbound, _, _⟩ := x.parts hfinite
  have hbound : (x.significand : ℚ) + 1 ≤ 2 ^ 24 := by exact_mod_cast hbound
  have hunit : 4 * x.quarter ≤ 1 := x.unit_eq ▸ zpow_le_one_of_nonpos₀ one_le_two hexponent.le
  have hquarter := x.quarter_pos
  rw [size_eq]
  linarith [mul_quarter_le hbound x]

/-- Without a fraction in its last place, a number has a whole size. -/
theorem size_of_exponent {k : Nat} (h : x.exponent = k) : x.size = ((x.significand * 2 ^ k : Nat) : ℚ) := by
  rw [size, h, zpow_natCast]
  push_cast
  rfl

/-- **Exactly the short integers are kept.** -/
theorem value_ofInt_iff (h : n.natAbs < 2 ^ 127) : (ofInt n).value = n ↔ Short n := by
  obtain ⟨hsign, hfinite, hrounds⟩ := rounds_ofInt h
  constructor
  · intro hvalue
    have hsize := size_of_value hvalue
    rcases lt_or_ge (ofInt n).exponent 0 with hneg | hnonneg
    · refine short_of_lt ?_
      have hlt := size_lt_of_exponent hfinite hneg
      have : (n.natAbs : ℚ) < 2 ^ 24 := by linarith [(ofInt n).quarter_pos]
      exact_mod_cast this
    · obtain ⟨k, hk⟩ := Int.eq_ofNat_of_zero_le hnonneg
      obtain ⟨_, _, hbound, _, _⟩ := (ofInt n).parts hfinite
      refine ⟨_, k, hbound, ?_⟩
      rw [size_of_exponent hk] at hsize
      exact_mod_cast hsize.symm
  · intro hshort
    obtain ⟨y, hy, hvalue⟩ := hshort.exists_number h
    have hleast := (isNearest_ofInt h).least y hy
    rw [hvalue, sub_self, abs_zero] at hleast
    exact (sub_eq_zero.mp (abs_nonpos_iff.mp hleast)).symm

/-- The value of a stored integer is whole. -/
theorem exists_value_ofInt (h : n.natAbs < 2 ^ 127) : ∃ m : ℤ, (ofInt n).value = m := by
  obtain ⟨hsign, hfinite, hrounds⟩ := rounds_ofInt h
  rcases lt_or_ge (ofInt n).exponent 0 with hneg | hnonneg
  · have hlt := size_lt_of_exponent hfinite hneg
    have : (n.natAbs : ℚ) < 2 ^ 24 := hrounds.high_le.trans_lt hlt
    exact ⟨n, (value_ofInt_iff h).mpr (short_of_lt (by exact_mod_cast this))⟩
  · obtain ⟨k, hk⟩ := Int.eq_ofNat_of_zero_le hnonneg
    rw [value, size_of_exponent hk, signed]
    split
    · exact ⟨-((ofInt n).significand * 2 ^ k : Nat), by push_cast; rfl⟩
    · exact ⟨((ofInt n).significand * 2 ^ k : Nat), by push_cast; rfl⟩

/-- Cutting off the fraction leaves a whole number as it is. -/
theorem toInt_of_value (hfinite : x.isFinite = true) (hvalue : x.value = n) (hholds : SignedWord.holds n = true) :
    x.toInt = n := by
  have hsize := size_of_value hvalue
  have hratio := scale_ratio x.significand 1 x.exponent
  have hpos := scale_pos x.significand Nat.one_pos x.exponent
  have hdiv : (scale x.significand 1 x.exponent).1 / (scale x.significand 1 x.exponent).2 = n.natAbs := by
    rw [Nat.cast_one, div_one, ← size, hsize, div_eq_iff (by exact_mod_cast hpos.ne')] at hratio
    have hexact : (scale x.significand 1 x.exponent).1 = n.natAbs * (scale x.significand 1 x.exponent).2 := by
      exact_mod_cast hratio
    rw [hexact, Nat.mul_div_cancel _ hpos]
  have hsigned : (if x.isNegative then -((n.natAbs : Nat) : Int) else ((n.natAbs : Nat) : Int)) = n := by
    have : ((if x.isNegative then -((n.natAbs : Nat) : Int) else ((n.natAbs : Nat) : Int) : ℤ) : ℚ) = n := by
      rw [← hvalue, value, hsize, signed]
      split <;> simp
    exact_mod_cast this
  rw [toInt, hfinite]
  simp only [hdiv, hsigned, hholds]
  rfl

/-- Reading the nearest number to an integer as an integer loses nothing, because it has no fraction. -/
theorem toInt_ofInt (h : n.natAbs < 2 ^ 62) : ((ofInt n).toInt : ℚ) = (ofInt n).value := by
  have hbound : n.natAbs < 2 ^ 127 := h.trans (by decide)
  obtain ⟨m, hm⟩ := exists_value_ofInt hbound
  -- zero is a number as well, so the nearest one is not farther away than that
  have hdistance := (isNearest_ofInt hbound).least zero (by decide)
  have hzero : zero.value = 0 := by
    rw [value, size_zero]
    rfl
  rw [hzero, hm, sub_zero] at hdistance
  have hdistance : |n - m| ≤ |n| := by exact_mod_cast hdistance
  rw [Int.abs_eq_natAbs, Int.abs_eq_natAbs] at hdistance
  have hholds : SignedWord.holds m = true := SignedWord.holds_iff.mpr ⟨by omega, by omega⟩
  rw [toInt_of_value (rounds_ofInt hbound).2.1 hm hholds, hm]

end Binary32

/-! ## Integer values -/

namespace Value

open Cbor (Item StorableText)

/-- A lossless value with a short text comes back from its bytes. -/
theorem Lossless.ofItem_parse? {v : Value} (h : v.Lossless) (htext : StorableText v.text) :
    (Item.parse? v.toItem.encode).map ofItem = some (.ok v) := by
  rw [(intact_toItem htext (by decide)).parse?, Option.map_some, ofItem_toItem h.defined, h.settled_eq]

/-- **Integers of 32 bits are stored as the nearest single precision number.**  That one is whole and is what is
read and written, in every format, and bytes keep it.  So the integer itself is read and written exactly if
24 bits hold it, up to zeros behind them; that is so up to `2 ^ 24`. -/
theorem integer_kept_iff (n : Int32) :
    Binary32.IsNearest n.toInt (integer n.toInt).asFloat ∧
    ((integer n.toInt).asInt : ℚ) = (integer n.toInt).asFloat.value ∧
    ((integer n.toInt).asInt = n.toInt ↔ Binary32.Short n.toInt) ∧
    (∀ format, (integer n.toInt).literal format = Text.ofInt (integer n.toInt).asInt) ∧
    (∀ format, (integer n.toInt).literal format = Text.ofInt n.toInt ↔ Binary32.Short n.toInt) ∧
    (n.toInt.natAbs ≤ 2 ^ 24 → Binary32.Short n.toInt) ∧
    (Item.parse? (integer n.toInt).toItem.encode).map ofItem = some (.ok (integer n.toInt)) := by
  have hlow := n.le_toInt
  have hhigh := n.toInt_lt
  have hbound : n.toInt.natAbs < 2 ^ 62 := by omega
  have hbound' : n.toInt.natAbs < 2 ^ 127 := hbound.trans (by decide)
  have hfloat : (integer n.toInt).asFloat = .ofInt n.toInt := rfl
  have hint : ((integer n.toInt).asInt : ℚ) = (integer n.toInt).asFloat.value := Binary32.toInt_ofInt hbound
  have hkept : (integer n.toInt).asInt = n.toInt ↔ Binary32.Short n.toInt := by
    rw [← Binary32.value_ofInt_iff hbound', ← hfloat, ← hint, Int.cast_inj]
  refine ⟨Binary32.isNearest_ofInt hbound', hint, hkept, fun format => rfl, fun format => ?_, fun hsmall => ?_, ?_⟩
  · show Text.ofInt (integer n.toInt).asInt = _ ↔ _
    rw [Text.ofInt_inj, hkept]
  · rcases hsmall.lt_or_eq with hlt | heq
    · exact Binary32.short_of_lt hlt
    · exact ⟨1, 24, by decide, by omega⟩
  · have hempty : StorableText [] := by decide
    refine (lossless_ofNumbers rfl ?_).ofItem_parse? hempty
    rw [List.forall_mem_singleton]
    exact Binary32.isNaN_of_isFinite (Binary32.rounds_ofInt hbound').2.1

/-- The last integer that is kept with all below it, and one of 24 bits with six zeros behind them. -/
theorem integer_kept_iff_rounded :
    (integer 16777216).asInt = 16777216 ∧ (integer (-1073741760)).literal .fixed = "-1073741760" := by
  have hsmall := integer_kept_iff 16777216
  have hlarge := integer_kept_iff (-1073741760)
  have hshort : Binary32.Short (-1073741760) := ⟨16777215, 6, by decide, by decide⟩
  exact ⟨hsmall.2.2.1.mpr (hsmall.2.2.2.2.2.1 (by decide)), (hlarge.2.2.2.2.1 .fixed).mpr hshort⟩

/-- The integer behind `2 ^ 24` is stored as that one, and the greatest of 32 bits as one that 32 bits do not
hold. -/
theorem integers_not_kept :
    (integer 16777217).asInt = 16777216 ∧ (integer 16777217).literal .general = "16777216" ∧
    (integer 2147483647).asInt = 2147483648 ∧ (integer 2147483647).literal .general = "2147483648" := by
  decide +kernel

end Value
end ShadeGraph
