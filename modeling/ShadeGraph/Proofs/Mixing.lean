/-
  The mixing hash loses nothing but by its width.

  1. One step is a bijection, of the state for every word and of the word for every state: exclusive or
     with a fixed word, exclusive or with a shifted copy and an odd multiplier can all be undone.
  2. A run of steps is injective in the state it starts with, so that two runs over words that differ in
     one place end in different states (`foldl_mix_ne`).
  3. The words of a text are its bytes filled up with zeros (`flatMap_words`); with its length they
     give the text back (`words_inj`).
-/
import Mathlib.Data.Fintype.EquivFin
import Mathlib.Data.Nat.Digits.Lemmas
import ShadeGraph.Hash

namespace ShadeGraph.Hash

/-! ## One step -/

/-- A word with a copy of itself shifted in. -/
def shiftIn (k x : UInt64) : UInt64 := x ^^^ (x >>> k)

/-- What a step does once the word is in the state. -/
def scramble (x : UInt64) : UInt64 :=
  shiftIn 31 (shiftIn 27 (shiftIn 30 x * 0xbf58476d1ce4e5b9) * 0x94d049bb133111eb)

theorem mix_eq (state w : UInt64) : mix state w = scramble (state ^^^ w) := rfl

/-- Adding a shifted copy by exclusive or can be undone: the high bits are as they were, and give the others. -/
theorem shiftIn_injective {k : UInt64} (hpos : 0 < k.toNat) (hlt : k.toNat < 64) :
    Function.Injective (shiftIn k) := by
  intro x y h
  -- what two words differ in is its own shift, and only zero is
  have hself : x ^^^ y = (x ^^^ y) >>> k := by
    rw [UInt64.shiftRight_xor, ← UInt64.xor_right_inj x, ← UInt64.xor_assoc, UInt64.xor_self,
      UInt64.zero_xor, ← UInt64.xor_assoc]
    show y = shiftIn k x ^^^ (y >>> k)
    rw [h, shiftIn, UInt64.xor_assoc, UInt64.xor_self, UInt64.xor_zero]
  have hzero : (x ^^^ y).toNat = 0 := by
    have hdiv : (x ^^^ y).toNat = (x ^^^ y).toNat / 2 ^ k.toNat := by
      conv_lhs => rw [hself]
      rw [UInt64.toNat_shiftRight, Nat.mod_eq_of_lt hlt, Nat.shiftRight_eq_div_pow]
    by_contra hne
    have hless := Nat.div_lt_self (Nat.pos_of_ne_zero hne) (Nat.one_lt_two_pow (by omega : k.toNat ≠ 0))
    omega
  have hxor : x ^^^ y = 0 := UInt64.toNat_inj.mp hzero
  exact UInt64.xor_eq_zero_iff.mp hxor

/-- A multiplier with an inverse can be undone. -/
theorem mul_injective {m inverse : UInt64} (h : m * inverse = 1) : Function.Injective (· * m) := by
  intro x y hxy
  calc x = x * m * inverse := by rw [UInt64.mul_assoc, h, UInt64.mul_one]
    _ = y * m * inverse := by rw [show x * m = y * m from hxy]
    _ = y := by rw [UInt64.mul_assoc, h, UInt64.mul_one]

/-- Each step of scrambling can be undone. -/
theorem scramble_injective : Function.Injective scramble := by
  have hfirst := mul_injective (show 0xbf58476d1ce4e5b9 * 0x96de1b173f119089 = (1 : UInt64) by decide)
  have hsecond := mul_injective (show 0x94d049bb133111eb * 0x319642b2d24d8ec3 = (1 : UInt64) by decide)
  have hshift := fun (k : UInt64) => @shiftIn_injective k
  exact (hshift 31 (by decide) (by decide)).comp <| hsecond.comp <|
    (hshift 27 (by decide) (by decide)).comp <| hfirst.comp <| hshift 30 (by decide) (by decide)

/-- There are finitely many words, so that an injection of them is a bijection. -/
theorem bijective_of_injective {f : UInt64 → UInt64} (h : Function.Injective f) : Function.Bijective f := by
  have hfinite : Finite UInt64 := Finite.of_injective UInt64.toFin fun _ _ => UInt64.toFin_inj.mp
  exact Finite.injective_iff_bijective.mp h

/-- Mixing in a word permutes the states. -/
theorem mix_bijective_state (w : UInt64) : Function.Bijective (mix · w) := by
  refine bijective_of_injective fun x y (h : mix x w = mix y w) => ?_
  rw [mix_eq, mix_eq] at h
  exact (UInt64.xor_left_inj w).mp (scramble_injective h)

/-- From a given state, each state is reached by one word. -/
theorem mix_bijective_word (state : UInt64) : Function.Bijective (mix state) := by
  refine bijective_of_injective fun v w h => ?_
  rw [mix_eq, mix_eq] at h
  exact (UInt64.xor_right_inj state).mp (scramble_injective h)

/-! ## A run of steps -/

/-- Mixing in words keeps states apart. -/
theorem foldl_mix_injective (ws : List UInt64) : Function.Injective (ws.foldl mix) := by
  induction ws with
  | nil => exact Function.injective_id
  | cons w ws ih => exact ih.comp (mix_bijective_state w).injective

/-- Words that differ in one place end in different states. -/
theorem foldl_mix_ne (state : UInt64) (before after : List UInt64) {v w : UInt64} (hvw : v ≠ w) :
    (before ++ v :: after).foldl mix state ≠ (before ++ w :: after).foldl mix state := by
  rw [List.foldl_append, List.foldl_append]
  intro h
  exact hvw ((mix_bijective_word _).injective (foldl_mix_injective after h))

/-! ## The words of a text -/

/-- A text filled up with zeros to whole words. -/
def padded (t : Text) : Text := t ++ List.replicate ((8 - t.length % 8) % 8) 0

theorem digits_lt (t : Text) : ∀ d ∈ t.map UInt8.toNat, d < 256 := by
  intro d hd
  obtain ⟨b, -, rfl⟩ := List.mem_map.mp hd
  exact b.toNat_lt

/-- A word is up to eight bytes, the first one lowest. -/
theorem toNat_word : ∀ {t : Text}, t.length ≤ 8 → (word t).toNat = Nat.ofDigits 256 (t.map UInt8.toNat)
  | [], _ => rfl
  | b :: t, h => by
    have hlength : t.length ≤ 7 := Nat.le_of_succ_le_succ h
    have hrest := toNat_word (show t.length ≤ 8 by omega)
    -- the rest leaves the highest byte free, so that nothing is shifted out
    have hfree : Nat.ofDigits 256 (t.map UInt8.toNat) < 256 ^ 7 := by
      refine Nat.lt_of_lt_of_le (Nat.ofDigits_lt_base_pow_length (by decide) (digits_lt t)) ?_
      rw [List.length_map]
      exact Nat.pow_le_pow_right (by decide) hlength
    have hshift : (word t <<< 8).toNat = (word t).toNat <<< 8 := by
      rw [UInt64.toNat_shiftLeft, show (8 : UInt64).toNat % 64 = 8 from rfl, Nat.mod_eq_of_lt]
      rw [Nat.shiftLeft_eq, hrest]
      omega
    have hb := b.toNat_lt
    rw [word, UInt64.toNat_or, UInt8.toNat_toUInt64, hshift, Nat.or_comm,
      ← Nat.shiftLeft_add_eq_or_of_lt (by omega), Nat.shiftLeft_eq, hrest, List.map_cons, Nat.ofDigits_cons]
    omega

/-- A byte of a word is a digit of it. -/
theorem toNat_byte (w : UInt64) {i : Nat} (hi : i < 8) :
    (w >>> (8 * i).toUInt64).toUInt8.toNat = w.toNat / 256 ^ i % 256 := by
  have hamount : (8 * i).toUInt64.toNat % 64 = 8 * i := by
    rw [Nat.toUInt64_eq, UInt64.toNat_ofNat']
    omega
  rw [UInt64.toNat_toUInt8, UInt64.toNat_shiftRight, hamount, Nat.shiftRight_eq_div_pow, Nat.pow_mul]

/-- A byte of a word is the one it was made of, or zero behind the last. -/
theorem byte_word {t : Text} (h : t.length ≤ 8) {i : Nat} (hi : i < 8) :
    (word t >>> (8 * i).toUInt64).toUInt8 = t.getD i 0 := by
  apply UInt8.toNat_inj.mp
  rw [toNat_byte _ hi, toNat_word h, Nat.ofDigits_div_pow_eq_ofDigits_drop i (by decide) _ (digits_lt t),
    ← List.map_drop, List.getD_eq_getElem?_getD, ← List.head?_drop]
  cases t.drop i with
  | nil => rfl
  | cons b rest =>
    have hb := b.toNat_lt
    rw [List.map_cons, Nat.ofDigits_cons]
    show (b.toNat + 256 * _) % 256 = b.toNat
    omega

/-- The bytes of a word are those it was made of, and zeros. -/
theorem bytesOfWord_word {t : Text} (h : t.length ≤ 8) :
    bytesOfWord (word t) = t ++ List.replicate (8 - t.length) 0 := by
  apply List.ext_getElem
  · rw [bytesOfWord, List.length_map, List.length_range, List.length_append, List.length_replicate]
    omega
  · intro i hi _
    have hlt : i < 8 := by simpa [bytesOfWord] using hi
    rw [List.getElem_append]
    simp only [bytesOfWord, List.getElem_map, List.getElem_range, byte_word h hlt]
    split
    · next hin => rw [List.getD_eq_getElem?_getD, List.getElem?_eq_getElem hin, Option.getD_some]
    · next hout =>
      rw [List.getElem_replicate, List.getD_eq_getElem?_getD, List.getElem?_eq_none (by omega), Option.getD_none]

/-- The words of a text are its bytes, filled up with zeros. -/
theorem flatMap_words (t : Text) : (words t).flatMap bytesOfWord = padded t := by
  fun_induction words t with
  | case1 a b c d e f g h rest ih =>
    have hfirst : bytesOfWord (word [a, b, c, d, e, f, g, h]) = [a, b, c, d, e, f, g, h] :=
      bytesOfWord_word (Nat.le_refl 8)
    rw [List.flatMap_cons, ih, hfirst, padded, padded]
    simp only [List.length_cons, Nat.add_assoc, Nat.reduceAdd, Nat.add_mod_right]
    rfl
  | case2 => rfl
  | case3 t hlong hnil =>
    have hpos : 0 < t.length := List.length_pos_iff.mpr hnil
    have hlt : t.length < 8 := by
      rcases t with _ | ⟨a, _ | ⟨b, _ | ⟨c, _ | ⟨d, _ | ⟨e, _ | ⟨f, _ | ⟨g, _ | ⟨h, rest⟩⟩⟩⟩⟩⟩⟩⟩
      iterate 8 simp
      exact (hlong a b c d e f g h rest rfl).elim
    rw [List.flatMap_singleton, bytesOfWord_word (by omega), padded, Nat.mod_eq_of_lt hlt,
      Nat.mod_eq_of_lt (by omega)]

/-- A word is made of its bytes. -/
theorem word_bytesOfWord (w : UInt64) : word (bytesOfWord w) = w := by
  have hdigits : (bytesOfWord w).map UInt8.toNat = (List.range 8).map fun i => w.toNat / 256 ^ i % 256 := by
    rw [bytesOfWord, List.map_map]
    exact List.map_congr_left fun i hi => toNat_byte w (List.mem_range.mp hi)
  have hlt := w.toNat_lt
  apply UInt64.toNat_inj.mp
  rw [toNat_word (by simp [bytesOfWord]), hdigits]
  simp only [List.range_succ_eq_map, List.range_zero, List.map_cons, List.map_nil, Nat.ofDigits_cons,
    Nat.ofDigits_nil, Nat.succ_eq_add_one, Nat.reduceAdd, Nat.reducePow]
  omega

/-- Whole words are read back from their bytes. -/
theorem words_flatMap (ws : List UInt64) : words (ws.flatMap bytesOfWord) = ws := by
  induction ws with
  | nil => rfl
  | cons w ws ih =>
    have hword : words (bytesOfWord w ++ ws.flatMap bytesOfWord) =
        word (bytesOfWord w) :: words (ws.flatMap bytesOfWord) := rfl
    rw [List.flatMap_cons, hword, word_bytesOfWord, ih]

/-- The words of a text and its length tell which text it is. -/
theorem words_inj {s t : Text} (hlength : s.length = t.length) (h : words s = words t) : s = t := by
  have hpadded : padded s = padded t := by rw [← flatMap_words, h, flatMap_words]
  exact (List.append_inj hpadded hlength).1

/-- A text is filled up to whole words. -/
theorem length_words (t : Text) : (words t).length * 8 = t.length + (8 - t.length % 8) % 8 := by
  have hlength := congrArg List.length (flatMap_words t)
  simpa [List.length_flatMap, bytesOfWord, padded] using hlength

theorem length_words_congr {s t : Text} (h : s.length = t.length) : (words s).length = (words t).length := by
  have hs := length_words s
  have ht := length_words t
  rw [h] at hs
  omega

end ShadeGraph.Hash
