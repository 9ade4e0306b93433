/-
  Single precision numbers.

  A `Binary32` is the 32 bits of the IEEE format: a sign, eight exponent bits and 23 fraction bits.
  A finite one denotes `± m * 2 ^ q` with the natural number `m = significand` and the integer
  `q = exponent`, and everything here is exact arithmetic on these two: rounding a ratio to the nearest
  number (ties to the even significand), reading half and double precision bits, and cutting off the
  fraction.
-/
import ShadeGraph.Number.Range

namespace ShadeGraph

/-- A single precision number, given by its bits. -/
structure Binary32 where
  /-- Sign, exponent field and fraction, from the top bit down. -/
  bits : UInt32
  deriving DecidableEq, Repr

namespace Binary32

instance : Inhabited Binary32 := ⟨⟨0⟩⟩

/-- Positive zero. -/
def zero : Binary32 := ⟨0⟩

/-- The number one. -/
def one : Binary32 := ⟨0x3F800000⟩

/-- The quiet NaN with no payload. -/
def nan : Binary32 := ⟨0x7FC00000⟩

/-- The sign bit, as a number. -/
def signBit : Nat := 0x80000000

/-- The bit above the fraction, which is not stored. -/
def implicitBit : Nat := 0x800000

/-- The bits below the sign, as a number; larger magnitudes have larger numbers. -/
def magnitude (x : Binary32) : Nat := x.bits.toNat % signBit

/-- Whether the sign bit is set. -/
def isNegative (x : Binary32) : Bool := signBit ≤ x.bits.toNat

/-- The magnitude of the infinities. -/
def infinityMagnitude : Nat := 0x7F800000

/-- Not a number. -/
def isNaN (x : Binary32) : Bool := infinityMagnitude < x.magnitude

/-- Neither infinite nor NaN. -/
def isFinite (x : Binary32) : Bool := x.magnitude < infinityMagnitude

/-- The exponent field. -/
def exponentField (x : Binary32) : Nat := x.magnitude / implicitBit

/-- The natural number `m` of the value `± m * 2 ^ q` of a finite number. -/
def significand (x : Binary32) : Nat :=
  if x.exponentField = 0 then x.magnitude % implicitBit else x.magnitude % implicitBit + implicitBit

/-- The integer `q` of the value `± m * 2 ^ q` of a finite number. -/
def exponent (x : Binary32) : Int := (max x.exponentField 1 : Nat) - 150

/-- The number with the given sign and magnitude. -/
def ofMagnitude (negative : Bool) (magnitude : Nat) : Binary32 :=
  ⟨UInt32.ofNat (if negative then signBit + magnitude else magnitude)⟩

/-! ## Rounding -/

/-- The quotient rounded to the nearest natural number, ties to the even one. -/
def roundDiv (num den : Nat) : Nat :=
  let d := num / den
  let twice := 2 * (num % den)
  if twice < den then d else if den < twice then d + 1 else d + d % 2

/-- `num * 2 ^ e`, as a pair of numerator and denominator. -/
def scale (num den : Nat) (e : Int) : Nat × Nat :=
  match e with
  | .ofNat n => (num * Nat.pow 2 n, den)
  | .negSucc n => (num, den * Nat.pow 2 (n + 1))

/-- The exponent `e` with `2 ^ e ≤ num / den < 2 ^ (e + 1)`, for a positive ratio. -/
def floorLog2 (num den : Nat) : Int :=
  let e : Int := (Nat.log2 num : Nat) - (Nat.log2 den : Nat)
  let (a, b) := scale num den (-e)
  if a < b then e - 1 else e

/-- The magnitude nearest to a ratio, infinity beyond the largest finite one. -/
def roundedMagnitude (num den : Nat) : Nat :=
  if num = 0 then 0
  else
    let q := max (floorLog2 num den - 23) (-149)
    let (a, b) := scale num den (-q)
    min ((q + 149).toNat * implicitBit + roundDiv a b) infinityMagnitude

/-- The number nearest to `± num / den`, ties to the even significand. -/
def ofRatio (negative : Bool) (num den : Nat) : Binary32 :=
  ofMagnitude negative (roundedMagnitude num den)

/-- The number nearest to an integer. -/
def ofInt (n : Int) : Binary32 := ofRatio (n < 0) n.natAbs 1

/-- A natural number rounded to 53 significant bits, ties to even. -/
def round53 (n : Nat) : Nat :=
  let s := Nat.log2 n - 52
  roundDiv n (Nat.pow 2 s) * Nat.pow 2 s

/-- An integer rounded to double precision first and to single precision then. -/
def ofIntViaDouble (n : Int) : Binary32 := ofRatio (n < 0) (round53 n.natAbs) 1

/-! ## Other widths -/

/-- The number with the given half precision bits. -/
def ofHalf (h : UInt16) : Binary32 :=
  let negative : Bool := 0x8000 ≤ h.toNat
  let mag := h.toNat % 0x8000
  let field := mag / 0x400
  let fraction := mag % 0x400
  if field = 31 then
    if fraction = 0 then ofMagnitude negative infinityMagnitude else nan
  else
    let m := if field = 0 then fraction else fraction + 0x400
    let (a, b) := scale m 1 ((max field 1 : Nat) - 25)
    ofRatio negative a b

/-- The half precision bits of the same value, if there are any; every NaN has the same ones. -/
def toHalf? (x : Binary32) : Option UInt16 :=
  let top : Nat := if x.isNegative then 0x8000 else 0
  if x.isNaN then some 0x7E00
  else if !x.isFinite then some (UInt16.ofNat (top + 0x7C00))
  else if x.significand = 0 then some (UInt16.ofNat top)
  else
    let e : Int := (Nat.log2 x.significand : Nat) + x.exponent
    let q := max (e - 10) (-24)
    let (a, b) := scale x.significand 1 (x.exponent - q)
    if e ≤ 15 && a % b == 0 then
      some (UInt16.ofNat (top + (q + 24).toNat * 0x400 + a / b))
    else none

/-- The largest finite number: 24 bits, all of them set, in front of 104 zeros. -/
def largest : Nat := 0xFFFFFF00000000000000000000000000

/-- The number nearest to the one with the given double precision bits.  A finite magnitude above the
largest single precision number is refused. -/
def ofDouble? (d : UInt64) : Option Binary32 :=
  let negative : Bool := 0x8000000000000000 ≤ d.toNat
  let mag := d.toNat % 0x8000000000000000
  let field := mag / 0x10000000000000
  let fraction := mag % 0x10000000000000
  if field = 2047 then
    some (if fraction = 0 then ofMagnitude negative infinityMagnitude else nan)
  else
    let m := if field = 0 then fraction else fraction + 0x10000000000000
    let (a, b) := scale m 1 ((max field 1 : Nat) - 1075)
    if a ≤ largest * b then some (ofRatio negative a b) else none

/-! ## Integers -/

/-- What a number that is no signed 64-bit integer is cut off to. -/
def indefinite : Int := SignedWord.least

/-- The integer that is left when the fraction is cut off; `indefinite` outside the 64-bit range. -/
def toInt (x : Binary32) : Int :=
  if !x.isFinite then indefinite
  else
    let (a, b) := scale x.significand 1 x.exponent
    let n : Int := if x.isNegative then -((a / b : Nat) : Int) else ((a / b : Nat) : Int)
    if SignedWord.holds n then n else indefinite

end Binary32
end ShadeGraph
