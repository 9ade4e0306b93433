/-
  Decimal notation.

  A decimal is written positionally (`120`, `0.0001`), with an exponent (`1.2e+02`), or in whichever of
  the two the size of the number asks for.  The literals of generated code come in three formats; a
  number without a literal, infinite or NaN, is written as zero there.
-/
import ShadeGraph.Number.Shortest
import ShadeGraph.Text.Basic

namespace ShadeGraph

/-- A decimal's digits without trailing zeros, and the position of the point among them: the value is
`0.d₁d₂… * 10 ^ point`.  Zero has no digits. -/
structure Digits where
  /-- The digits, the first one not zero. -/
  digits : Text
  /-- The position of the decimal point, counted from the first digit. -/
  point : Int
  deriving DecidableEq, Repr

namespace Digits

/-- The digits of a decimal. -/
def ofDecimal (d : Decimal) : Digits :=
  if d.digits = 0 then ⟨[], 0⟩
  else
    let all := Text.ofNat d.digits
    ⟨Text.dropTrailing 48 all, all.length + d.exponent⟩

/-- The digits in front of the point; at least one. -/
def whole (d : Digits) : Text :=
  if d.point ≤ 0 then [48]
  else
    let n := d.point.toNat
    d.digits.take n ++ List.replicate (n - d.digits.length) 48

/-- The digits behind the point; none for a whole number. -/
def fraction (d : Digits) : Text :=
  if d.point ≤ 0 then
    if d.digits = [] then [] else List.replicate (-d.point).toNat 48 ++ d.digits
  else d.digits.drop d.point.toNat

/-- Positional notation. -/
def positional (d : Digits) : Text :=
  if d.fraction = [] then d.whole else d.whole ++ 46 :: d.fraction

/-- The decimal exponent of the first digit; zero for zero. -/
def exponent (d : Digits) : Int := if d.digits = [] then 0 else d.point - 1

/-- An exponent with its sign and at least two digits. -/
def exponentText (e : Int) : Text :=
  let n := Text.ofNat e.natAbs
  (if e < 0 then 45 else 43) :: (if e.natAbs < 10 then 48 :: n else n)

/-- Notation with an exponent. -/
def scientific (d : Digits) : Text :=
  let mantissa : Text :=
    match d.digits with
    | [] => [48]
    | [a] => [a]
    | a :: rest => a :: 46 :: rest
  mantissa ++ 101 :: exponentText d.exponent

/-- Positional notation from 0.0001 up to, but not including, a million; else with an exponent. -/
def general (d : Digits) : Text :=
  if d.digits ≠ [] && (d.point - 1 < -4 || 6 ≤ d.point - 1) then d.scientific else d.positional

end Digits

/-- How the float literals of generated code are written. -/
inductive FloatFormat where
  /-- The shorter of positional and exponent notation; a whole number has no point. -/
  | general
  /-- Positional, always with a point and a digit behind it. -/
  | fixed
  /-- With an exponent. -/
  | scientific
  /-- A format code without a meaning of its own, from 3 up; it writes like `general`. -/
  | reserved (k : Fin 253)
  deriving DecidableEq, Repr

namespace FloatFormat

/-- The format with a given code. -/
def ofCode (n : UInt8) : FloatFormat :=
  if n = 0 then .general
  else if n = 1 then .fixed
  else if n = 2 then .scientific
  else .reserved (Fin.ofNat 253 (n.toNat - 3))

/-- The name of a format. -/
def name : FloatFormat → Text
  | .general => "default"
  | .fixed => "fixed"
  | .scientific => "scientific"
  | .reserved k => "FloatFormat(" ++ Text.ofNat (k.val + 3) ++ ")"

end FloatFormat

namespace Binary32

/-- The number itself when it has a literal, else zero. -/
def literalValue (x : Binary32) : Binary32 := if x.isFinite then x else zero

/-- The shortest digits of a finite number's magnitude. -/
def digits (x : Binary32) : Digits := Digits.ofDecimal (Decimal.shortest x)

/-- `sign` in front of the text of a negative number. -/
def withSign (x : Binary32) (sign : UInt8) (t : Text) : Text :=
  if x.isNegative then sign :: t else t

/-- The fixed literal with `sign` as minus and `point` as decimal point. -/
def fixedLiteral (sign point : UInt8) (x : Binary32) : Text :=
  let y := x.literalValue
  let d := y.digits
  y.withSign sign (d.whole ++ point :: (if d.fraction = [] then [48] else d.fraction))

/-- The literal of a number in generated code. -/
def literal (format : FloatFormat) (x : Binary32) : Text :=
  let y := x.literalValue
  match format with
  | .fixed => fixedLiteral 45 46 x
  | .scientific => y.withSign 45 y.digits.scientific
  | .general => y.withSign 45 y.digits.general
  | .reserved _ => y.withSign 45 y.digits.general

/-- The text of a number in messages; unlike a literal it also spells infinities and NaN. -/
def display (x : Binary32) : Text :=
  if x.isNaN then "NaN"
  else if !x.isFinite then (if x.isNegative then "-Inf" else "+Inf")
  else x.withSign 45 x.digits.general

end Binary32
end ShadeGraph
