/-
  The shortest decimal of a single precision number.

  A decimal `d * 10 ^ e` reads back as `m * 2 ^ q` when it lies in the interval of reals that round to
  it, the ends included exactly when `m` is even.  For 1, 2, … 9 digits the two neighbours of the value
  on that decimal grid are tried; the first grid with a hit wins, the nearer neighbour of two hits, and
  the even one of two equally near.  Should no grid hit, the exact decimal is taken, so the result reads
  back in any case.
-/
import ShadeGraph.Number.Binary32

namespace ShadeGraph

/-- A decimal `digits * 10 ^ exponent`. -/
structure Decimal where
  /-- The digits, as a number. -/
  digits : Nat
  /-- The power of ten they are multiplied with. -/
  exponent : Int
  deriving DecidableEq, Repr

namespace Decimal

/-- The interval of reals that round to `4 * m * unit` for the value `m * 2 ^ q`, in quarters of the
last place: `unit = 2 ^ (q - 2)`. -/
structure Interval where
  /-- Four times the significand. -/
  middle : Nat
  /-- The lower end. -/
  low : Nat
  /-- The upper end. -/
  high : Nat
  /-- Whether the ends round to the value too. -/
  closed : Bool
  deriving DecidableEq, Repr

/-- The rounding interval of a finite number. -/
def interval (x : Binary32) : Interval :=
  let m := x.significand
  -- Below a power of two the numbers lie twice as dense.
  let gap := if m = Binary32.implicitBit && 1 < x.exponentField then 1 else 2
  { middle := 4 * m, low := 4 * m - gap, high := 4 * m + 2, closed := m % 2 == 0 }

/-- Whether `point` lies in the interval, on a scale where the interval's unit is `unit`. -/
def Interval.holds (i : Interval) (point unit : Nat) : Bool :=
  if i.closed then i.low * unit ≤ point && point ≤ i.high * unit
  else i.low * unit < point && point < i.high * unit

/-- The two factors that bring a decimal of exponent `e` and the interval's unit `2 ^ u` to a common
integer scale: `d * 10 ^ e` becomes `d * fst`, and `n * 2 ^ u` becomes `n * snd`. -/
def commonScale (e u : Int) : Nat × Nat :=
  let ten : Nat × Nat := match e with
    | .ofNat n => (Nat.pow 10 n, 1)
    | .negSucc n => (1, Nat.pow 10 (n + 1))
  let two : Nat × Nat := match u with
    | .ofNat n => (1, Nat.pow 2 n)
    | .negSucc n => (Nat.pow 2 (n + 1), 1)
  (ten.1 * two.1, two.2 * ten.2)

/-- The neighbour of the value on the grid of exponent `e` that reads back, the nearer of two. -/
def gridHit? (i : Interval) (u e : Int) : Option Decimal :=
  let (grid, unit) := commonScale e u
  let value := i.middle * unit
  let d := value / grid
  let down := i.holds (d * grid) unit
  let up := i.holds ((d + 1) * grid) unit
  if down && up then
    let below := value - d * grid
    let above := (d + 1) * grid - value
    if below < above || (below == above && d % 2 == 0) then some ⟨d, e⟩ else some ⟨d + 1, e⟩
  else if down then some ⟨d, e⟩
  else if up then some ⟨d + 1, e⟩
  else none

/-- Counts how often a ratio below one is to be multiplied by ten to reach one. -/
def tensToOne : Nat → Nat → Nat → Nat
  | 0, _, _ => 0
  | fuel + 1, num, den => if den ≤ num then 0 else tensToOne fuel (10 * num) den + 1

/-- The number of decimal digits of `n`, counted with at most `fuel` of them; none for zero. -/
def digitCount : Nat → Nat → Nat
  | 0, _ => 0
  | fuel + 1, n => if n = 0 then 0 else digitCount fuel (n / 10) + 1

/-- The position of the decimal point: `k` with `10 ^ (k - 1) ≤ num / den < 10 ^ k`. -/
def pointOf (num den : Nat) : Int :=
  if den ≤ num then (digitCount (num / den + 1) (num / den) : Nat)
  else 1 - (tensToOne 64 num den : Nat)

/-- The value itself as a decimal. -/
def exact (x : Binary32) : Decimal :=
  match x.exponent with
  | .ofNat n => ⟨x.significand * Nat.pow 2 n, 0⟩
  | .negSucc n => ⟨x.significand * Nat.pow 5 (n + 1), .negSucc n⟩

/-- Tries the grids of exponents `e`, `e - 1`, … in turn. -/
def firstHit (i : Interval) (u : Int) : Nat → Int → Option Decimal
  | 0, _ => none
  | tries + 1, e =>
    match gridHit? i u e with
    | some d => some d
    | none => firstHit i u tries (e - 1)

/-- The shortest decimal that reads back as the magnitude of a finite number. -/
def shortest (x : Binary32) : Decimal :=
  if x.significand = 0 then ⟨0, 0⟩
  else
    let (a, b) := Binary32.scale x.significand 1 x.exponent
    ((firstHit (interval x) (x.exponent - 2) 9 (pointOf a b - 1)).getD (exact x))

end Decimal
end ShadeGraph
