/-
  Numbers, truth values and times of TOML documents.

  Such a value is written as one word of letters, digits and a few signs.  The word is cut out first and
  classified as a whole: whatever stands behind it has to be a separator, so a word that is only partly
  a number is none.  A time may hold a space between the day and the hour.
-/
import ShadeGraph.Number.Range
import ShadeGraph.Toml.Quote

namespace ShadeGraph.Toml

/-- A value that is neither an array nor a table.  Of floats and times only the kind is kept. -/
inductive Scalar where
  | string (s : Text)
  | integer (n : Int)
  | float
  | boolean (b : Bool)
  | time
  deriving DecidableEq, Repr

/-! ## Integers -/

/-- Underscores stand only between two digits, which for this purpose may be hexadecimal; `allowed`
says that one may come next. -/
def spacedDigits : (allowed : Bool) → Text → Bool
  | allowed, [] => allowed
  | allowed, b :: t =>
    if b = 95 then allowed && spacedDigits false t else spacedDigits (hexValue? b).isSome t

/-- A word without its underscores. -/
def dropUnderscores (t : Text) : Text := t.filter (· != 95)

/-- A zero in front of further decimal digits. -/
def leadingZero : Text → Bool
  | 43 :: 48 :: _ :: _ => true
  | 45 :: 48 :: _ :: _ => true
  | 48 :: _ :: _ => true
  | _ => false

/-- The number of a string of digits below the base; `none` without digits or with another byte. -/
def digitsIn? (base : Nat) (t : Text) : Option Nat :=
  if t = [] then none
  else
    t.foldlM (fun n b => (hexValue? b).bind fun d => if d < base then some (base * n + d) else none) 0

/-- The base that the second byte of a word such as `0x1f` stands for; a digit has to follow it. -/
def baseOf? : UInt8 → Option Nat
  | 120 => some 16
  | 111 => some 8
  | 98 => some 2
  | _ => none

/-- The integer of a word, without regard to the range. -/
def unboundedInteger? (word : Text) : Option Int :=
  if !spacedDigits false word then none
  else
    match word with
    | 48 :: mark :: digits =>
      if digits.head? = some 95 then none
      else
        (baseOf? mark).bind fun base =>
          (digitsIn? base (dropUnderscores digits)).map Int.ofNat
    | word => if leadingZero word then none else Text.toInt? (dropUnderscores word)

/-- The integers are those of 64 bits. -/
def integer? (word : Text) : Option Int :=
  (unboundedInteger? word).filter SignedWord.holds

/-! ## Floats -/

/-- The marks that divide a float into its parts. -/
def isFloatMark (b : UInt8) : Bool := b = 46 || b = 101 || b = 69

/-- The parts of a float between its marks, empty ones left out. -/
def floatParts (t : Text) : List Text :=
  (Text.splitOn 46 (t.map fun b => if isFloatMark b then 46 else b)).filter (· ≠ [])

/-- Every point is followed by a digit. -/
def pointsFollowed : Text → Bool
  | [] => true
  | b :: t =>
    (b != 46 || match t with
      | [] => false
      | c :: _ => Text.isDigit c) && pointsFollowed t

/-- A word without a sign at its start. -/
def dropSign : Text → Text
  | 43 :: t => t
  | 45 :: t => t
  | t => t

/-- A decimal number `digits × 10 ^ exponent`. -/
structure Decimal where
  digits : Nat
  exponent : Int

/-- Reads digits with a point among them and an exponent behind them; the sign is dropped. -/
def decimal? (word : Text) : Option Decimal :=
  let t := dropSign word
  let whole := t.takeWhile Text.isDigit
  let t := t.dropWhile Text.isDigit
  let fraction := if t.head? = some 46 then (t.drop 1).takeWhile Text.isDigit else []
  let t := if t.head? = some 46 then (t.drop 1).dropWhile Text.isDigit else t
  let mantissa := Text.toNat? (whole ++ fraction)
  match t with
  | [] => mantissa.map fun m => ⟨m, - fraction.length⟩
  | mark :: exponent =>
    if mark = 101 || mark = 69 then
      mantissa.bind fun m => (Text.toInt? exponent).map fun e => ⟨m, e - fraction.length⟩
    else none

/-- The least number that no longer rounds to a finite double: the middle between the largest double and
the next power of two. -/
def doubleLimit : Nat := Nat.pow 2 1024 - Nat.pow 2 970

/-- Whether a decimal rounds to a finite double.  Only numbers of 309 digits have to be compared in full. -/
def Decimal.isFinite (d : Decimal) : Bool :=
  let size : Int := (Text.ofNat d.digits).length + d.exponent
  if d.digits = 0 || size < 309 then true
  else if 309 < size then false
  else if 0 ≤ d.exponent then d.digits * Nat.pow 10 d.exponent.toNat < doubleLimit
  else d.digits < doubleLimit * Nat.pow 10 (-d.exponent).toNat

/-- The words for infinity and for what is no number. -/
def specialFloats : List Text := ["inf", "+inf", "-inf", "nan", "+nan", "-nan"]

/-- Whether a word is a float. -/
def isFloat (word : Text) : Bool :=
  specialFloats.contains word ||
    (word.any isFloatMark && (dropSign word).head?.any Text.isDigit &&
      (floatParts word).all (spacedDigits false) &&
      !(floatParts word).head?.any leadingZero && pointsFollowed word &&
      (decimal? (dropUnderscores word)).any Decimal.isFinite)

/-! ## Times -/

/-- A byte that may stand in a time. -/
def isTimeByte (b : UInt8) : Bool :=
  Text.isDigit b || [45, 58, 84, 116, 32, 46, 90, 122, 43].contains b

/-- The number of two digits in front, when it lies in the given range. -/
def twoDigits? (low high : Nat) : Text → Option (Nat × Text)
  | a :: b :: t =>
    (Text.toNat? [a, b]).bind fun n => if low ≤ n && n ≤ high then some (n, t) else none
  | _ => none

/-- The text behind a byte. -/
def after? (b : UInt8) : Text → Option Text
  | [] => none
  | c :: t => if c = b then some t else none

/-- The days of a month. -/
def daysIn (year month : Nat) : Nat :=
  if month = 2 then
    if year % 4 = 0 && (year % 100 ≠ 0 || year % 400 = 0) then 29 else 28
  else if [4, 6, 9, 11].contains month then 30 else 31

/-- What follows a day `2006-01-02`. -/
def day? (t : Text) : Option Text := do
  let year ← Text.toNat? (t.take 4)
  let (month, t) ← twoDigits? 1 12 (← after? 45 (t.drop 4))
  let (_, t) ← twoDigits? 1 (daysIn year month) (← after? 45 t)
  return t

/-- What follows a time of day `15:04:05`, with digits behind a point if there are any. -/
def clock? (t : Text) : Option Text := do
  let (_, t) ← twoDigits? 0 23 t
  let (_, t) ← twoDigits? 0 59 (← after? 58 t)
  let (_, t) ← twoDigits? 0 59 (← after? 58 t)
  match t with
  | 46 :: b :: rest => return if Text.isDigit b then rest.dropWhile Text.isDigit else t
  | _ => return t

/-- Whether a text is a time zone: `Z`, or a sign, hours and minutes. -/
def isZone : Text → Bool
  | [90] => true
  | sign :: t =>
    (sign = 43 || sign = 45) && (do
      let (_, t) ← twoDigits? 0 24 t
      let (_, t) ← twoDigits? 0 60 (← after? 58 t)
      return t) == some []
  | [] => false

/-- The letters of a time in capitals, and a space as the letter between day and time of day. -/
def timeByte (b : UInt8) : UInt8 := if b = 122 then 90 else if b = 116 || b = 32 then 84 else b

/-- Whether a word is a day, a time of day, or both with or without a zone. -/
def isTime (word : Text) : Bool :=
  let t := word.map timeByte
  let moment := (day? t).bind (after? 84) |>.bind clock?
  day? t == some [] || clock? t == some [] || moment == some [] || moment.any isZone

/-! ## Words -/

/-- A byte of a word. -/
def isWordByte (b : UInt8) : Bool :=
  Text.isDigit b || Text.isLetter b || [43, 45, 46, 58, 95].contains b

/-- A word whose digits are followed by a sign of times is a time, two digits at least in front when the
first is zero. -/
def startsTime (t : Text) : Bool :=
  let digits := t.takeWhile Text.isDigit
  (2 ≤ digits.length || (digits.length = 1 && digits ≠ [48])) &&
    match t.drop digits.length with
    | b :: _ => b = 45 || b = 58
    | [] => false

/-- The value that a word denotes. -/
def ofWord? (word : Text) : Option Scalar :=
  if word = Text.ofString "true" then some (.boolean true)
  else if word = Text.ofString "false" then some (.boolean false)
  else
    match integer? word with
    | some n => some (.integer n)
    | none => if isFloat word then some .float else none

/-- The number, truth value or time that starts the text. -/
def readWord (t : Text) : Option (Scalar × Text) :=
  if startsTime t then
    let word := t.takeWhile isTimeByte
    let trimmed := Text.dropTrailing 32 word
    if isTime trimmed then some (.time, t.drop word.length) else none
  else
    let word := t.takeWhile isWordByte
    (ofWord? word).map fun v => (v, t.drop word.length)

/-- The scalar that starts the text. -/
def readScalar (t : Text) : Option (Scalar × Text) :=
  match t with
  | 34 :: _ | 39 :: _ => (readString t).map fun r => (.string r.1, r.2)
  | _ => readWord t

end ShadeGraph.Toml
