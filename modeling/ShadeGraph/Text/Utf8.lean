/-
  Reading bytes as UTF-8.

  A text is read from the left as a list of runes.  A rune is a Unicode scalar value when the bytes
  at hand start a well-formed sequence (shortest form, no surrogate, at most 0x10FFFF); otherwise one
  byte is taken as a stray and reading goes on behind it.
-/
import ShadeGraph.Text.Basic

namespace ShadeGraph

/-- One element of a text: a scalar value, or a byte that belongs to no well-formed sequence. -/
inductive Rune where
  /-- A Unicode scalar value. -/
  | point (c : Nat)
  /-- A byte that starts no well-formed sequence where it stands. -/
  | stray (b : UInt8)
  deriving DecidableEq, Repr

namespace Text

/-- A continuation byte. -/
def isTail (b : UInt8) : Bool := 0x80 ≤ b && b ≤ 0xBF

/-- The payload of a continuation byte. -/
def tailBits (b : UInt8) : Nat := b.toNat - 0x80

/-- The scalar value of a well-formed pair. -/
def pair? (a b : UInt8) : Option Nat :=
  if 0xC2 ≤ a && a ≤ 0xDF && isTail b then some ((a.toNat - 0xC0) * 64 + tailBits b) else none

/-- The scalar value of a well-formed triple. -/
def triple? (a b c : UInt8) : Option Nat :=
  let first : Bool :=
    if a = 0xE0 then 0xA0 ≤ b && b ≤ 0xBF
    else if a = 0xED then 0x80 ≤ b && b ≤ 0x9F
    else 0xE1 ≤ a && a ≤ 0xEF && isTail b
  if first && isTail c then
    some ((a.toNat - 0xE0) * 4096 + tailBits b * 64 + tailBits c)
  else none

/-- The scalar value of a well-formed quadruple. -/
def quadruple? (a b c d : UInt8) : Option Nat :=
  let first : Bool :=
    if a = 0xF0 then 0x90 ≤ b && b ≤ 0xBF
    else if a = 0xF4 then 0x80 ≤ b && b ≤ 0x8F
    else 0xF1 ≤ a && a ≤ 0xF3 && isTail b
  if first && isTail c && isTail d then
    some ((a.toNat - 0xF0) * 262144 + tailBits b * 4096 + tailBits c * 64 + tailBits d)
  else none

/-- The rune that starts with `a` in front of `t`, and how many bytes of `t` belong to it. -/
def firstRune (a : UInt8) (t : Text) : Rune × Nat :=
  if a < 0x80 then (.point a.toNat, 0)
  else
    match t with
    | [] => (.stray a, 0)
    | b :: t₂ =>
      match pair? a b with
      | some p => (.point p, 1)
      | none =>
        match t₂ with
        | [] => (.stray a, 0)
        | c :: t₃ =>
          match triple? a b c with
          | some p => (.point p, 2)
          | none =>
            match t₃ with
            | [] => (.stray a, 0)
            | d :: _ =>
              match quadruple? a b c d with
              | some p => (.point p, 3)
              | none => (.stray a, 0)

/-- The runes of a text behind its first `skip` bytes. -/
def runesAfter : Nat → Text → List Rune
  | _, [] => []
  | skip + 1, _ :: t => runesAfter skip t
  | 0, a :: t => (firstRune a t).1 :: runesAfter (firstRune a t).2 t

/-- The runes of a text, from left to right. -/
def runes (t : Text) : List Rune := runesAfter 0 t

/-- Well-formed UTF-8: no byte is a stray. -/
def isUtf8 (t : Text) : Bool :=
  (runes t).all fun
    | .point _ => true
    | .stray _ => false

/-- The UTF-8 bytes of a scalar value. -/
def ofPoint (c : Nat) : Text :=
  if c < 0x80 then [UInt8.ofNat c]
  else if c < 0x800 then [UInt8.ofNat (0xC0 + c / 64), UInt8.ofNat (0x80 + c % 64)]
  else if c < 0x10000 then
    [UInt8.ofNat (0xE0 + c / 4096), UInt8.ofNat (0x80 + c / 64 % 64), UInt8.ofNat (0x80 + c % 64)]
  else
    [UInt8.ofNat (0xF0 + c / 262144), UInt8.ofNat (0x80 + c / 4096 % 64),
      UInt8.ofNat (0x80 + c / 64 % 64), UInt8.ofNat (0x80 + c % 64)]

end Text
end ShadeGraph
