/-
  A mixing hash of 64 bits.

  A byte string is read as 64-bit words, the lowest byte first and the last word filled up with zeros;
  each word is mixed into the state by exclusive or, shifts and two odd multipliers.
-/
import ShadeGraph.Text.Basic

namespace ShadeGraph.Hash

/-- The word of up to eight bytes, the lowest byte first. -/
def word : Text → UInt64
  | [] => 0
  | b :: t => b.toUInt64 ||| (word t <<< 8)

/-- The words of a byte string. -/
def words : Text → List UInt64
  | a :: b :: c :: d :: e :: f :: g :: h :: rest => word [a, b, c, d, e, f, g, h] :: words rest
  | [] => []
  | t => [word t]

/-- Mixes one word into the state. -/
def mix (state w : UInt64) : UInt64 :=
  let x := state ^^^ w
  let x := (x ^^^ (x >>> 30)) * 0xbf58476d1ce4e5b9
  let x := (x ^^^ (x >>> 27)) * 0x94d049bb133111eb
  x ^^^ (x >>> 31)

/-- The state after a byte string. -/
def absorb (state : UInt64) (t : Text) : UInt64 := (words t).foldl mix state

/-- The bytes of a word, the lowest first. -/
def bytesOfWord (w : UInt64) : Text :=
  (List.range 8).map fun i => (w >>> (8 * i).toUInt64).toUInt8

end ShadeGraph.Hash
