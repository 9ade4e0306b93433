/-
  CBOR data items and their canonical encoding.

  An item is what an encoding means: lengths, chunks and the width of an integer belong to the encoding
  and are not part of it.  `encode` writes every item in the shortest definite form.
-/
import ShadeGraph.Text.Utf8

namespace ShadeGraph.Cbor

/-- A data item. -/
inductive Item where
  /-- A natural number below `2 ^ 64`. -/
  | unsigned (n : Nat)
  /-- The integer `-1 - n`. -/
  | negative (n : Nat)
  /-- A byte string. -/
  | bytes (b : Text)
  /-- A text string. -/
  | text (t : Text)
  /-- A text string that is no well-formed UTF-8. -/
  | garbled
  | array (items : List Item)
  | map (entries : List (Item × Item))
  | tag (number : Nat) (content : Item)
  /-- A simple value; 20 and 21 are the truth values, 22 is null and 23 undefined. -/
  | simple (n : Nat)
  /-- A half precision number, by its bits. -/
  | half (bits : UInt16)
  /-- A single precision number, by its bits. -/
  | single (bits : UInt32)
  /-- A double precision number, by its bits. -/
  | double (bits : UInt64)

/-- `n` in `width` bytes, the highest first. -/
def bigEndian : Nat → Nat → Text
  | 0, _ => []
  | width + 1, n => bigEndian width (n / 256) ++ [UInt8.ofNat (n % 256)]

/-- The number of bytes, the highest first. -/
def ofBigEndian (b : Text) : Nat := b.foldl (fun n d => 256 * n + d.toNat) 0

/-- The head of an item: its major type and its argument in the fewest bytes. -/
def head (major n : Nat) : Text :=
  if n < 24 then [UInt8.ofNat (32 * major + n)]
  else if n < 0x100 then UInt8.ofNat (32 * major + 24) :: bigEndian 1 n
  else if n < 0x10000 then UInt8.ofNat (32 * major + 25) :: bigEndian 2 n
  else if n < 0x100000000 then UInt8.ofNat (32 * major + 26) :: bigEndian 4 n
  else UInt8.ofNat (32 * major + 27) :: bigEndian 8 n

mutual

/-- The canonical encoding of an item. -/
def Item.encode : Item → Text
  | .unsigned n => head 0 n
  | .negative n => head 1 n
  | .bytes b => head 2 b.length ++ b
  | .text t => head 3 t.length ++ t
  | .garbled => head 3 1 ++ [0xFF]
  | .array items => head 4 items.length ++ encodeItems items
  | .map entries => head 5 entries.length ++ encodeEntries entries
  | .tag n content => head 6 n ++ content.encode
  | .simple n => head 7 n
  | .half b => 0xF9 :: bigEndian 2 b.toNat
  | .single b => 0xFA :: bigEndian 4 b.toNat
  | .double b => 0xFB :: bigEndian 8 b.toNat

/-- The encodings of items, one after the other. -/
def encodeItems : List Item → Text
  | [] => []
  | i :: rest => i.encode ++ encodeItems rest

/-- The encodings of keys and values, one after the other. -/
def encodeEntries : List (Item × Item) → Text
  | [] => []
  | (k, v) :: rest => k.encode ++ (v.encode ++ encodeEntries rest)

end

namespace Item

/-- A truth value. -/
def bool (b : Bool) : Item := .simple (if b then 21 else 20)

/-- Null. -/
def null : Item := .simple 22

/-- An integer. -/
def int : Int → Item
  | .ofNat n => .unsigned n
  | .negSucc n => .negative n

/-- Null or undefined. -/
def isNull : Item → Bool
  | .simple n => n == 22 || n == 23
  | _ => false

end Item
end ShadeGraph.Cbor
