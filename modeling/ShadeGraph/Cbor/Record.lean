/-
  Decoding items into records.

  Each decoder takes the item that stands where a value is expected.  Tags around it are stripped, null
  gives the value that an absent field has, and integers turn into floats where floats are expected.  A
  record is read from a map in the order of the map, so that the first fault in the input is the one
  reported; keys that name no field, or a field that was there before, are passed over.
-/
import ShadeGraph.Cbor.Item
import ShadeGraph.Number.Binary32
import ShadeGraph.Number.Range
import ShadeGraph.Text.Fold

namespace ShadeGraph.Cbor

/-- Why an item is not what was expected. -/
inductive DecodeError (ε : Type) where
  /-- The input is no well-formed item, or the item has the wrong shape. -/
  | malformed
  /-- The item has the right shape, and its content is refused. -/
  | refused (reason : ε)
  deriving DecidableEq, Repr

/-- The result of decoding. -/
abbrev Decoded (ε α : Type) := Except (DecodeError ε) α

namespace Item

/-- A text string, well formed or not. -/
def isText : Item → Bool
  | .text _ | .garbled => true
  | _ => false

/-- A number of any kind. -/
def isNumber : Item → Bool
  | .unsigned _ | .negative _ | .half _ | .single _ | .double _ => true
  | _ => false

/-- The item inside all tags.  A date has to be a text or a number, and a large integer a byte string;
the latter counts as the integer when that fits into 64 bits. -/
def untagged {ε : Type} : Item → Decoded ε Item
  | .tag 0 content => if content.isText then content.untagged else .error .malformed
  | .tag 1 content => if content.isNumber then content.untagged else .error .malformed
  | .tag 2 (.bytes b) =>
    if ofBigEndian b < 0x10000000000000000 then .ok (.unsigned (ofBigEndian b)) else .error .malformed
  | .tag 3 (.bytes b) =>
    if ofBigEndian b < 0x8000000000000000 then .ok (.negative (ofBigEndian b)) else .error .malformed
  | .tag 2 _ | .tag 3 _ => .error .malformed
  | .tag _ content => content.untagged
  | item => .ok item

/-- A simple value that counts as the integer of its number. -/
def isCounting (n : Nat) : Bool := n < 20 || 32 ≤ n

/-- The integer of an item without tags; null is zero. -/
def integer? : Item → Option Int
  | .unsigned n => some n
  | .negative n => if n < 0x8000000000000000 then some (-1 - n) else none
  | .simple n => if isCounting n then some n else if n = 22 || n = 23 then some 0 else none
  | _ => none

end Item

namespace Decode

variable {ε α : Type}

/-- A text; null is the empty one. -/
def text (item : Item) : Decoded ε Text := do
  match ← item.untagged with
  | .text t => return t
  | i => if i.isNull then return [] else throw .malformed

/-- A truth value; null is false. -/
def bool (item : Item) : Decoded ε Bool := do
  match ← item.untagged with
  | .simple 21 => return true
  | .simple 20 => return false
  | i => if i.isNull then return false else throw .malformed

/-- An integer between two bounds, both included. -/
def integer (low high : Int) (item : Item) : Decoded ε Int := do
  match (← item.untagged).integer? with
  | some n => if low ≤ n ∧ n ≤ high then return n else throw .malformed
  | none => throw .malformed

/-- A single precision number, also from an integer or from another width. -/
def float (item : Item) : Decoded ε Binary32 := do
  match ← item.untagged with
  | .half b => return .ofHalf b
  | .single b => return ⟨b⟩
  | .double b =>
    match Binary32.ofDouble? b with
    | some x => return x
    | none => throw .malformed
  | i =>
    match i.integer? with
    | some n => return .ofIntViaDouble n
    | none => throw .malformed

/-- Decodes items one after the other. -/
def each (decode : Item → Decoded ε α) : List Item → Decoded ε (List α)
  | [] => .ok []
  | i :: rest =>
    match decode i with
    | .error e => .error e
    | .ok a =>
      match each decode rest with
      | .error e => .error e
      | .ok as => .ok (a :: as)

/-- A list; null is the empty one. -/
def list (decode : Item → Decoded ε α) (item : Item) : Decoded ε (List α) := do
  match ← item.untagged with
  | .array items => each decode items
  | i => if i.isNull then return [] else throw .malformed

/-- Something that may be absent, which an untagged null says. -/
def optional (decode : Item → Decoded ε α) (item : Item) : Decoded ε (Option α) :=
  if item.isNull then .ok none else (decode item).map some

end Decode

/-- How the key of a record's field is written. -/
structure FieldKey where
  /-- The key as a text. -/
  name : Text
  /-- The key as an integer, for the fields that have one. -/
  number : Option Int
  deriving DecidableEq, Repr

namespace FieldKey

/-- A field known by a name. -/
def named (name : Text) : FieldKey := ⟨name, none⟩

/-- A field known by a number. -/
def numbered (n : Nat) : FieldKey := ⟨Text.ofNat n, some n⟩

/-- Whether a text is the field's name up to case. -/
def resembles (k : FieldKey) (t : Text) : Bool :=
  t.length == k.name.length && Text.equalFold t k.name

/-- The first of the fields that satisfies `p` and was not there before, by its position. -/
def findNew (p : FieldKey → Bool) (seen : List Nat) (keys : List FieldKey) : Option Nat :=
  (List.range keys.length).find? fun i =>
    !seen.contains i && (match keys[i]? with | some k => p k | none => false)

/-- The field that a map key stands for; nothing for a key that is passed over.  A key has to be a text or
an integer, and a negative one has to fit into 64 bits. -/
def locate {ε : Type} (keys : List FieldKey) (seen : List Nat) : Item → Decoded ε (Option Nat)
  | .text t =>
    match findNew (·.name == t) seen keys with
    | some i => .ok (some i)
    | none => .ok (findNew (·.resembles t) seen keys)
  | .unsigned n => .ok (findNew (·.number == some (SignedWord.wrap n)) seen keys)
  | .negative n =>
    if SignedWord.holds (-1 - n) then .ok (findNew (·.number == some (-1 - (n : Int))) seen keys)
    else .error .malformed
  | _ => .error .malformed

end FieldKey

namespace Decode

/-- Reads map entries into a record; `set i` decodes the value of the field with position `i`. -/
def entries {ε ρ : Type} (keys : List FieldKey) (set : Nat → Item → ρ → Decoded ε ρ) :
    List Nat → List (Item × Item) → ρ → Decoded ε ρ
  | _, [], r => .ok r
  | seen, (k, v) :: rest, r =>
    match FieldKey.locate keys seen k with
    | .error e => .error e
    | .ok none => entries keys set seen rest r
    | .ok (some i) =>
      match set i v r with
      | .error e => .error e
      | .ok r => entries keys set (i :: seen) rest r

/-- A record; null leaves it as it starts. -/
def record {ε ρ : Type} (keys : List FieldKey) (set : Nat → Item → ρ → Decoded ε ρ) (start : ρ)
    (item : Item) : Decoded ε ρ := do
  match ← item.untagged with
  | .map es => entries keys set [] es start
  | i => if i.isNull then return start else throw .malformed

end Decode
end ShadeGraph.Cbor
