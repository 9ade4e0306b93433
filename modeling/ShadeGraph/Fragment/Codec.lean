/-
  Fragments as CBOR.

  Fragments are stored and exchanged as maps whose keys are small integers in rising order.  An empty list
  of parameters, an absent value and false are left out; all else is always there.
-/
import ShadeGraph.Fragment.Basic
import ShadeGraph.Graph.Codec

namespace ShadeGraph

open Cbor (Item Decoded DecodeError FieldKey)

namespace Cbor

/-- A truth value that is left out when it is false. -/
def flagEntry (n : Nat) (b : Bool) : List (Item × Item) :=
  if b then numberedEntry n (.bool true) else []

/-- The keys from one up to a number. -/
def numberedKeys (n : Nat) : List FieldKey := (List.range n).map fun i => .numbered (i + 1)

end Cbor

/-- The version of a light interface. -/
def LightApi.toItem (a : LightApi) : Item := .int a.version.toInt

/-- Decodes the version of a light interface. -/
def LightApi.ofItem {ε : Type} (item : Item) : Decoded ε LightApi := do
  return ⟨Int64.ofInt (← Cbor.Decode.integer SignedWord.least SignedWord.greatest item)⟩

namespace FragmentParameter

/-- The value of a parameter as a field. -/
def valueEntry : Option Value → List (Item × Item)
  | none => []
  | some v => Cbor.numberedEntry 4 v.toItem

/-- The item of a parameter. -/
def toItem (p : FragmentParameter) : Item :=
  .map (Cbor.numberedEntry 1 (.text p.name) ++ Cbor.numberedEntry 2 (.text p.ident) ++
    Cbor.numberedEntry 3 p.type.toItem ++ valueEntry p.value ++ Cbor.flagEntry 5 p.hostBound)

/-- Decodes one field of a parameter. -/
def setField : Nat → Item → FragmentParameter → Decoded ValueError FragmentParameter
  | 0, i, r => do return { r with name := ← Cbor.Decode.text i }
  | 1, i, r => do return { r with ident := ← Cbor.Decode.text i }
  | 2, i, r => do return { r with type := ← DataType.ofItem i }
  | 3, i, r => do return { r with value := ← Cbor.Decode.optional Value.ofItem i }
  | _, i, r => do return { r with hostBound := ← Cbor.Decode.bool i }

/-- Decodes a parameter. -/
def ofItem (item : Item) : Decoded ValueError FragmentParameter :=
  Cbor.Decode.record (Cbor.numberedKeys 5) setField ⟨[], [], .none, none, false⟩ item

end FragmentParameter

namespace Fragment

/-- The parameters of a fragment as a field. -/
def parametersEntry (ps : List FragmentParameter) : List (Item × Item) :=
  if ps.isEmpty then [] else Cbor.numberedEntry 5 (.array (ps.map FragmentParameter.toItem))

/-- The item of a fragment. -/
def toItem (f : Fragment) : Item :=
  .map (Cbor.numberedEntry 1 (.text f.name) ++ Cbor.numberedEntry 2 (.text f.functionName) ++
    Cbor.numberedEntry 3 (.text f.pixel) ++ Cbor.numberedEntry 4 (.text f.uniforms) ++
    parametersEntry f.parameters ++ Cbor.flagEntry 6 f.transparent ++
    Cbor.numberedEntry 7 f.api.toItem)

/-- Decodes one field of a fragment. -/
def setField : Nat → Item → Fragment → Decoded ValueError Fragment
  | 0, i, r => do return { r with name := ← Cbor.Decode.text i }
  | 1, i, r => do return { r with functionName := ← Cbor.Decode.text i }
  | 2, i, r => do return { r with pixel := ← Cbor.Decode.text i }
  | 3, i, r => do return { r with uniforms := ← Cbor.Decode.text i }
  | 4, i, r => do return { r with parameters := ← Cbor.Decode.list FragmentParameter.ofItem i }
  | 5, i, r => do return { r with transparent := ← Cbor.Decode.bool i }
  | _, i, r => do return { r with api := ← LightApi.ofItem i }

/-- A fragment without anything in it. -/
def blank : Fragment := ⟨[], [], [], [], [], false, ⟨0⟩⟩

/-- Decodes a fragment. -/
def ofItem (item : Item) : Decoded ValueError Fragment :=
  Cbor.Decode.record (Cbor.numberedKeys 7) setField blank item

/-- The canonical encoding of a fragment. -/
def encode (f : Fragment) : Text := f.toItem.encode

/-- Decodes the encoding of a fragment. -/
def decode (bytes : Text) : Decoded ValueError Fragment :=
  match Item.parse? bytes with
  | none => .error .malformed
  | some item => ofItem item

/-- The message of a decode error; bytes that are no encoding at all have none of their own. -/
def decodeMessage? : DecodeError ValueError → Option Text
  | .malformed => none
  | .refused e => some ("ogsfrag: unmarshal fragment: " ++ e.message)

end Fragment
end ShadeGraph
