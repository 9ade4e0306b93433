/-
  Graphs as CBOR.

  Graphs are exchanged as maps from field names to values.  Fields stand in canonical order, shorter
  names first and names of one length by bytes; empty texts, empty lists, absent values and false are
  left out where the format allows it.
-/
import ShadeGraph.Cbor.Parse
import ShadeGraph.Cbor.Record
import ShadeGraph.Graph.Check

namespace ShadeGraph

open Cbor (Item Decoded DecodeError FieldKey)

/-- Why an item of the right shape is not a value. -/
inductive ValueError where
  | invalidType (code : Nat)
  | componentCount (type : DataType) (count : Nat)
  deriving DecidableEq, Repr

/-- The message of a value error. -/
def ValueError.message : ValueError → Text
  | .invalidType c => "invalid value type " ++ Text.ofNat c
  | .componentCount t n =>
    t.name ++ " value wants " ++ Text.ofNat t.size ++ " components, got " ++ Text.ofNat n

namespace Cbor

/-- A field of a record. -/
def entry (name : Text) (v : Item) : List (Item × Item) := [(.text name, v)]

/-- A field of a record known by a number. -/
def numberedEntry (n : Nat) (v : Item) : List (Item × Item) := [(.unsigned n, v)]

/-- A text field that is left out when it is empty. -/
def textEntry (name t : Text) : List (Item × Item) :=
  if t = [] then [] else entry name (.text t)

/-- A list field that is left out when it is empty. -/
def listEntry (name : Text) (items : List Item) : List (Item × Item) :=
  if items.isEmpty then [] else entry name (.array items)

end Cbor

/-- A number in the shortest width that keeps it. -/
def Binary32.toItem (x : Binary32) : Item :=
  match x.toHalf? with
  | some h => .half h
  | none => .single x.bits

/-- The code of a type. -/
def DataType.toItem (t : DataType) : Item := .unsigned t.code

/-- Decodes the code of a type. -/
def DataType.ofItem {ε : Type} (item : Item) : Decoded ε DataType := do
  return .ofCode (UInt8.ofNat (← Cbor.Decode.integer 0 255 item).toNat)

namespace Value

/-- The item of a value. -/
def toItem (v : Value) : Item :=
  .map ((if v.flag then Cbor.entry "b" (.bool true) else []) ++
    (if v.type = .boolean then [] else
      Cbor.listEntry "f" (v.numbers.map Binary32.toItem)) ++
    Cbor.textEntry "s" v.text ++
    Cbor.entry "type" v.type.toItem)

/-- The keys of a value. -/
def keys : List FieldKey := [.named "type", .named "f", .named "s", .named "b"]

/-- What the fields of an item say of a value. -/
structure Fields where
  type : DataType
  numbers : List Binary32
  text : Text
  flag : Bool

/-- Decodes one field of a value. -/
def setField {ε : Type} : Nat → Item → Fields → Decoded ε Fields
  | 0, i, v => do return { v with type := ← DataType.ofItem i }
  | 1, i, v => do return { v with numbers := ← Cbor.Decode.list Cbor.Decode.float i }
  | 2, i, v => do return { v with text := ← Cbor.Decode.text i }
  | _, i, v => do return { v with flag := ← Cbor.Decode.bool i }

/-- The most numbers that a value stores. -/
def capacity : Nat := 16

theorem size_le (t : DataType) : t.size ≤ capacity := by
  cases t <;> simp [DataType.size, capacity]

/-- Checks decoded fields: the type has a meaning, and there are as many numbers as it wants.  A
boolean takes any. -/
def ofFields (f : Fields) : Decoded ValueError Value :=
  if f.type.isDefined = false then .error (.refused (.invalidType f.type.code))
  else if h : f.type ≠ .boolean ∧ f.numbers.length ≠ f.type.size then
    .error (.refused (.componentCount f.type f.numbers.length))
  else
    .ok {
      type := f.type
      numbers := f.numbers.take capacity
      text := f.text
      flag := f.flag
      sized := fun hboolean => by
        have hlength : f.numbers.length = f.type.size := Decidable.of_not_not fun hne => h ⟨hboolean, hne⟩
        rw [List.length_take, hlength, Nat.min_eq_right (size_le f.type)] }

/-- Decodes a value. -/
def ofItem (item : Item) : Decoded ValueError Value := do
  ofFields (← Cbor.Decode.record keys setField ⟨.none, [], [], false⟩ item)

/-- The field of a value that may be absent. -/
def entry? : Option Value → List (Item × Item)
  | none => []
  | some v => Cbor.entry "value" v.toItem

end Value

namespace InterfaceInput

/-- The item of an interface input. -/
def toItem (i : InterfaceInput) : Item :=
  .map (Cbor.entry "name" (.text i.name) ++ Cbor.entry "type" i.type.toItem ++
    Value.entry? i.value)

/-- The keys of an interface input. -/
def keys : List FieldKey := [.named "name", .named "type", .named "value"]

/-- Decodes one field of an interface input. -/
def setField : Nat → Item → InterfaceInput → Decoded ValueError InterfaceInput
  | 0, i, r => do return { r with name := ← Cbor.Decode.text i }
  | 1, i, r => do return { r with type := ← DataType.ofItem i }
  | _, i, r => do return { r with value := ← Cbor.Decode.optional Value.ofItem i }

/-- Decodes an interface input. -/
def ofItem (item : Item) : Decoded ValueError InterfaceInput :=
  Cbor.Decode.record keys setField ⟨[], .none, none⟩ item

end InterfaceInput

namespace NodeInput

/-- The item of a node input. -/
def toItem (i : NodeInput) : Item :=
  .map (Cbor.entry "name" (.text i.name) ++ Cbor.textEntry "node" i.node ++
    Cbor.entry "type" i.type.toItem ++ Value.entry? i.value ++
    Cbor.textEntry "output" i.output ++ Cbor.textEntry "interface" i.interface)

/-- The keys of a node input. -/
def keys : List FieldKey :=
  [.named "name", .named "type", .named "value", .named "node", .named "output",
    .named "interface"]

/-- Decodes one field of a node input. -/
def setField : Nat → Item → NodeInput → Decoded ValueError NodeInput
  | 0, i, r => do return { r with name := ← Cbor.Decode.text i }
  | 1, i, r => do return { r with type := ← DataType.ofItem i }
  | 2, i, r => do return { r with value := ← Cbor.Decode.optional Value.ofItem i }
  | 3, i, r => do return { r with node := ← Cbor.Decode.text i }
  | 4, i, r => do return { r with output := ← Cbor.Decode.text i }
  | _, i, r => do return { r with interface := ← Cbor.Decode.text i }

/-- Decodes a node input. -/
def ofItem (item : Item) : Decoded ValueError NodeInput :=
  Cbor.Decode.record keys setField ⟨[], .none, none, [], [], []⟩ item

end NodeInput

namespace NodeOutput

/-- The item of a node output. -/
def toItem (o : NodeOutput) : Item :=
  .map (Cbor.entry "name" (.text o.name) ++ Cbor.entry "type" o.type.toItem)

/-- The keys of a node output. -/
def keys : List FieldKey := [.named "name", .named "type"]

/-- Decodes one field of a node output. -/
def setField : Nat → Item → NodeOutput → Decoded ValueError NodeOutput
  | 0, i, r => do return { r with name := ← Cbor.Decode.text i }
  | _, i, r => do return { r with type := ← DataType.ofItem i }

/-- Decodes a node output. -/
def ofItem (item : Item) : Decoded ValueError NodeOutput :=
  Cbor.Decode.record keys setField ⟨[], .none⟩ item

end NodeOutput

namespace Node

/-- The item of a node. -/
def toItem (n : Node) : Item :=
  .map (Cbor.entry "def" (.text n.definition) ++ Cbor.entry "name" (.text n.name) ++
    Cbor.entry "type" n.type.toItem ++
    Cbor.listEntry "inputs" (n.inputs.map NodeInput.toItem) ++
    Cbor.listEntry "outputs" (n.outputs.map NodeOutput.toItem))

/-- The keys of a node. -/
def keys : List FieldKey :=
  [.named "name", .named "def", .named "type", .named "inputs", .named "outputs"]

/-- Decodes one field of a node. -/
def setField : Nat → Item → Node → Decoded ValueError Node
  | 0, i, r => do return { r with name := ← Cbor.Decode.text i }
  | 1, i, r => do return { r with definition := ← Cbor.Decode.text i }
  | 2, i, r => do return { r with type := ← DataType.ofItem i }
  | 3, i, r => do return { r with inputs := ← Cbor.Decode.list NodeInput.ofItem i }
  | _, i, r => do return { r with outputs := ← Cbor.Decode.list NodeOutput.ofItem i }

/-- Decodes a node. -/
def ofItem (item : Item) : Decoded ValueError Node :=
  Cbor.Decode.record keys setField ⟨[], [], .none, [], []⟩ item

end Node

namespace Socket

/-- A socket without anything in it. -/
def blank : Socket := ⟨[], .none, [], [], [], none⟩

/-- The item of a socket. -/
def toItem (s : Socket) : Item :=
  .map (Cbor.entry "name" (.text s.name) ++ Cbor.textEntry "node" s.node ++
    Cbor.entry "type" s.type.toItem ++ Value.entry? s.value ++
    Cbor.textEntry "channels" s.channels ++ Cbor.textEntry "nodeoutput" s.nodeOutput)

/-- The keys of a socket. -/
def keys : List FieldKey :=
  [.named "name", .named "type", .named "node", .named "nodeoutput", .named "channels",
    .named "value"]

/-- Decodes one field of a socket. -/
def setField : Nat → Item → Socket → Decoded ValueError Socket
  | 0, i, r => do return { r with name := ← Cbor.Decode.text i }
  | 1, i, r => do return { r with type := ← DataType.ofItem i }
  | 2, i, r => do return { r with node := ← Cbor.Decode.text i }
  | 3, i, r => do return { r with nodeOutput := ← Cbor.Decode.text i }
  | 4, i, r => do return { r with channels := ← Cbor.Decode.text i }
  | _, i, r => do return { r with value := ← Cbor.Decode.optional Value.ofItem i }

/-- Decodes a socket. -/
def ofItem (item : Item) : Decoded ValueError Socket :=
  Cbor.Decode.record keys setField blank item

end Socket

/-- Why bytes are not a graph that can be used. -/
inductive GraphDecodeError where
  /-- The bytes are no encoding of a graph. -/
  | encoding (error : DecodeError ValueError)
  /-- The graph does not pass the check. -/
  | invalid (error : GraphError)
  deriving DecidableEq, Repr

namespace Graph

/-- The item of a graph. -/
def toItem (g : Graph) : Item :=
  .map (Cbor.entry "name" (.text g.name) ++
    Cbor.listEntry "nodes" (g.nodes.map Node.toItem) ++
    Cbor.listEntry "inputs" (g.inputs.map InterfaceInput.toItem) ++
    Cbor.entry "output" g.output.toItem)

/-- The keys of a graph. -/
def keys : List FieldKey := [.named "name", .named "inputs", .named "nodes", .named "output"]

/-- Decodes one field of a graph. -/
def setField : Nat → Item → Graph → Decoded ValueError Graph
  | 0, i, r => do return { r with name := ← Cbor.Decode.text i }
  | 1, i, r => do return { r with inputs := ← Cbor.Decode.list InterfaceInput.ofItem i }
  | 2, i, r => do return { r with nodes := ← Cbor.Decode.list Node.ofItem i }
  | _, i, r => do return { r with output := ← Socket.ofItem i }

/-- Decodes a graph. -/
def ofItem (item : Item) : Decoded ValueError Graph :=
  Cbor.Decode.record keys setField ⟨[], [], [], Socket.blank⟩ item

/-- The canonical encoding of a graph. -/
def encode (g : Graph) : Text := g.toItem.encode

/-- The encoding of a graph that may be absent. -/
def encodeGiven : Option Graph → Text
  | none => Item.null.encode
  | some g => g.encode

/-- Decodes a graph without checking it. -/
def parse (bytes : Text) : Decoded ValueError Graph :=
  match Item.parse? bytes with
  | none => .error .malformed
  | some item => ofItem item

/-- Decodes a graph and checks it. -/
def decode (bytes : Text) : Except GraphDecodeError Graph :=
  match parse bytes with
  | .error e => .error (.encoding e)
  | .ok g =>
    match g.check with
    | .error e => .error (.invalid e)
    | .ok _ => .ok g

end Graph

/-- The message of a decode error; bytes that are no encoding at all have none of their own. -/
def GraphDecodeError.message? : GraphDecodeError → Option Text
  | .encoding .malformed => none
  | .encoding (.refused e) => some ("mxgraph: unmarshal graph: " ++ e.message)
  | .invalid e => some ("mxgraph: " ++ e.message)

end ShadeGraph
