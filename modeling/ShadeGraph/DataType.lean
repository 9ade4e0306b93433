/-
  The types of values and ports, and what a node computes.

  A type is known by a code of one byte.  Seventeen codes have a meaning; the others are carried along
  as they were read, so that a message can name them and an encoder can write them back.
-/
import ShadeGraph.Text.Fold

namespace ShadeGraph

/-- The type of a value or of a port of a shading graph. -/
inductive DataType where
  | none
  | boolean
  | integer
  | float
  | vector2
  | vector3
  | vector4
  | color3
  | color4
  | matrix33
  | matrix44
  | string
  /-- A texture file; generated code reads it through a sampler. -/
  | filename
  | bsdf
  | edf
  | surfaceShader
  | material
  /-- The type with code `17 + k`, which has no meaning of its own. -/
  | reserved (k : Fin 239)
  deriving DecidableEq, Repr

namespace DataType

instance : Inhabited DataType := ⟨.none⟩

/-- The types with a meaning, in the order of their codes. -/
def all : List DataType :=
  [.none, .boolean, .integer, .float, .vector2, .vector3, .vector4, .color3, .color4, .matrix33,
    .matrix44, .string, .filename, .bsdf, .edf, .surfaceShader, .material]

/-- The code of a type. -/
def code : DataType → Nat
  | .none => 0
  | .boolean => 1
  | .integer => 2
  | .float => 3
  | .vector2 => 4
  | .vector3 => 5
  | .vector4 => 6
  | .color3 => 7
  | .color4 => 8
  | .matrix33 => 9
  | .matrix44 => 10
  | .string => 11
  | .filename => 12
  | .bsdf => 13
  | .edf => 14
  | .surfaceShader => 15
  | .material => 16
  | .reserved k => 17 + k.val

/-- The type with a given code. -/
def ofCode (c : UInt8) : DataType :=
  match all[c.toNat]? with
  | some t => t
  | Option.none => .reserved (Fin.ofNat 239 (c.toNat - 17))

/-- A type with a meaning. -/
def isDefined : DataType → Bool
  | .reserved _ => false
  | _ => true

/-- The name of a type. -/
def name : DataType → Text
  | .none => "none"
  | .boolean => "boolean"
  | .integer => "integer"
  | .float => "float"
  | .vector2 => "vector2"
  | .vector3 => "vector3"
  | .vector4 => "vector4"
  | .color3 => "color3"
  | .color4 => "color4"
  | .matrix33 => "matrix33"
  | .matrix44 => "matrix44"
  | .string => "string"
  | .filename => "filename"
  | .bsdf => "BSDF"
  | .edf => "EDF"
  | .surfaceShader => "surfaceshader"
  | .material => "material"
  | .reserved k => "Type(" ++ Text.ofNat (17 + k.val) ++ ")"

/-- The type of a name, found without regard to case. -/
def ofName? (n : Text) : Option DataType := all.find? fun t => Text.equalFold n t.name

/-- The message for a name, or a type, that stands for no type with a meaning. -/
def unknownNameMessage : Text := "unknown type name"

/-- The number of scalar components; zero for types without any. -/
def size : DataType → Nat
  | .boolean | .integer | .float => 1
  | .vector2 => 2
  | .vector3 | .color3 => 3
  | .vector4 | .color4 => 4
  | .matrix33 => 9
  | .matrix44 => 16
  | _ => 0

/-- A vector of two floats. -/
def isFloat2 (t : DataType) : Bool := t = .vector2

/-- A vector or color of three floats. -/
def isFloat3 (t : DataType) : Bool := t = .vector3 || t = .color3

/-- A vector or color of four floats. -/
def isFloat4 (t : DataType) : Bool := t = .vector4 || t = .color4

/-- A single number. -/
def isScalar (t : DataType) : Bool := t = .float || t = .integer || t = .boolean

/-- A color. -/
def isColor (t : DataType) : Bool := t = .color3 || t = .color4

/-- A shading distribution that is not evaluated yet. -/
def isClosure (t : DataType) : Bool := t = .bsdf || t = .edf

end DataType

/-- A set of flags that says what a node or a graph computes. -/
structure Classification where
  /-- The flags, one bit each. -/
  bits : UInt16
  deriving DecidableEq, Repr

namespace Classification

/-- No flag. -/
def empty : Classification := ⟨0⟩

/-- A plain value. -/
def texture : Classification := ⟨1⟩

/-- A shading distribution or something made of one. -/
def closure : Classification := ⟨2⟩

/-- A shader. -/
def shader : Classification := ⟨4⟩

/-- A surface. -/
def surface : Classification := ⟨8⟩

/-- A scattering distribution. -/
def bsdf : Classification := ⟨16⟩

/-- An emission distribution. -/
def edf : Classification := ⟨32⟩

/-- A surface that takes no light. -/
def unlit : Classification := ⟨64⟩

/-- The flags of both. -/
def union (a b : Classification) : Classification := ⟨a.bits ||| b.bits⟩

/-- Whether all flags of `b` are set in `a`. -/
def has (a b : Classification) : Bool := a.bits &&& b.bits == b.bits

/-- The flags with a name, from the lowest bit up. -/
def named : List (Classification × Text) :=
  [(texture, "texture"), (closure, "closure"), (shader, "shader"), (surface, "surface"),
    (bsdf, "bsdf"), (edf, "edf"), (unlit, "unlit")]

/-- The names of the flags that are set, or `none` when no bit is. -/
def name (c : Classification) : Text :=
  if c.bits = 0 then "none"
  else Text.joinWith "|" ((named.filter fun f => c.has f.1).map Prod.snd)

end Classification

/-- What a node with an output of the type computes. -/
def DataType.classify : DataType → Classification
  | .surfaceShader | .material =>
    (Classification.shader.union Classification.surface).union Classification.closure
  | .bsdf => Classification.closure.union Classification.bsdf
  | .edf => Classification.closure.union Classification.edf
  | _ => Classification.texture

end ShadeGraph
