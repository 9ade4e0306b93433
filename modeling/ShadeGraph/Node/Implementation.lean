/-
  Implementations of node definitions, and the registry that finds them.

  An implementation says which code a node becomes.  Some write an expression in place; others call a
  function that a library file defines, and these may add to the classification of their nodes.
-/
import ShadeGraph.DataType
import ShadeGraph.Shader.Token
import ShadeGraph.Text.Sorting

namespace ShadeGraph

/-- The operators of two operands. -/
inductive Arithmetic where
  | add
  | subtract
  | multiply
  deriving DecidableEq, Repr

/-- What is known of a point of the surface. -/
inductive Geometric where
  | position
  | normal
  | tangent
  | bitangent
  deriving DecidableEq, Repr

/-- A number that the host provides. -/
inductive HostNumber where
  | time
  | frame
  deriving DecidableEq, Repr

/-- Where a lit surface takes its lights from. -/
inductive LightSource where
  /-- Global variables that the host fills in. -/
  | rig
  /-- Functions of the host. -/
  | host
  deriving DecidableEq, Repr

/-- How nodes of a definition become code. -/
inductive Implementation where
  | constant (t : DataType)
  | arithmetic (op : Arithmetic) (t : DataType)
  | mix (t : DataType)
  | geometric (g : Geometric)
  | texcoord
  | hostNumber (n : HostNumber)
  | transformMatrix
  | image (t : DataType)
  | diffuseBsdf
  | uniformEdf
  | surface (lights : LightSource)
  | surfaceUnlit
  deriving DecidableEq, Repr

namespace Arithmetic

/-- The name in definitions. -/
def name : Arithmetic → Text
  | .add => "add"
  | .subtract => "subtract"
  | .multiply => "multiply"

/-- The operator in code. -/
def operator : Arithmetic → Text
  | .add => "+"
  | .subtract => "-"
  | .multiply => "*"

/-- The second operand of an input that is left out. -/
def identity : Arithmetic → Text
  | .multiply => "1.0"
  | _ => "0.0"

end Arithmetic

namespace Geometric

/-- The name in definitions. -/
def name : Geometric → Text
  | .position => "position"
  | .normal => "normal"
  | .tangent => "tangent"
  | .bitangent => "bitangent"

/-- The token in world space. -/
def worldToken : Geometric → Text
  | .position => Token.positionWorld
  | .normal => Token.normalWorld
  | .tangent => Token.tangentWorld
  | .bitangent => Token.bitangentWorld

/-- The token in object space. -/
def objectToken : Geometric → Text
  | .position => Token.positionObject
  | .normal => Token.normalObject
  | .tangent => Token.tangentObject
  | .bitangent => Token.bitangentObject

/-- Directions are normalized, positions are not. -/
def isDirection : Geometric → Bool
  | .position => false
  | _ => true

end Geometric

namespace HostNumber

/-- The name in definitions. -/
def name : HostNumber → Text
  | .time => "time"
  | .frame => "frame"

/-- The token in code. -/
def token : HostNumber → Text
  | .time => Token.time
  | .frame => Token.frame

end HostNumber

namespace Implementation

/-- What the names of a definition and of its implementation have in common. -/
def stem : Implementation → Text
  | .constant t => "constant_" ++ t.name
  | .arithmetic op t => op.name ++ "_" ++ t.name
  | .mix t => "mix_" ++ t.name
  | .geometric g => g.name ++ "_vector3"
  | .texcoord => "texcoord_vector2"
  | .hostNumber n => n.name ++ "_float"
  | .transformMatrix => "transformmatrix_vector3M3"
  | .image t => "image_" ++ t.name
  | .diffuseBsdf => "diffuse_bsdf"
  | .uniformEdf => "uniform_edf"
  | .surface _ => "surface"
  | .surfaceUnlit => "surface_unlit"

/-- The node definition that is implemented. -/
def definition (i : Implementation) : Text := "ND_" ++ i.stem

/-- The name; functions are defined once for each name. -/
def name : Implementation → Text
  | .surface .host => "IM_surface_maya"
  | i => "IM_" ++ i.stem

/-- The library file that defines the function, for an implementation that calls one. -/
def sourcePath? : Implementation → Option Text
  | .image t => some ("stdlib/genglsl/mx_image_" ++ t.name ++ ".glsl")
  | .diffuseBsdf => some "pbrlib/genglsl/mx_diffuse_bsdf.glsl"
  | .surface .rig => some "pbrlib/genglsl/mx_surface.glsl"
  | .surface .host => some "pbrlib/genglsl/ogsxml/mx_surface_maya.glsl"
  | .surfaceUnlit => some "pbrlib/genglsl/mx_surface_unlit.glsl"
  | _ => none

/-- What an implementation that calls a library function adds to the classification of its nodes. -/
def classification? (i : Implementation) : Option Classification :=
  match i with
  | .surfaceUnlit => some .unlit
  | i => i.sourcePath?.map fun _ => .empty

end Implementation

/-! ## The registry -/

/-- Implementations by node definition. -/
structure Registry where
  entries : List (Text × Implementation)
  deriving DecidableEq, Repr

namespace Registry

/-- Nothing is implemented. -/
def empty : Registry := ⟨[]⟩

/-- The implementation of a definition. -/
def lookup (r : Registry) (definition : Text) : Option Implementation := r.entries.lookup definition

/-- Writes an implementation into a list of entries, at the end for a new definition. -/
def setEntry (definition : Text) (i : Implementation) :
    List (Text × Implementation) → List (Text × Implementation)
  | [] => [(definition, i)]
  | e :: rest =>
    if e.1 = definition then (definition, i) :: rest else e :: setEntry definition i rest

/-- The registry with the implementation of one definition set. -/
def register (r : Registry) (definition : Text) (i : Implementation) : Registry :=
  ⟨setEntry definition i r.entries⟩

/-- The definitions in byte order. -/
def definitions (r : Registry) : List Text := Sorting.sort Text.le (r.entries.map Prod.fst)

/-- The types of constants. -/
def valueTypes : List DataType :=
  [.boolean, .integer, .float, .vector2, .vector3, .vector4, .color3, .color4, .matrix33, .matrix44]

/-- The types of arithmetic and of images. -/
def arithmeticTypes : List DataType := [.float, .vector2, .vector3, .vector4, .color3, .color4]

/-- The implementations that every target starts from. -/
def standardImplementations : List Implementation :=
  valueTypes.map .constant ++
  arithmeticTypes.flatMap (fun t =>
    [.arithmetic .add t, .arithmetic .subtract t, .arithmetic .multiply t, .mix t]) ++
  arithmeticTypes.map .image ++
  [.texcoord, .geometric .position, .geometric .normal, .geometric .tangent, .geometric .bitangent,
    .hostNumber .time, .hostNumber .frame, .transformMatrix, .diffuseBsdf, .uniformEdf,
    .surface .rig, .surfaceUnlit]

/-- The definitions that every target knows. -/
def standard : Registry := ⟨standardImplementations.map fun i => (i.definition, i)⟩

end Registry
end ShadeGraph
