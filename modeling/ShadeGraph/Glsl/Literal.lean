/-
  GLSL spellings of types and values, and declarations.
-/
import ShadeGraph.Value

namespace ShadeGraph

namespace DataType

/-- The GLSL type; a string has no representation of its own and is an `int`. -/
def glslName : DataType → Text
  | .none => "void"
  | .boolean => "bool"
  | .integer => "int"
  | .float => "float"
  | .vector2 => "vec2"
  | .vector3 => "vec3"
  | .vector4 => "vec4"
  | .color3 => "vec3"
  | .color4 => "vec4"
  | .matrix33 => "mat3"
  | .matrix44 => "mat4"
  | .string => "int"
  | .filename => "sampler2D"
  | .bsdf => "BSDF"
  | .edf => "EDF"
  | .surfaceShader => "surfaceshader"
  | .material => "material"
  | .reserved _ => "void"

/-- The GLSL expression of the type's zero; empty when there is none. -/
def glslDefault : DataType → Text
  | .none => ""
  | .boolean => "false"
  | .integer => "0"
  | .float => "0.0"
  | .vector2 => "vec2(0.0)"
  | .vector3 => "vec3(0.0)"
  | .vector4 => "vec4(0.0)"
  | .color3 => "vec3(0.0)"
  | .color4 => "vec4(0.0)"
  | .matrix33 => "mat3(1.0)"
  | .matrix44 => "mat4(1.0)"
  | .string => "0"
  | .filename => ""
  | .bsdf => "BSDF(vec3(0.0), vec3(1.0))"
  | .edf => "EDF(0.0)"
  | .surfaceShader => "surfaceshader(vec3(0.0), vec3(0.0))"
  | .material => "material(vec3(0.0), vec3(0.0))"
  | .reserved _ => ""

end DataType

namespace Glsl

/-- Float literals with `sep` between them. -/
def floats (format : FloatFormat) (sep : Text) (xs : List Binary32) : Text :=
  Text.joinWith sep (xs.map (Binary32.literal format))

/-- The components of a `d` by `d` matrix column by column, from those row by row. -/
def columns (d : Nat) (xs : List Binary32) : List Binary32 :=
  (List.range (d * d)).map fun k => xs.getD (k % d * d + k / d) .zero

/-- A constructor call of a type. -/
def construct (type arguments : Text) : Text := type ++ "(" ++ arguments ++ ")"

/-- The keyword of a uniform declaration. -/
def uniformQualifier : Text := "uniform"

/-- The keyword of a constant declaration. -/
def constantQualifier : Text := "const"

/-- A variable declaration without its semicolon: `[qualifier ]type name[ = value]`. -/
def declaration (qualifier type name value : Text) : Text :=
  let front : Text := if qualifier = [] then [] else qualifier ++ " "
  let assignment : Text := if value = [] then [] else " = " ++ value
  front ++ type ++ " " ++ name ++ assignment

/-- A macro definition, a line of its own. -/
def define (name value : Text) : Text := "#define " ++ name ++ " " ++ value ++ "\n"

/-- A macro definition of an integer. -/
def defineInt (name : Text) (value : Int) : Text := define name (Text.ofInt value)

end Glsl

/-- The GLSL literal of a value; the type's default when it has no literal. -/
def Value.literal (format : FloatFormat) (v : Value) : Text :=
  match v.type with
  | .boolean => Value.flagText v.flag
  | .integer => Text.ofInt v.asInt
  | .float => v.asFloat.literal format
  | .vector2 | .vector3 | .vector4 | .color3 | .color4 =>
    Glsl.construct v.type.glslName (Glsl.floats format ", " v.components)
  | .matrix33 => Glsl.construct "mat3" (Glsl.floats format ", " (Glsl.columns 3 v.components))
  | .matrix44 => Glsl.construct "mat4" (Glsl.floats format ", " (Glsl.columns 4 v.components))
  | t => t.glslDefault

end ShadeGraph
