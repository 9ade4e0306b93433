/-
  Expressions as colors of three or four components.

  Numbers are repeated, missing components are zero, and alpha is one.  A type that is no color at all
  becomes black.
-/
import ShadeGraph.DataType

namespace ShadeGraph.Color

/-- An expression of a type as three components. -/
def toVec3 (t : DataType) (e : Text) : Text :=
  if t.isFloat3 then e
  else if t.isFloat2 then "vec3(" ++ e ++ ", 0.0)"
  else if t.isFloat4 then e ++ ".xyz"
  else if t = .float ∨ t = .integer then "vec3(" ++ e ++ ", " ++ e ++ ", " ++ e ++ ")"
  else if t.isClosure then "vec3(" ++ e ++ ")"
  else "vec3(0.0, 0.0, 0.0)"

/-- An expression of a type as three components and an alpha. -/
def toVec4 (t : DataType) (e : Text) : Text :=
  if t.isFloat4 then e
  else if t.isFloat3 then "vec4(" ++ e ++ ", 1.0)"
  else if t.isFloat2 then "vec4(" ++ e ++ ", 0.0, 1.0)"
  else if t = .float ∨ t = .integer then
    "vec4(" ++ e ++ ", " ++ e ++ ", " ++ e ++ ", 1.0)"
  else if t.isClosure then "vec4(" ++ e ++ ", 1.0)"
  else "vec4(0.0, 0.0, 0.0, 1.0)"

end ShadeGraph.Color
