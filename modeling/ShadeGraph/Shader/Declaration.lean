/-
  Declarations of variables.
-/
import ShadeGraph.Shader.Context
import ShadeGraph.Shader.Stage

namespace ShadeGraph

namespace Port

/-- What a port is initialised with: its value, or the zero of its type; nothing for a texture. -/
def initializer (format : FloatFormat) (p : Port) : Text :=
  if p.type = .filename then []
  else
    match p.value with
    | some v => v.literal format
    | none => p.type.glslDefault

/-- The declaration of a port with its own type. -/
def plainDeclaration (format : FloatFormat) (p : Port) (qualifier : Text) (assign : Bool) : Text :=
  Glsl.declaration qualifier p.type.glslName p.ident (if assign then p.initializer format else [])

/-- The type of a 3 by 3 matrix that is passed as a 4 by 4 one. -/
def wideMatrix : Text := "mat4"

/-- The declaration of a port, without a semicolon.  In a fragment only a constant may be a 3 by 3
matrix; any other one is declared as a 4 by 4 matrix, and without a value. -/
def declaration (style : DeclarationStyle) (format : FloatFormat) (p : Port) (qualifier : Text)
    (assign : Bool) : Text :=
  match style with
  | .plain => p.plainDeclaration format qualifier assign
  | .fragment =>
    if p.type = .matrix33 ∧ qualifier ≠ Glsl.constantQualifier then
      Glsl.declaration qualifier wideMatrix (p.ident ++ wideSuffix) []
    else p.plainDeclaration format qualifier assign

/-- The declaration of the output of a node, with the zero of its type. -/
def outputDeclaration (p : Port) : Text :=
  Glsl.declaration [] p.type.glslName p.ident p.type.glslDefault

end Port

namespace Stage

/-- Declares ports, one on each line, with a separator behind each. -/
def declareAll (s : Stage) (style : DeclarationStyle) (format : FloatFormat) (ports : List Port)
    (qualifier separator : Text) (assign : Bool) : Stage :=
  ports.foldl (fun s p =>
    ((s.beginLine.write (p.declaration style format qualifier assign)).write separator).endLine
      false) s

/-- Declares the output of a node. -/
def declareOutput (s : Stage) (p : Port) : Stage := s.line p.outputDeclaration true

/-- The types of closures and shaders. -/
def typeDefinitions : Text := Text.ofLines [
  "struct BSDF \x7b vec3 response; vec3 throughput; \x7d;",
  "#define EDF vec3",
  "struct surfaceshader \x7b vec3 color; vec3 transparency; \x7d;",
  "struct volumeshader \x7b vec3 color; vec3 transparency; \x7d;",
  "struct displacementshader \x7b vec3 offset; float scale; \x7d;",
  "struct lightshader \x7b vec3 intensity; vec3 direction; \x7d;",
  "#define material surfaceshader"]

/-- Writes the types of closures and shaders and an empty line. -/
def defineTypes (s : Stage) : Stage := (s.write typeDefinitions).newline

end Stage
end ShadeGraph
