/-
  The code of nodes: function definitions and calls.

  A node without a library file becomes one line that declares its output with an expression.  A node
  with one becomes two: its output is declared with a zero, then the function is called with the operands
  of its inputs and the output as its last argument.
-/
import ShadeGraph.Node.Variables
import ShadeGraph.Shader.Declaration
import ShadeGraph.Shader.Include

namespace ShadeGraph

/-- An input of a library function: its name, its type, and the text to fall back on; the zero of the
type stands for an empty text. -/
structure Parameter where
  name : Text
  type : DataType
  fallback : Text

namespace Implementation

/-- The inputs of the library functions, in the order of their parameters. -/
def parameters : Implementation → List Parameter
  | .image t => [⟨"file", .filename, []⟩, ⟨"default", t, []⟩,
      ⟨"texcoord", .vector2, Token.vertexData ++ "." ++ ShaderNode.firstTexcoord⟩]
  | .diffuseBsdf => [⟨"weight", .float, "1.0"⟩, ⟨"color", .color3, "vec3(0.18)"⟩]
  | .surface _ => [⟨"bsdf", .bsdf, []⟩, ⟨"edf", .edf, []⟩, ⟨"opacity", .float, "1.0"⟩]
  | .surfaceUnlit => [⟨"emission", .float, "1.0"⟩, ⟨"emission_color", .color3, "vec3(1.0)"⟩,
      ⟨"opacity", .float, "1.0"⟩]
  | _ => []

end Implementation

/-- A number as a value of a type with several components. -/
def splat (t : DataType) (number : Text) : Text :=
  if t.size ≤ 1 then number else Glsl.construct t.glslName number

namespace ShaderNode

/-- A field of the vertex data, as code of a stage reaches it. -/
def vertexField (stage : Stage) (field : Text) : Text :=
  match stage.inputBlock? BlockName.vertexData with
  | none => field
  | some b => if b.instanceName = [] then field else b.instanceName ++ "." ++ field

/-- An operand in code. -/
def operandText (n : ShaderNode) (format : FloatFormat) (name fallback : Text) : Text :=
  (n.operand name fallback).render format

/-- The expression of a node that is written in place. -/
def expression (n : ShaderNode) (format : FloatFormat) (stage : Stage) : Text :=
  match n.implementation with
  | .constant t =>
    match n.constant with
    | some p => p.ident
    | none => n.operandText format valueInput t.glslDefault
  | .arithmetic op t =>
    n.operandText format "in1" (splat t "0.0") ++ " " ++ op.operator ++ " " ++
      n.operandText format "in2" (splat t op.identity)
  | .mix t =>
    "mix(" ++ n.operandText format "bg" (splat t "0.0") ++ ", " ++
      n.operandText format "fg" (splat t "0.0") ++ ", " ++ n.operandText format "mix" "0.0" ++ ")"
  | .geometric g =>
    let field := vertexField stage (n.geometricToken g)
    if g.isDirection then "normalize(" ++ field ++ ")" else field
  | .texcoord => vertexField stage n.texcoordToken
  | .hostNumber h => h.token
  | .transformMatrix =>
    n.operandText format "mat" "mat3(1.0)" ++ " * " ++ n.operandText format "in" "vec3(0.0)"
  | .uniformEdf => n.operandText format "color" "vec3(1.0)"
  | .image _ | .diffuseBsdf | .surface _ | .surfaceUnlit => []

/-- The argument of a parameter. -/
def argument (n : ShaderNode) (format : FloatFormat) (p : Parameter) : Text :=
  n.operandText format p.name (if p.fallback = [] then p.type.glslDefault else p.fallback)

/-- The call of a library function. -/
def callText (n : ShaderNode) (format : FloatFormat) (function : Text) (out : Port) : Text :=
  function ++ "(" ++
    Text.joinWith ", " (n.implementation.parameters.map (n.argument format) ++ [out.ident]) ++ ")"

/-- The name of the function that a library file defines. -/
def functionName (c : Context) (path : Text) : Except EmitError Text :=
  match c.includer with
  | none => .error .noLibrary
  | some libraries =>
    match libraries.read (c.resolve path) with
    | .error e => .error (.noSource e)
    | .ok source =>
      match Source.functionName source with
      | .error e => .error (.noFunction path e)
      | .ok name => .ok name

/-- Writes the function that a node calls, if it calls one. -/
def emitDefinition (n : ShaderNode) (c : Context) (stage : Stage) :
    Except (Failed EmitError Stage) Stage :=
  match n.implementation.sourcePath? with
  | none => .ok stage
  | some path =>
    if c.declarations.isNone then .error ⟨.missingPart, stage⟩
    else (c.expandInclude path stage).map Stage.newline

/-- Writes the code that computes the output of a node. -/
def emitCall (n : ShaderNode) (c : Context) (stage : Stage) :
    Except (Failed EmitError Stage) Stage :=
  match n.implementation.sourcePath? with
  | none =>
    match c.dialect, n.outputs.head? with
    | none, _ => .error ⟨.missingPart, stage⟩
    | _, none => .error ⟨.noOutput, stage⟩
    | some d, some out =>
      .ok (stage.line (out.type.glslName ++ " " ++ out.ident ++ " = " ++
        n.expression d.format stage) true)
  | some path =>
    match functionName c path with
    | .error e => .error ⟨e, stage⟩
    | .ok function =>
      match c.dialect, n.outputs.head? with
      | none, _ => .error ⟨.missingPart, stage⟩
      | _, none => .error ⟨.noOutput, stage⟩
      | some d, some out =>
        .ok ((stage.declareOutput out).line (n.callText d.format function out) true)

end ShaderNode
end ShadeGraph
