/-
  What can go wrong while a shader is made.
-/
import ShadeGraph.Glsl.Swizzle
import ShadeGraph.Graph.Check
import ShadeGraph.Shader.Context
import ShadeGraph.Shader.Stage

namespace ShadeGraph

/-- Why no shader is made. -/
inductive ShaderError where
  /-- The context does not say how names or declarations are written. -/
  | incompleteContext
  | invalidGraph (e : GraphError)
  | noImplementation (node definition : Text)
  /-- The channels of the output do not make its type. -/
  | badSwizzle (output : Text) (e : SwizzleError)
  /-- The output is connected to a port of another type. -/
  | outputType (output : Text) (expected actual : DataType)
  /-- The variables of a node cannot be added. -/
  | variables (node : Text) (e : EmitError)
  /-- The function of a node cannot be defined. -/
  | definition (node : Text) (e : EmitError)
  /-- The call of a node cannot be written. -/
  | call (node : Text) (e : EmitError)
  /-- Shared code cannot be included. -/
  | code (e : EmitError)
  /-- The specular method has no code. -/
  | specularMethod (number : Int64)
  /-- A stage is misused. -/
  | stage (f : StageFault)
  /-- A node or an output that a checked graph has is not found. -/
  | unresolved
  /-- A stage that every shader has is not found. -/
  | noStage (name : Text)
  /-- A block that every pixel stage has is not found. -/
  | noBlock (name : Text)
  deriving DecidableEq, Repr

/-- The name of the option in the message about a specular method. -/
def specularOption : Text := "hardware specular environment method"

namespace ShaderError

/-- A message that starts with the name of a node. -/
def nodeMessage (node what : Text) (e : EmitError) : Option Text :=
  e.message?.map fun m => "shadergen: node " ++ node.quoted ++ what ++ ": " ++ m

/-- The message of an error; the ones that no caller can mend have none. -/
def message? : ShaderError → Option Text
  | .incompleteContext => some "shadergen: context missing syntax or emitter"
  | .invalidGraph e => some ("shadergen: " ++ e.message)
  | .noImplementation node wanted =>
    some ("shadergen: node " ++ node.quoted ++ ": no implementation for " ++ wanted.quoted)
  | .badSwizzle output e => some ("shadergen: output " ++ output.quoted ++ ": " ++ e.message)
  | .outputType output expected actual =>
    some ("shadergen: output " ++ output.quoted ++ " of type " ++ expected.name ++
      " connected to " ++ actual.name)
  | .variables node e => nodeMessage node [] e
  | .definition node e => nodeMessage node " definition" e
  | .call node e => nodeMessage node " call" e
  | .code e => e.message?
  | .specularMethod number =>
    some ("Invalid " ++ specularOption ++ " specified: '" ++ Text.ofInt number.toInt ++ "'")
  | .stage f => some f.message
  | .unresolved | .noStage _ | .noBlock _ => none

end ShaderError
end ShadeGraph
