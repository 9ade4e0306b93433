/-
  Shaders: the graph they are made from, with identifiers, and their stages.

  The graph of a shader is a copy of a shading graph in which every port has its identifier, every bound
  input holds the port it reads, and every node its implementation.
-/
import ShadeGraph.Glsl.Identifier
import ShadeGraph.Node.Implementation
import ShadeGraph.Shader.Stage

namespace ShadeGraph

/-- An input of a node of a shader. -/
structure ShaderInput where
  name : Text
  type : DataType
  value : Option Value
  /-- The port that the input reads. -/
  connection : Option Port
  deriving DecidableEq, Repr

/-- A node of a shader. -/
structure ShaderNode where
  name : Text
  definition : Text
  inputs : List ShaderInput
  outputs : List Port
  classification : Classification
  implementation : Implementation
  /-- The constant that holds the value of a constant node. -/
  constant : Option Port
  deriving DecidableEq, Repr

namespace ShaderNode

/-- The first input of a name. -/
def input? (n : ShaderNode) (name : Text) : Option ShaderInput := n.inputs.find? (·.name == name)

/-- The first output of a name. -/
def output? (n : ShaderNode) (name : Text) : Option Port := n.outputs.find? (·.name == name)

/-- The output of a name; the first one for the empty name. -/
def outputOrFirst? (n : ShaderNode) (name : Text) : Option Port :=
  if name = [] then n.outputs.head? else n.output? name

/-- Adds an input at the end. -/
def addInput (n : ShaderNode) (i : ShaderInput) : ShaderNode := { n with inputs := n.inputs ++ [i] }

end ShaderNode

/-- The output socket of a shader. -/
structure ShaderSocket where
  port : Port
  /-- The port that the socket shows. -/
  connection : Option Port
  /-- A swizzle of that port; empty for none. -/
  channels : Text
  deriving DecidableEq, Repr

/-- The graph of a shader. -/
structure ShaderGraph where
  name : Text
  inputs : List Port
  nodes : List ShaderNode
  socket : ShaderSocket
  classification : Classification
  identifiers : IdentifierMap
  deriving DecidableEq, Repr

namespace ShaderGraph

/-- A graph without nodes. -/
def empty (ids : IdentifierMap) : ShaderGraph :=
  { name := [], inputs := [], nodes := [], socket := ⟨⟨[], .none, [], none⟩, none, []⟩
    classification := .empty, identifiers := ids }

/-- The first node of a name. -/
def node? (g : ShaderGraph) (name : Text) : Option ShaderNode := g.nodes.find? (·.name == name)

/-- Whether the output is a scattering distribution or a surface that takes light. -/
def requiresLighting (g : ShaderGraph) : Bool :=
  g.classification.has .bsdf ||
    (g.classification.has (Classification.shader.union .surface) && !g.classification.has .unlit)

end ShaderGraph

/-- A shader: a graph and its stages. -/
structure Shader where
  name : Text
  graph : ShaderGraph
  stages : List Stage
  deriving DecidableEq, Repr

namespace Shader

/-- The stage of a name. -/
def stage? (s : Shader) (name : Text) : Option Stage := s.stages.find? (·.name == name)

/-- Makes sure that there is a stage of a name. -/
def createStage (s : Shader) (name : Text) : Shader :=
  if (s.stage? name).isSome then s else { s with stages := s.stages ++ [.empty name] }

/-- Puts a stage in the place of the first stage of its name. -/
def replaceStage (stage : Stage) : List Stage → List Stage
  | [] => []
  | s :: rest => if s.name = stage.name then stage :: rest else s :: replaceStage stage rest

/-- The shader with one stage changed. -/
def setStage (s : Shader) (stage : Stage) : Shader :=
  { s with stages := replaceStage stage s.stages }

/-- The code of a stage; empty without such a stage. -/
def sourceCode (s : Shader) (name : Text) : Text := ((s.stage? name).map Stage.code).getD []

/-- The shader with its taken names changed. -/
def setIdentifiers (s : Shader) (ids : IdentifierMap) : Shader :=
  { s with graph := { s.graph with identifiers := ids } }

end Shader
end ShadeGraph
