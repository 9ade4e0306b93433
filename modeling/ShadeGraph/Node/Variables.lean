/-
  The variables that nodes need.

  Before code is written, every node adds what it reads to the blocks of the pixel stage: constants,
  vertex data, uniforms of the host, and textures that nobody has bound.
-/
import ShadeGraph.Node.Operand
import ShadeGraph.Shader.Context

namespace ShadeGraph

namespace Shader

/-- Adds a port to the vertex data of the pixel stage, named by its token. -/
def addVertexData (s : Shader) (token : Text) (t : DataType) : Except (Failed EmitError Shader) Shader :=
  match s.stage? pixelStage with
  | none => .error ⟨.noPixelStage, s⟩
  | some ps =>
    if (ps.inputBlock? BlockName.vertexData).isNone then .error ⟨.noVertexData, s⟩
    else .ok (s.setStage (ps.addInput BlockName.vertexData (VariableBlock.plainPort token t none)))

/-- Adds a uniform that the host fills in, named by its token. -/
def addPrivateUniform (s : Shader) (token : Text) (t : DataType) :
    Except (Failed EmitError Shader) Shader :=
  match s.stage? pixelStage with
  | none => .error ⟨.noPixelStage, s⟩
  | some ps =>
    if (ps.uniformBlock? BlockName.privateUniforms).isNone then .error ⟨.noPrivateUniforms, s⟩
    else
      .ok (s.setStage
        (ps.addUniform BlockName.privateUniforms (VariableBlock.plainPort token t none)))

end Shader

namespace ShaderNode

/-- A node and the shader that it belongs to. -/
abbrev Placed := ShaderNode × Shader

/-- A step on the shader alone. -/
def withShader (n : ShaderNode) :
    Except (Failed EmitError Shader) Shader → Except (Failed EmitError Placed) Placed
  | .ok s => .ok (n, s)
  | .error f => .error ⟨f.error, (n, f.left)⟩

/-- The input that a constant takes its value from. -/
def valueInput : Text := "value"

/-- Publishes the value of a constant node as a constant, unless the node reads it from elsewhere. -/
def createConstant (n : ShaderNode) (naming : Naming) (t : DataType) (s : Shader) :
    Except (Failed EmitError Placed) Placed :=
  let input := n.input? valueInput
  if (input.bind ShaderInput.connection).isSome then .ok (n, s)
  else
    match s.stage? pixelStage with
    | none => .error ⟨.noPixelStage, (n, s)⟩
    | some ps =>
      let name := n.name ++ "_value"
      let (ident, ids) := naming.variableName name t s.graph.identifiers
      let p : Port := ⟨name, t, ident, input.bind ShaderInput.value⟩
      .ok ({ n with constant := some (ps.constants.resolve p) },
        (s.setStage (ps.addConstant p)).setIdentifiers ids)

/-- Publishes a texture for an input that the node lacks. -/
def publishTexture (n : ShaderNode) (naming : Naming) (input : Text) (s : Shader) :
    Except (Failed EmitError Placed) Placed :=
  match s.stage? pixelStage with
  | none => .error ⟨.noPixelStage, (n, s)⟩
  | some ps =>
    match ps.uniformBlock? BlockName.publicUniforms with
    | none => .error ⟨.noPublicUniforms, (n, s)⟩
    | some block =>
      let name := n.name ++ "_" ++ input
      let (ident, ids) := naming.variableName name .filename s.graph.identifiers
      let p : Port := ⟨name, .filename, ident, none⟩
      .ok (n.addInput ⟨input, .filename, none, some (block.resolve p)⟩,
        (s.setStage (ps.addUniform BlockName.publicUniforms p)).setIdentifiers ids)

/-- Whether the input of a name is connected. -/
def isConnected (n : ShaderNode) (input : Text) : Bool :=
  ((n.input? input).bind ShaderInput.connection).isSome

/-- The texture coordinates that images read when nothing else is connected. -/
def firstTexcoord : Text := Token.texcoord ++ "_0"

/-- The variables of an image: its texture, and texture coordinates. -/
def createImage (n : ShaderNode) (naming : Naming) (s : Shader) :
    Except (Failed EmitError Placed) Placed := do
  let (n, s) ← if (n.input? "file").isNone then n.publishTexture naming "file" s else .ok (n, s)
  if n.isConnected "texcoord" then return (n, s)
  n.withShader (s.addVertexData firstTexcoord .vector2)

/-- The variables of a lit surface. -/
def createSurface (s : Shader) : Except (Failed EmitError Shader) Shader := do
  let s ← s.addVertexData Token.positionWorld .vector3
  let s ← s.addVertexData Token.normalWorld .vector3
  s.addPrivateUniform Token.viewPosition .vector3

/-- The token that a geometric node reads: the one of object space if the node asks for it. -/
def geometricToken (n : ShaderNode) (g : Geometric) : Text :=
  if ((n.input? "space").bind ShaderInput.value).any (·.text == Text.ofString "object") then
    g.objectToken
  else g.worldToken

/-- The token of the texture coordinates that a node asks for by number. -/
def texcoordToken (n : ShaderNode) : Text :=
  let index : Int :=
    match (n.input? "index").bind ShaderInput.value with
    | some v => v.asInt
    | none => 0
  Token.texcoord ++ "_" ++ Text.ofInt index

/-- Adds the variables that a node needs. -/
def createVariables (n : ShaderNode) (naming : Naming) (s : Shader) :
    Except (Failed EmitError Placed) Placed :=
  match n.implementation with
  | .constant t => n.createConstant naming t s
  | .geometric g => n.withShader (s.addVertexData (n.geometricToken g) .vector3)
  | .texcoord => n.withShader (s.addVertexData n.texcoordToken .vector2)
  | .hostNumber h => n.withShader (s.addPrivateUniform h.token .float)
  | .image _ => n.createImage naming s
  | .surface _ => n.withShader (createSurface s)
  | _ => .ok (n, s)

end ShaderNode
end ShadeGraph
