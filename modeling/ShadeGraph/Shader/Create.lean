/-
  Making a shader from a shading graph, up to the point where code is written.

    1. The graph is checked, and the reserved names are taken.
    2. Every interface input becomes a public uniform.
    3. Every node gets its implementation, identifiers for its outputs, and the ports its inputs read.
       Textures that nobody binds are published, so that the host can bind them.
    4. The output socket is named and connected.
    5. Every node adds the variables it needs.
    6. A shader that takes light gets the uniforms of the environment.
-/
import ShadeGraph.Node.Code
import ShadeGraph.Shader.Error

namespace ShadeGraph

namespace Shader

/-! ## Interface inputs and nodes -/

/-- Ports for the interface inputs, with the names taken afterwards. -/
def namePorts (naming : Naming) : List InterfaceInput → IdentifierMap → List Port × IdentifierMap
  | [], ids => ([], ids)
  | i :: rest, ids =>
    let (ident, ids) := naming.variableName i.name i.type ids
    let (ports, ids) := namePorts naming rest ids
    (⟨i.name, i.type, ident, i.value⟩ :: ports, ids)

/-- Ports for the outputs of a node, with the names taken afterwards. -/
def nameOutputs (naming : Naming) (node : Text) :
    List NodeOutput → IdentifierMap → List Port × IdentifierMap
  | [], ids => ([], ids)
  | o :: rest, ids =>
    let (ident, ids) := naming.variableName (node ++ "_" ++ o.name) o.type ids
    let (ports, ids) := nameOutputs naming node rest ids
    (⟨o.name, o.type, ident, none⟩ :: ports, ids)

/-- What has been made of a graph so far. -/
structure Draft where
  identifiers : IdentifierMap
  /-- The public uniforms. -/
  published : VariableBlock
  /-- The nodes so far, in order. -/
  nodes : List ShaderNode

/-- The ports that the inputs of a node may read: interface inputs and outputs of earlier nodes. -/
structure Scope where
  interfaces : VariableBlock
  earlier : List ShaderNode

/-- The output of an earlier node; the first one for the empty name. -/
def Scope.output? (s : Scope) (node output : Text) : Option Port :=
  (s.earlier.find? (·.name == node)).bind fun n => n.outputOrFirst? output

/-- The port that one input reads, with the names and the published ports afterwards.  A texture that
nobody binds is published. -/
def connectInput (naming : Naming) (scope : Scope) (node : Text) (i : NodeInput) (ids : IdentifierMap)
    (published : VariableBlock) : Except ShaderError (Option Port × IdentifierMap × VariableBlock) :=
  if i.interface ≠ [] then
    .ok (scope.interfaces.find? i.interface, ids, published)
  else if i.node ≠ [] then
    match scope.output? i.node i.output with
    | none => .error .unresolved
    | some p => .ok (some p, ids, published)
  else if i.type = .filename then
    let name := node ++ "_" ++ i.name
    let (ident, ids) := naming.variableName name i.type ids
    let p : Port := ⟨name, i.type, ident, i.value⟩
    .ok (some (published.resolve p), ids, published.add p)
  else .ok (none, ids, published)

/-- The inputs of a node with the ports they read. -/
def connectInputs (naming : Naming) (scope : Scope) (node : Text) :
    List NodeInput → IdentifierMap → VariableBlock →
      Except ShaderError (List ShaderInput × IdentifierMap × VariableBlock)
  | [], ids, published => .ok ([], ids, published)
  | i :: rest, ids, published => do
    let (connection, ids, published) ← connectInput naming scope node i ids published
    let (inputs, ids, published) ← connectInputs naming scope node rest ids published
    return (⟨i.name, i.type, i.value, connection⟩ :: inputs, ids, published)

/-- The classification of a node: that of its first output, and what its implementation adds.  It is an
error to ask for it without outputs. -/
def classifyNode (outputs : List Port) (i : Implementation) : Except ShaderError Classification :=
  match outputs with
  | [] => .error .unresolved
  | first :: _ => .ok (first.type.classify.union (i.classification?.getD .empty))

/-- Adds a node to the draft. -/
def addNode (registry : Registry) (naming : Naming) (interfaces : VariableBlock) (d : Draft)
    (n : Node) : Except ShaderError Draft :=
  match registry.lookup n.definition with
  | none => .error (.noImplementation n.name n.definition)
  | some implementation => do
    let (outputs, ids) := nameOutputs naming n.name n.allOutputs d.identifiers
    let classification ← classifyNode outputs implementation
    let (inputs, ids, published) ←
      connectInputs naming ⟨interfaces, d.nodes⟩ n.name n.inputs ids d.published
    let node : ShaderNode :=
      { name := n.name, definition := n.definition, inputs, outputs, classification, implementation
        constant := none }
    return ⟨ids, published, d.nodes ++ [node]⟩

/-! ## The output socket -/

/-- The port that the output socket shows, and the node that it belongs to. -/
def socketSource (nodes : List ShaderNode) (s : Socket) : Except ShaderError (ShaderNode × Port) :=
  match nodes.find? (·.name == s.node) with
  | none => .error .unresolved
  | some n =>
    match n.outputOrFirst? s.nodeOutput with
    | none => .error .unresolved
    | some p => .ok (n, p)

/-- Checks that a port can be shown by the output socket. -/
def checkSocket (name : Text) (s : Socket) (p : Port) : Except ShaderError Unit :=
  if s.channels ≠ [] then
    match Swizzle.check p.type s.channels s.type with
    | .ok _ => .ok ()
    | .error e => .error (.badSwizzle name e)
  else if p.type = s.type then .ok ()
  else .error (.outputType name s.type p.type)

/-- The name of the output socket. -/
def socketName (s : Socket) : Text := if s.name = [] then defaultOutput else s.name

/-- The output socket and the classification of the graph. -/
def connectSocket (nodes : List ShaderNode) (s : Socket) (ident : Text) :
    Except ShaderError (ShaderSocket × Classification) :=
  let port : Port := ⟨socketName s, s.type, ident, s.value⟩
  if s.isConnected then do
    let (n, p) ← socketSource nodes s
    checkSocket (socketName s) s p
    return (⟨port, some p, s.channels⟩, n.classification)
  else .ok (⟨port, none, s.channels⟩, .texture)

/-! ## Variables and lighting -/

/-- Adds the variables of the nodes, one after the other. -/
def createAllVariables (naming : Naming) :
    List ShaderNode → Shader → Except ShaderError (List ShaderNode × Shader)
  | [], s => .ok ([], s)
  | n :: rest, s =>
    match n.createVariables naming s with
    | .error f => .error (.variables n.name f.error)
    | .ok (n, s) => do
      let (nodes, s) ← createAllVariables naming rest s
      return (n :: nodes, s)

/-- The uniforms of the environment.  The albedo table is read only by the sampled method. -/
def lightingUniforms (o : Options) : List Port :=
  let port := VariableBlock.plainPort
  [port Token.envMatrix .matrix44 none,
    port Token.envRadiance .filename none,
    port Token.envRadianceMips .integer (some (.integer 1)),
    port Token.envRadianceSamples .integer (some (.integer 16)),
    port Token.envIrradiance .filename none] ++
  if o.specular = .sampled ∧ o.albedo = .table then [port Token.albedoTable .filename none] else []

/-- Adds ports to a uniform block of the pixel stage, which must be there. -/
def addUniforms (s : Shader) (block : Text) (ports : List Port) : Except ShaderError Shader :=
  match s.stage? pixelStage with
  | none => .error (.noStage pixelStage)
  | some ps =>
    match ps.uniformBlock? block with
    | none => .error (.noBlock block)
    | some _ => .ok (s.setStage (ports.foldl (fun ps p => ps.addUniform block p) ps))

/-- The names through which the blocks of the pixel stage are reached. -/
def privateInstance : Text := "u_prv"

@[inherit_doc privateInstance]
def publicInstance : Text := "u_pub"

/-- The pixel stage with its blocks, of which the public uniforms are given. -/
def newPixelStage (published : VariableBlock) : Stage :=
  { Stage.empty pixelStage with
    uniforms := [.empty BlockName.privateUniforms privateInstance, published]
    inputs := [.empty BlockName.vertexData Token.vertexData] }

/-! ## The shader -/

/-- Makes a shader with a pixel stage from a checked graph; no code is written. -/
def ofGraph (registry : Registry) (naming : Naming) (name : Text) (g : Graph) (c : Context) :
    Except ShaderError Shader := do
  let ids := c.reserved.foldl IdentifierMap.reserve .reserved
  let (ports, ids) := namePorts naming g.inputs ids
  let interfaces := ports.foldl VariableBlock.add (.empty BlockName.publicUniforms publicInstance)
  let draft ← g.nodes.foldlM (addNode registry naming interfaces) ⟨ids, interfaces, []⟩
  let (ident, ids) := naming.variableName (socketName g.output) g.output.type draft.identifiers
  let (socket, classification) ← connectSocket draft.nodes g.output ident
  let graph : ShaderGraph :=
    { name := g.name, inputs := ports, nodes := draft.nodes, socket, classification
      identifiers := ids }
  let (nodes, shader) ←
    createAllVariables naming draft.nodes ⟨name, graph, [newPixelStage draft.published]⟩
  let shader := { shader with graph := { shader.graph with nodes } }
  if graph.requiresLighting then
    shader.addUniforms BlockName.privateUniforms (lightingUniforms c.options)
  else .ok shader

/-- Makes a shader with a pixel stage; no code is written. -/
def create (registry : Registry) (name : Text) (graph : Option Graph) (context : Option Context) :
    Except ShaderError Shader :=
  match context with
  | none => .error .incompleteContext
  | some c =>
    match c.dialect, c.declarations with
    | some d, some _ =>
      match Graph.checkGiven graph with
      | .error e => .error (.invalidGraph e)
      | .ok g => ofGraph registry d.naming name g c
    | _, _ => .error .incompleteContext

/-! ## Code of all nodes -/

/-- Defines the functions of nodes, each implementation once; `defined` holds those already done. -/
def defineFunctions (c : Context) :
    List ShaderNode → (defined : List Text) → Stage → Except (Failed ShaderError Stage) Stage
  | [], _, stage => .ok stage
  | n :: rest, defined, stage =>
    let name := n.implementation.name
    if defined.contains name then defineFunctions c rest defined stage
    else
      match n.emitDefinition c stage with
      | .error f => .error ⟨.definition n.name f.error, f.left⟩
      | .ok stage => defineFunctions c rest (name :: defined) stage

/-- Writes the calls of nodes in evaluation order. -/
def callFunctions (c : Context) : List ShaderNode → Stage → Except (Failed ShaderError Stage) Stage
  | [], stage => .ok stage
  | n :: rest, stage =>
    match n.emitCall c stage with
    | .error f => .error ⟨.call n.name f.error, f.left⟩
    | .ok stage => callFunctions c rest stage

end Shader
end ShadeGraph
