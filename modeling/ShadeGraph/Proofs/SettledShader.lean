/-
  Shaders of settled graphs.

  Writing a graph and reading it again settles its values: a NaN loses its payload and a boolean its
  numbers.  Code shows neither of them.

  1. The literal of a value, and the integer of one that is no boolean, are those of the settled value.
  2. Every step of making a shader commutes with settling, because blocks and nodes are searched by name.
     The one step that reads a number which is written nowhere is the index of texture coordinates.
  3. Every step of writing code commutes with settling, because ports come into code by identifiers, types
     and literals.  So a settled graph gives the settled shader, with the same code (`generate_settled`).
-/
import ShadeGraph.Proofs.Creation
import ShadeGraph.Proofs.GraphCodec
import ShadeGraph.Proofs.StageFrame

namespace ShadeGraph

/-! ## Values -/

namespace Binary32

/-- Only numbers that are not finite are settled, and they stay so. -/
theorem isFinite_settled (x : Binary32) : x.settled.isFinite = x.isFinite := by
  rw [settled]
  split
  · next hnan =>
    have hmagnitude : infinityMagnitude < x.magnitude := of_decide_eq_true hnan
    have hinfinite : ¬ x.magnitude < infinityMagnitude := by omega
    rw [isFinite, isFinite, decide_eq_false hinfinite]
    rfl
  · rfl

/-- A settled number differs from the number only if neither is finite. -/
theorem settled_of_finite {x : Binary32} (h : x.isFinite = true) : x.settled = x := by
  refine settled_of_not_nan ?_
  have hmagnitude : x.magnitude < infinityMagnitude := of_decide_eq_true h
  exact decide_eq_false (by omega)

/-- The number that a literal shows: those that are not finite are shown as zero, with or without a payload. -/
theorem literalValue_settled (x : Binary32) : x.settled.literalValue = x.literalValue := by
  rw [literalValue, literalValue, isFinite_settled]
  split
  · next h => exact settled_of_finite h
  · rfl

theorem literal_settled (format : FloatFormat) (x : Binary32) : x.settled.literal format = x.literal format := by
  simp only [literal, fixedLiteral, literalValue_settled]

/-- Numbers that are not finite have one integer for all, so the payload of a NaN does not matter. -/
theorem toInt_settled (x : Binary32) : x.settled.toInt = x.toInt := by
  cases h : x.isFinite with
  | true => rw [settled_of_finite h]
  | false => simp only [toInt, isFinite_settled, h, Bool.not_false, if_true]

theorem toInt_zero : zero.toInt = 0 := by decide

end Binary32

namespace Value

/-- The first number of a value is settled with the value.  A boolean loses its numbers and is left out here. -/
theorem asFloat_settled {v : Value} (h : ¬ v.type = .boolean) : v.settled.asFloat = v.asFloat.settled := by
  rw [asFloat, asFloat, numbers_settled, if_neg h]
  cases v.numbers with
  | nil => rfl
  | cons x xs => rfl

/-- A value that is no boolean, or one without a number, is the same integer as before. -/
theorem asInt_settled {v : Value} (h : v.type = .boolean → v.asInt = 0) : v.settled.asInt = v.asInt := by
  by_cases hboolean : v.type = .boolean
  · rw [h hboolean, asInt, asFloat, numbers_settled, if_pos hboolean]
    exact Binary32.toInt_zero
  · rw [asInt, asFloat_settled hboolean, Binary32.toInt_settled, asInt]

theorem floats_settled (format : FloatFormat) (sep : Text) (xs : List Binary32) :
    Glsl.floats format sep (xs.map Binary32.settled) = Glsl.floats format sep xs := by
  rw [Glsl.floats, Glsl.floats, List.map_map]
  congr 1
  exact List.map_congr_left fun x _ => x.literal_settled format

/-- Turning rows into columns moves numbers and does not look at them. -/
theorem columns_settled (d : Nat) (xs : List Binary32) :
    Glsl.columns d (xs.map Binary32.settled) = (Glsl.columns d xs).map Binary32.settled := by
  rw [Glsl.columns, Glsl.columns, List.map_map]
  refine List.map_congr_left fun k _ => ?_
  rw [Function.comp, List.getD_eq_getElem?_getD, List.getD_eq_getElem?_getD, List.getElem?_map]
  cases xs[k % d * d + k / d]? with
  | none => rfl
  | some x => rfl

/-- **The literal of a value does not change.** -/
theorem literal_settled (format : FloatFormat) (v : Value) : v.settled.literal format = v.literal format := by
  have hcomponents : ¬ v.type = .boolean → v.settled.components = v.components.map Binary32.settled := by
    intro h
    rw [components, components, if_neg h, if_neg (show ¬ v.settled.type = .boolean from h), numbers_settled,
      if_neg h]
  have htype : v.settled.type = v.type := rfl
  unfold literal
  rw [htype]
  cases h : v.type with
  | boolean => rfl
  | integer => simp only [asInt_settled fun hboolean => absurd (h.symm.trans hboolean) (by decide)]
  | float => simp only [asFloat_settled (by rw [h]; decide), Binary32.literal_settled]
  | vector2 | vector3 | vector4 | color3 | color4 =>
    simp only [hcomponents (by rw [h]; decide), floats_settled]
  | matrix33 | matrix44 => simp only [hcomponents (by rw [h]; decide), columns_settled, floats_settled]
  | _ => rfl

end Value

/-! ## Ports, blocks and stages -/

/-- The port with its value settled. -/
def Port.settled (p : Port) : Port := { p with value := p.value.map Value.settled }

/-- The block with all values settled. -/
def VariableBlock.settled (b : VariableBlock) : VariableBlock := { b with ports := b.ports.map Port.settled }

/-- The stage with all values settled. -/
def Stage.settled (s : Stage) : Stage :=
  { s with
    constants := s.constants.settled
    uniforms := s.uniforms.map VariableBlock.settled
    inputs := s.inputs.map VariableBlock.settled }

namespace Port

/-- What a port is set to in code is a literal, and literals do not change. -/
theorem initializer_settled (format : FloatFormat) (p : Port) :
    p.settled.initializer format = p.initializer format := by
  rw [initializer, initializer]
  show (if p.type = .filename then _ else _) = _
  split
  · rfl
  · cases hvalue : p.value with
    | none => simp only [settled, hvalue, Option.map_none]
    | some v => simp only [settled, hvalue, Option.map_some, Value.literal_settled]

/-- A declaration shows the identifier, the type and the initializer of a port. -/
theorem declaration_settled (style : DeclarationStyle) (format : FloatFormat) (p : Port) (qualifier : Text)
    (assign : Bool) :
    p.settled.declaration style format qualifier assign = p.declaration style format qualifier assign := by
  simp only [declaration, plainDeclaration, initializer_settled]
  rfl

end Port

namespace VariableBlock

variable (b : VariableBlock)

/-- A block looks for the name of a port only, so a port can be settled before it is added or after. -/
theorem add_settled (p : Port) : b.settled.add p.settled = (b.add p).settled :=
  add_mapPorts (f := Port.settled) (fun _ => rfl) b p

/-- The port that a block has under a name is the same one, settled. -/
theorem resolve_settled (p : Port) : b.settled.resolve p.settled = (b.resolve p).settled :=
  resolve_mapPorts (f := Port.settled) (fun _ => rfl) b p

end VariableBlock

namespace Stage

/-- Blocks are found by name. -/
theorem findBlock_settled (blocks : List VariableBlock) (name : Text) :
    findBlock (blocks.map VariableBlock.settled) name = (findBlock blocks name).map VariableBlock.settled := by
  rw [findBlock, List.find?_map]
  rfl

/-- Only the block of that name gets the port, settled or not. -/
theorem addToBlock_settled (name : Text) (p : Port) (blocks : List VariableBlock) :
    addToBlock name p.settled (blocks.map VariableBlock.settled) =
      (addToBlock name p blocks).map VariableBlock.settled := by
  induction blocks with
  | nil => rfl
  | cons b rest ih =>
    rw [List.map_cons, addToBlock, addToBlock, VariableBlock.add_settled, ih]
    show (if b.name = name then _ else _) = _
    split <;> rfl

variable (s : Stage)

theorem inputBlock?_settled (name : Text) :
    s.settled.inputBlock? name = (s.inputBlock? name).map VariableBlock.settled := findBlock_settled _ _

theorem uniformBlock?_settled (name : Text) :
    s.settled.uniformBlock? name = (s.uniformBlock? name).map VariableBlock.settled := findBlock_settled _ _

/-- A stage takes a settled input port as it takes the port. -/
theorem addInput_settled (block : Text) (p : Port) :
    s.settled.addInput block p.settled = (s.addInput block p).settled := by
  simp only [addInput, settled, addToBlock_settled]

/-- A stage takes a settled uniform as it takes the uniform. -/
theorem addUniform_settled (block : Text) (p : Port) :
    s.settled.addUniform block p.settled = (s.addUniform block p).settled := by
  simp only [addUniform, settled, addToBlock_settled]

theorem addConstant_settled (p : Port) : s.settled.addConstant p.settled = (s.addConstant p).settled := by
  simp only [addConstant, settled, VariableBlock.add_settled]

/-- Replacing tokens reads the code of a stage and nothing else, also to find out whether there is a token. -/
theorem replaceTokens_settled (ts : TokenTable) :
    s.settled.replaceTokens ts = (s.replaceTokens ts).map settled := by
  rw [replaceTokens, replaceTokens]
  show (if s.replaced then _ else if ts.entries.isEmpty || !s.holdsToken then _ else _) = _
  split_ifs <;> rfl

/-- The ports that are read from a settled block are settled. -/
theorem requirePorts_settled (name : Text) (block : Option VariableBlock) :
    FragmentGenerator.requirePorts name (block.map VariableBlock.settled) =
      (FragmentGenerator.requirePorts name block).map (List.map Port.settled) := by
  cases block <;> rfl

theorem readVertex_settled : FragmentGenerator.readVertex s.settled =
    (FragmentGenerator.readVertex s).map (List.map Port.settled) := by
  rw [FragmentGenerator.readVertex, inputBlock?_settled, requirePorts_settled]
  rfl

theorem readPublic_settled : FragmentGenerator.readPublic s.settled =
    (FragmentGenerator.readPublic s).map (List.map Port.settled) := by
  rw [FragmentGenerator.readPublic, uniformBlock?_settled, requirePorts_settled]
  rfl

theorem readPrivate_settled : FragmentGenerator.readPrivate s.settled =
    (FragmentGenerator.readPrivate s).map (List.map Port.settled) := by
  rw [FragmentGenerator.readPrivate, uniformBlock?_settled, requirePorts_settled]
  rfl

/-- Code is written without a look at the blocks, and declarations are the same. -/
theorem unseen_settled : Unseen settled where
  write _ _ := rfl
  depth _ := rfl
  scopes _ := rfl
  setScopes _ _ _ := rfl
  includes _ := rfl
  setIncludes _ _ := rfl
  vertex style format s := by
    rw [vertexDeclarations, vertexDeclarations, readVertex_settled]
    cases FragmentGenerator.readVertex s with
    | error e => rfl
    | ok ports =>
      simp only [Except.map, List.map_map, Except.ok.injEq]
      exact List.map_congr_left fun p _ => p.declaration_settled style format [] false
  constants style format s := by
    rw [constantDeclarations, constantDeclarations, settled, VariableBlock.settled, List.map_map]
    exact List.map_congr_left fun p _ => p.declaration_settled style format Glsl.constantQualifier true

end Stage

open Failed (carry)

/-! ## Nodes -/

/-- The input with all values settled. -/
def ShaderInput.settled (i : ShaderInput) : ShaderInput :=
  { i with value := i.value.map Value.settled, connection := i.connection.map Port.settled }

/-- The node with all values settled. -/
def ShaderNode.settled (n : ShaderNode) : ShaderNode :=
  { n with
    inputs := n.inputs.map ShaderInput.settled
    outputs := n.outputs.map Port.settled
    constant := n.constant.map Port.settled }

namespace ShaderNode

variable (n : ShaderNode)

theorem input?_settled (name : Text) : n.settled.input? name = (n.input? name).map ShaderInput.settled := by
  rw [input?, settled, List.find?_map]
  rfl

/-- The value that an input has of its own is settled with the node. -/
theorem inputValue?_settled (name : Text) :
    (n.settled.input? name).bind ShaderInput.value =
      ((n.input? name).bind ShaderInput.value).map Value.settled := by
  rw [input?_settled]
  cases n.input? name with
  | none => rfl
  | some i => rfl

/-- Whether an input is connected has nothing to do with values. -/
theorem isConnected_settled (name : Text) : n.settled.isConnected name = n.isConnected name := by
  rw [isConnected, isConnected, input?_settled]
  cases n.input? name with
  | none => rfl
  | some i => cases hconnection : i.connection <;> simp [ShaderInput.settled, hconnection]

/-- An operand is an identifier or a literal.  Neither changes. -/
theorem operandText_settled (format : FloatFormat) (name fallback : Text) :
    n.settled.operandText format name fallback = n.operandText format name fallback := by
  rw [operandText, operandText, operand, operand, input?_settled]
  cases n.input? name with
  | none => rfl
  | some i =>
    simp only [Option.map_some, ShaderInput.settled]
    cases i.connection with
    | some p => rfl
    | none =>
      cases i.value with
      | some v => exact v.literal_settled format
      | none => rfl

/-- The space in which geometry is asked for is not a number. -/
theorem geometricToken_settled (g : Geometric) : n.settled.geometricToken g = n.geometricToken g := by
  rw [geometricToken, geometricToken, inputValue?_settled]
  cases (n.input? "space").bind ShaderInput.value <;> rfl

/-- The index of the texture coordinates that a node asks for, if a boolean gives it, is zero. -/
def PlainIndex (n : ShaderNode) : Prop :=
  n.implementation = .texcoord →
    ∀ v ∈ (n.input? "index").bind ShaderInput.value, v.type = .boolean → v.asInt = 0

/-- The index of texture coordinates is a number that a boolean would lose.  A plain index does not change. -/
theorem texcoordToken_settled {n : ShaderNode} (htexcoord : n.implementation = .texcoord) (h : n.PlainIndex) :
    n.settled.texcoordToken = n.texcoordToken := by
  have hindex := h htexcoord
  rw [texcoordToken, texcoordToken, inputValue?_settled]
  cases hvalue : (n.input? "index").bind ShaderInput.value with
  | none => rfl
  | some v => simp only [Option.map_some, Value.asInt_settled (hindex v hvalue)]

theorem vertexField_settled (s : Stage) (field : Text) : vertexField s.settled field = vertexField s field := by
  rw [vertexField, vertexField, Stage.inputBlock?_settled]
  cases s.inputBlock? BlockName.vertexData <;> rfl

/-- The code of a node without a file, whichever implementation it has. -/
theorem expression_settled {n : ShaderNode} (h : n.PlainIndex) (format : FloatFormat) (s : Stage) :
    n.settled.expression format s.settled = n.expression format s := by
  have himplementation : n.settled.implementation = n.implementation := rfl
  unfold expression
  rw [himplementation]
  cases hcase : n.implementation with
  | constant t =>
    simp only [operandText_settled]
    cases hconstant : n.constant <;> simp [settled, hconstant, Port.settled]
  | texcoord => simp only [texcoordToken_settled hcase h, vertexField_settled]
  | _ => simp only [operandText_settled, geometricToken_settled, vertexField_settled]

/-- A call shows operands and the identifier of the output. -/
theorem callText_settled (format : FloatFormat) (function : Text) (out : Port) :
    n.settled.callText format function out.settled = n.callText format function out := by
  have harguments : (n.settled.argument format) = (n.argument format) := by
    funext p
    rw [argument, operandText_settled, argument]
  rw [callText, harguments]
  rfl

/-- **Writing the code of a node commutes with settling**: it fails for the settled node where it fails for the
node, and with the same code written until then. -/
theorem emitCall_settled {n : ShaderNode} (h : n.PlainIndex) (c : Context) (s : Stage) :
    n.settled.emitCall c s.settled = carry Stage.settled (n.emitCall c s) := by
  have himplementation : n.settled.implementation = n.implementation := rfl
  have houtput : n.settled.outputs.head? = n.outputs.head?.map Port.settled := List.head?_map
  rw [emitCall, emitCall, himplementation, houtput]
  cases n.implementation.sourcePath? with
  | none =>
    cases c.dialect with
    | none => rfl
    | some d =>
      cases n.outputs.head? with
      | none => rfl
      | some out =>
        -- Only an expression written in place can read the index.
        simp only [Option.map_some, expression_settled h]
        rfl
  | some path =>
    dsimp only
    cases functionName c path with
    | error e => rfl
    | ok function =>
      cases c.dialect with
      | none => rfl
      | some d =>
        cases n.outputs.head? with
        | none => rfl
        | some out =>
          simp only [Option.map_some, callText_settled]
          rfl

end ShaderNode

/-! ## Shaders -/

/-- The output socket with all values settled. -/
def ShaderSocket.settled (s : ShaderSocket) : ShaderSocket :=
  { s with port := s.port.settled, connection := s.connection.map Port.settled }

/-- The graph of a shader with all values settled. -/
def ShaderGraph.settled (g : ShaderGraph) : ShaderGraph :=
  { g with
    inputs := g.inputs.map Port.settled
    nodes := g.nodes.map ShaderNode.settled
    socket := g.socket.settled }

/-- The shader with all values settled. -/
def Shader.settled (s : Shader) : Shader :=
  { s with graph := s.graph.settled, stages := s.stages.map Stage.settled }

namespace Shader

variable (s : Shader)

theorem stage?_settled (name : Text) : s.settled.stage? name = (s.stage? name).map Stage.settled := by
  rw [stage?, settled, List.find?_map]
  rfl

/-- A stage is put back by its name. -/
theorem setStage_settled (stage : Stage) : s.settled.setStage stage.settled = (s.setStage stage).settled := by
  have hreplace : ∀ stages : List Stage, replaceStage stage.settled (stages.map Stage.settled) =
      (replaceStage stage stages).map Stage.settled := by
    intro stages
    induction stages with
    | nil => rfl
    | cons t rest ih =>
      rw [List.map_cons, replaceStage, replaceStage, ih]
      show (if t.name = stage.name then _ else _) = _
      split <;> rfl
  simp only [setStage, settled, hreplace]

/-- A new stage has no values that could be settled. -/
theorem createStage_settled (name : Text) : s.settled.createStage name = (s.createStage name).settled := by
  rw [createStage, createStage, stage?_settled, Option.isSome_map]
  split
  · rfl
  · simp only [settled, List.map_append]
    rfl

theorem sourceCode_settled (name : Text) : s.settled.sourceCode name = s.sourceCode name := by
  rw [sourceCode, sourceCode, stage?_settled]
  cases s.stage? name <;> rfl

/-- Ports that are settled already are added to settled blocks. -/
theorem addUniforms_settled (block : Text) {ports : List Port} (hports : ∀ p ∈ ports, p.settled = p) :
    s.settled.addUniforms block ports = (s.addUniforms block ports).map settled := by
  have hfold : ∀ {ports : List Port} (ps : Stage), (∀ p ∈ ports, p.settled = p) →
      ports.foldl (fun ps p => ps.addUniform block p) ps.settled =
        (ports.foldl (fun ps p => ps.addUniform block p) ps).settled := by
    intro ports
    induction ports with
    | nil => intro ps _; rfl
    | cons p ports ih =>
      intro ps h
      obtain ⟨hp, hports⟩ := List.forall_mem_cons.mp h
      rw [List.foldl_cons, List.foldl_cons, ← ih _ hports]
      conv_lhs => rw [← hp]
      rw [Stage.addUniform_settled]
  rw [addUniforms, addUniforms, stage?_settled]
  cases s.stage? pixelStage with
  | none => rfl
  | some ps =>
    simp only [Option.map_some, Stage.uniformBlock?_settled]
    cases ps.uniformBlock? block with
    | none => rfl
    | some b => simp only [Option.map_some, hfold ps hports, setStage_settled, Except.map]

/-- Vertex data has no values, so the port that is added is settled already. -/
theorem addVertexData_settled (token : Text) (t : DataType) :
    s.settled.addVertexData token t = carry settled (s.addVertexData token t) := by
  rw [addVertexData, addVertexData, stage?_settled]
  cases s.stage? pixelStage with
  | none => rfl
  | some ps =>
    simp only [Option.map_some, Stage.inputBlock?_settled, Option.isNone_map]
    split
    · rfl
    · have hport : (VariableBlock.plainPort token t none).settled = VariableBlock.plainPort token t none := rfl
      rw [← hport, Stage.addInput_settled, setStage_settled, hport]
      rfl

/-- The uniforms that nodes ask the host for have no values either. -/
theorem addPrivateUniform_settled (token : Text) (t : DataType) :
    s.settled.addPrivateUniform token t = carry settled (s.addPrivateUniform token t) := by
  rw [addPrivateUniform, addPrivateUniform, stage?_settled]
  cases s.stage? pixelStage with
  | none => rfl
  | some ps =>
    simp only [Option.map_some, Stage.uniformBlock?_settled, Option.isNone_map]
    split
    · rfl
    · have hport : (VariableBlock.plainPort token t none).settled = VariableBlock.plainPort token t none := rfl
      rw [← hport, Stage.addUniform_settled, setStage_settled, hport]
      rfl

end Shader

/-! ## Variables of nodes -/

namespace ShaderNode

/-- A node and its shader with all values settled. -/
def Placed.settled (p : Placed) : Placed := (p.1.settled, p.2.settled)

variable (n : ShaderNode) (naming : Naming) (s : Shader)

theorem withShader_settled (r : Except (Failed EmitError Shader) Shader) :
    n.settled.withShader (carry Shader.settled r) = carry Placed.settled (n.withShader r) := by
  cases r <;> rfl

/-- The constant of a node takes the value of its input along. -/
theorem createConstant_settled (t : DataType) :
    n.settled.createConstant naming t s.settled = carry Placed.settled (n.createConstant naming t s) := by
  have hconnected := n.isConnected_settled valueInput
  have hvalue := n.inputValue?_settled valueInput
  unfold isConnected at hconnected
  simp only [createConstant, hconnected, hvalue, Shader.stage?_settled]
  split
  · rfl
  · cases s.stage? pixelStage with
    | none => rfl
    | some ps =>
      let p : Port := ⟨n.name ++ "_value", t,
        (naming.variableName (n.name ++ "_value") t s.graph.identifiers).1,
        (n.input? valueInput).bind ShaderInput.value⟩
      have hresolve : ps.settled.constants.resolve p.settled = (ps.constants.resolve p).settled :=
        ps.constants.resolve_settled p
      have hstage : s.settled.setStage (ps.settled.addConstant p.settled) =
          (s.setStage (ps.addConstant p)).settled := by
        rw [Stage.addConstant_settled, Shader.setStage_settled]
      show Except.ok ({ n.settled with constant := some (ps.settled.constants.resolve p.settled) },
        (s.settled.setStage (ps.settled.addConstant p.settled)).setIdentifiers _) = _
      rw [hresolve, hstage]
      rfl

/-- A texture is published without a value. -/
theorem publishTexture_settled (input : Text) :
    n.settled.publishTexture naming input s.settled = carry Placed.settled (n.publishTexture naming input s) := by
  simp only [publishTexture, Shader.stage?_settled]
  cases s.stage? pixelStage with
  | none => rfl
  | some ps =>
    simp only [Option.map_some, Stage.uniformBlock?_settled]
    cases ps.uniformBlock? BlockName.publicUniforms with
    | none => rfl
    | some block =>
      let p : Port := ⟨n.name ++ "_" ++ input, .filename,
        (naming.variableName (n.name ++ "_" ++ input) .filename s.graph.identifiers).1, none⟩
      have hresolve : block.settled.resolve p.settled = (block.resolve p).settled := block.resolve_settled p
      have hstage : s.settled.setStage (ps.settled.addUniform BlockName.publicUniforms p.settled) =
          (s.setStage (ps.addUniform BlockName.publicUniforms p)).settled := by
        rw [Stage.addUniform_settled, Shader.setStage_settled]
      have hinput : n.settled.addInput ⟨input, .filename, none, some (block.resolve p).settled⟩ =
          (n.addInput ⟨input, .filename, none, some (block.resolve p)⟩).settled := by
        simp only [addInput, settled, List.map_append]
        rfl
      show Except.ok (n.settled.addInput ⟨input, .filename, none, some (block.settled.resolve p.settled)⟩,
        (s.settled.setStage (ps.settled.addUniform BlockName.publicUniforms p.settled)).setIdentifiers _) = _
      rw [hresolve, hstage, hinput]
      rfl

/-- An image publishes its texture, and asks for coordinates if it is connected to none. -/
theorem createImage_settled :
    n.settled.createImage naming s.settled = carry Placed.settled (n.createImage naming s) := by
  -- the second half, behind the texture
  have hcoordinates : ∀ (n : ShaderNode) (s : Shader),
      (if n.settled.isConnected "texcoord" then pure (n.settled, s.settled) else
        n.settled.withShader (s.settled.addVertexData firstTexcoord .vector2)) =
      carry Placed.settled (if n.isConnected "texcoord" then pure (n, s) else
        n.withShader (s.addVertexData firstTexcoord .vector2)) := by
    intro n s
    rw [isConnected_settled, Shader.addVertexData_settled, withShader_settled]
    split <;> rfl
  unfold createImage
  rw [input?_settled, Option.isNone_map, publishTexture_settled]
  split
  · cases n.publishTexture naming "file" s with
    | error e => rfl
    | ok r => exact hcoordinates r.1 r.2
  · exact hcoordinates n s

/-- A surface asks for two fields of the vertices and for the position of the viewer. -/
theorem createSurface_settled : createSurface s.settled = carry Shader.settled (createSurface s) := by
  unfold createSurface
  rw [Shader.addVertexData_settled]
  cases s.addVertexData Token.positionWorld .vector3 with
  | error e => rfl
  | ok s =>
    show (s.settled.addVertexData Token.normalWorld .vector3 >>= _) = carry _ (s.addVertexData _ _ >>= _)
    rw [Shader.addVertexData_settled]
    cases s.addVertexData Token.normalWorld .vector3 with
    | error e => rfl
    | ok s => exact s.addPrivateUniform_settled Token.viewPosition .vector3

/-- **The variables of a node do not depend on what is settled**, its index apart. -/
theorem createVariables_settled {n : ShaderNode} (h : n.PlainIndex) :
    n.settled.createVariables naming s.settled = carry Placed.settled (n.createVariables naming s) := by
  have himplementation : n.settled.implementation = n.implementation := rfl
  unfold createVariables
  rw [himplementation]
  cases hcase : n.implementation with
  | constant t => exact n.createConstant_settled naming s t
  | geometric g =>
    simp only [geometricToken_settled, Shader.addVertexData_settled, withShader_settled]
  | texcoord =>
    simp only [texcoordToken_settled hcase h, Shader.addVertexData_settled, withShader_settled]
  | hostNumber k => simp only [Shader.addPrivateUniform_settled, withShader_settled]
  | image t => exact n.createImage_settled naming s
  | surface lights => simp only [createSurface_settled, withShader_settled]
  | _ => rfl

end ShaderNode

/-! ## From graphs to shaders -/

namespace Shader

variable (naming : Naming)

/-- The identifiers of interface ports depend on names and types. -/
theorem namePorts_settled (inputs : List InterfaceInput) (ids : IdentifierMap) :
    namePorts naming (inputs.map InterfaceInput.settled) ids =
      ((namePorts naming inputs ids).1.map Port.settled, (namePorts naming inputs ids).2) :=
  namePorts_revalued naming inputs ids

/-- The outputs of nodes have no values. -/
theorem nameOutputs_settled (node : Text) (outputs : List NodeOutput) (ids : IdentifierMap) :
    (nameOutputs naming node outputs ids).1.map Port.settled = (nameOutputs naming node outputs ids).1 := by
  induction outputs generalizing ids with
  | nil => rfl
  | cons o rest ih =>
    simp only [nameOutputs, List.map_cons, ih]
    rfl

/-- The draft with all values settled. -/
def Draft.settled (d : Draft) : Draft :=
  { d with published := d.published.settled, nodes := d.nodes.map ShaderNode.settled }

/-- The scope with all values settled. -/
def Scope.settled (s : Scope) : Scope := ⟨s.interfaces.settled, s.earlier.map ShaderNode.settled⟩

/-- Settling changes the values of ports and nothing else, which is what making the draft needs to know. -/
theorem revalues_settled : Revalues (Option.map Value.settled) ShaderNode.settled :=
  ⟨fun _ => rfl, fun _ => rfl, fun _ => rfl⟩

theorem connectInput_settled (scope : Scope) (node : Text) (i : NodeInput) (ids : IdentifierMap)
    (published : VariableBlock) :
    connectInput naming scope.settled node i.settled ids published.settled =
      (connectInput naming scope node i ids published).map
        fun r => (r.1.map Port.settled, r.2.1, r.2.2.settled) :=
  connectInput_revalued naming revalues_settled scope node i ids published

/-- The inputs of a node are connected one after another, each with the block that the last one left. -/
theorem connectInputs_settled (scope : Scope) (node : Text) (inputs : List NodeInput) (ids : IdentifierMap)
    (published : VariableBlock) :
    connectInputs naming scope.settled node (inputs.map NodeInput.settled) ids published.settled =
      (connectInputs naming scope node inputs ids published).map
        fun r => (r.1.map ShaderInput.settled, r.2.1, r.2.2.settled) := by
  induction inputs generalizing ids published with
  | nil => rfl
  | cons i rest ih =>
    rw [List.map_cons, connectInputs, connectInputs, connectInput_settled]
    refine map_bind_eq fun r _ => ?_
    simp only [ih]
    exact map_bind_eq fun _ _ => rfl

/-- **One node more in the draft**: the definition is looked up by name, outputs have no values, and the inputs
are connected to the same ports. -/
theorem addNode_settled (registry : Registry) (interfaces : VariableBlock) (d : Draft) (n : Node) :
    addNode registry naming interfaces.settled d.settled n.settled =
      (addNode registry naming interfaces d n).map Draft.settled := by
  have hdefinition : n.settled.definition = n.definition := rfl
  rw [addNode, addNode, hdefinition]
  cases registry.lookup n.definition with
  | none => rfl
  | some implementation =>
    have hconnect := connectInputs_settled naming ⟨interfaces, d.nodes⟩ n.name n.inputs
      (nameOutputs naming n.name n.allOutputs d.identifiers).2 d.published
    have houtputs := nameOutputs_settled naming n.name n.allOutputs d.identifiers
    show (classifyNode (nameOutputs naming n.name n.allOutputs d.identifiers).1 implementation >>= _) =
      Except.map _ (classifyNode _ implementation >>= _)
    cases classifyNode (nameOutputs naming n.name n.allOutputs d.identifiers).1 implementation with
    | error e => rfl
    | ok classification =>
      show (connectInputs naming (Scope.settled ⟨interfaces, d.nodes⟩) n.name (n.inputs.map NodeInput.settled)
        (nameOutputs naming n.name n.allOutputs d.identifiers).2 d.published.settled >>= _) =
        Except.map _ (connectInputs naming _ _ _ _ _ >>= _)
      rw [hconnect]
      refine map_bind_eq fun r _ => ?_
      simp only [pure, Except.pure, Except.map, Draft.settled, List.map_append, List.map_cons, List.map_nil,
        ShaderNode.settled, houtputs]
      rfl

/-- The output socket shows the same port of the same node. -/
theorem connectSocket_settled (nodes : List ShaderNode) (s : Socket) (ident : Text) :
    connectSocket (nodes.map ShaderNode.settled) s.settled ident =
      (connectSocket nodes s ident).map fun r => (r.1.settled, r.2) :=
  connectSocket_revalued revalues_settled (Option.map Value.settled) nodes s ident

/-- **Making the variables of all nodes commutes with settling.** -/
theorem createAllVariables_settled {nodes : List ShaderNode} (h : ∀ n ∈ nodes, n.PlainIndex) (s : Shader) :
    createAllVariables naming (nodes.map ShaderNode.settled) s.settled =
      (createAllVariables naming nodes s).map fun r => (r.1.map ShaderNode.settled, r.2.settled) := by
  induction nodes generalizing s with
  | nil => rfl
  | cons n rest ih =>
    obtain ⟨hn, hrest⟩ := List.forall_mem_cons.mp h
    rw [List.map_cons, createAllVariables, createAllVariables, ShaderNode.createVariables_settled naming s hn]
    cases n.createVariables naming s with
    | error e => rfl
    | ok r =>
      show (createAllVariables naming (rest.map ShaderNode.settled) r.2.settled >>= _) = Except.map _ (_ >>= _)
      rw [ih hrest]
      exact map_bind_eq fun _ _ => rfl

end Shader

/-- The value from which a node takes the index of its texture coordinates. -/
def Node.indexValue? (n : Node) : Option Value :=
  (n.inputs.find? (·.name == Text.ofString "index")).bind NodeInput.value

namespace Shader

variable {naming : Naming} {registry : Registry}

/-- Connecting inputs keeps their names and values. -/
theorem connectInputs_values {scope : Scope} {node : Text} {inputs : List NodeInput} {ids : IdentifierMap}
    {published : VariableBlock} {r : List ShaderInput × IdentifierMap × VariableBlock}
    (h : connectInputs naming scope node inputs ids published = .ok r) :
    r.1.map (fun i => (i.name, i.value)) = inputs.map fun i => (i.name, i.value) := by
  induction inputs generalizing ids published r with
  | nil => cases h; rfl
  | cons i rest ih =>
    rw [connectInputs] at h
    obtain ⟨_, _, h⟩ := bind_eq_ok.mp h
    obtain ⟨others, hothers, rfl⟩ := bind_pure_eq_ok.mp h
    exact congrArg ((i.name, i.value) :: ·) (ih hothers)

/-- A node of a shader asks for the same texture coordinates as the node that it was made of. -/
theorem indexValue?_of_values {n : Node} {m : ShaderNode}
    (h : m.inputs.map (fun i => (i.name, i.value)) = n.inputs.map fun i => (i.name, i.value)) :
    (m.input? "index").bind ShaderInput.value = n.indexValue? := by
  have hfind : ∀ {α : Type} (name : α → Text) (value : α → Option Value) (inputs : List α),
      (inputs.find? (name · == Text.ofString "index")).bind value =
        ((inputs.map fun i => (name i, value i)).find? (·.1 == Text.ofString "index")).bind Prod.snd := by
    intro α name value inputs
    rw [List.find?_map, Option.bind_map]
    rfl
  rw [ShaderNode.input?, Node.indexValue?, hfind ShaderInput.name, hfind NodeInput.name, h]

/-- A node that is added to the draft has a plain index if the node of the graph has one. -/
theorem plainIndex_addNode {interfaces : VariableBlock} {d d' : Draft} {n : Node}
    (hn : registry.lookup n.definition = some .texcoord →
      ∀ v ∈ n.indexValue?, v.type = .boolean → v.asInt = 0)
    (hd : ∀ m ∈ d.nodes, m.PlainIndex) (h : addNode registry naming interfaces d n = .ok d') :
    ∀ m ∈ d'.nodes, m.PlainIndex := by
  rw [addNode] at h
  split at h
  · cases h
  · next implementation hlookup =>
    obtain ⟨_, _, h⟩ := bind_eq_ok.mp h
    obtain ⟨r, hr, rfl⟩ := bind_pure_eq_ok.mp h
    refine List.forall_mem_append.mpr ⟨hd, List.forall_mem_singleton.mpr ?_⟩
    intro htexcoord
    rw [indexValue?_of_values (connectInputs_values hr)]
    exact hn (hlookup.trans (congrArg some htexcoord))

/-- The values of the uniforms for lighting are numbers that settling keeps. -/
theorem lightingUniforms_settled (o : Options) : ∀ p ∈ lightingUniforms o, p.settled = p := by
  intro p hp
  simp only [lightingUniforms, List.mem_append, List.mem_cons, List.not_mem_nil, or_false] at hp
  rcases hp with (rfl | rfl | rfl | rfl | rfl) | hp
  · rfl
  · rfl
  · rfl
  · rfl
  · rfl
  · split at hp
    · obtain rfl := List.mem_singleton.mp hp
      rfl
    · cases hp

/-- **A settled graph makes the settled shader**, if no boolean that holds another number than zero is an
index of texture coordinates. -/
theorem ofGraph_settled {g : Graph}
    (hindex : ∀ n ∈ g.nodes, registry.lookup n.definition = some .texcoord →
      ∀ v ∈ n.indexValue?, v.type = .boolean → v.asInt = 0) (name : Text) (c : Context) :
    ofGraph registry naming name g.settled c = (ofGraph registry naming name g c).map settled := by
  unfold ofGraph
  simp only [Graph.settled, namePorts_settled]
  generalize c.reserved.foldl IdentifierMap.reserve .reserved = ids
  have hblock := VariableBlock.foldl_add_mapPorts (f := Port.settled) (fun _ => rfl)
    (.empty BlockName.publicUniforms publicInstance) (namePorts naming g.inputs ids).1
  generalize hports : namePorts naming g.inputs ids = named at *
  obtain ⟨ports, ids⟩ := named
  generalize hinterfaces : ports.foldl VariableBlock.add (.empty BlockName.publicUniforms publicInstance) =
    interfaces at *
  have hblock : (ports.map Port.settled).foldl VariableBlock.add
      (.empty BlockName.publicUniforms publicInstance) = interfaces.settled := hblock
  simp only [hblock]
  show ((g.nodes.map Node.settled).foldlM (addNode registry naming interfaces.settled)
    (Draft.settled ⟨ids, interfaces, []⟩) >>= _) = _
  -- From here on each part of creation is passed in turn: it commutes with settling.
  rw [foldlM_map_eq (addNode_settled naming registry interfaces)]
  refine map_bind_eq fun draft hdraft => ?_
  -- Coordinates read the index as a number; that is kept by settling only for plain ones.
  have hplain : ∀ m ∈ draft.nodes, m.PlainIndex :=
    foldlM_invariant (P := fun d : Draft => ∀ m ∈ d.nodes, m.PlainIndex)
      (fun n hn d d' hd h => plainIndex_addNode (hindex n hn) hd h) (by simp) hdraft
  show (connectSocket (draft.nodes.map ShaderNode.settled) g.output.settled
    (naming.variableName (socketName g.output) g.output.type draft.identifiers).1 >>= _) = _
  rw [connectSocket_settled]
  refine map_bind_eq ?_
  rintro ⟨socket, classification⟩ -
  let graph : ShaderGraph :=
    { name := g.name, inputs := ports, nodes := draft.nodes, socket, classification
      identifiers := (naming.variableName (socketName g.output) g.output.type draft.identifiers).2 }
  show (createAllVariables naming (draft.nodes.map ShaderNode.settled)
    (Shader.settled ⟨name, graph, [newPixelStage draft.published]⟩) >>= _) = _
  rw [createAllVariables_settled naming hplain]
  refine map_bind_eq ?_
  rintro ⟨nodes, shader⟩ -
  let finished : Shader := { shader with graph := { shader.graph with nodes } }
  show (if graph.requiresLighting then
    finished.settled.addUniforms BlockName.privateUniforms (lightingUniforms c.options)
      else .ok finished.settled) =
    Except.map settled (if graph.requiresLighting then
      finished.addUniforms BlockName.privateUniforms (lightingUniforms c.options) else .ok finished)
  rw [addUniforms_settled _ _ (lightingUniforms_settled c.options)]
  split <;> rfl

end Shader

/-! ## Indices stay plain -/

namespace ShaderNode

variable {n : ShaderNode} {naming : Naming} {s : Shader} {p : Placed}

/-- Asking the shader for something leaves the node alone. -/
theorem withShader_node {r : Except (Failed EmitError Shader) Shader} (h : n.withShader r = .ok p) : p.1 = n := by
  cases r with
  | error e => cases h
  | ok t => cases h; rfl

/-- Publishing a texture gives the node an input and keeps its implementation. -/
theorem implementation_publishTexture {input : Text} (h : n.publishTexture naming input s = .ok p) :
    p.1.implementation = n.implementation := by
  rw [publishTexture] at h
  split at h
  · cases h
  · split at h
    · cases h
    · cases h; rfl

/-- An image stays an image. -/
theorem implementation_createImage (h : n.createImage naming s = .ok p) :
    p.1.implementation = n.implementation := by
  have hcoordinates : ∀ {n : ShaderNode} {s : Shader},
      (if n.isConnected "texcoord" then pure (n, s) else
        n.withShader (s.addVertexData firstTexcoord .vector2)) = .ok p →
      p.1.implementation = n.implementation := by
    intro n s h
    split at h
    · cases h; rfl
    · rw [withShader_node h]
  unfold createImage at h
  split at h
  · obtain ⟨q, hq, h⟩ := bind_eq_ok.mp h
    rw [← implementation_publishTexture hq]
    exact hcoordinates h
  · exact hcoordinates h

/-- **Making the variables of a node keeps its index plain**: the nodes that get an input or a constant are no
texture coordinates. -/
theorem plainIndex_createVariables (hn : n.PlainIndex) (h : n.createVariables naming s = .ok p) :
    p.1.PlainIndex := by
  have hsame : p.1 = n → p.1.PlainIndex := fun heq => heq ▸ hn
  -- nodes whose inputs change take no index at all
  have hother : p.1.implementation = n.implementation → n.implementation ≠ .texcoord → p.1.PlainIndex :=
    fun heq hne htexcoord => absurd (heq.symm.trans htexcoord) hne
  rw [createVariables] at h
  split at h
  · next t himplementation =>
    refine hother ?_ (by rw [himplementation]; simp)
    rw [createConstant] at h
    split at h
    · cases h; rfl
    · split at h
      · cases h
      · cases h; rfl
  · exact hsame (withShader_node h)
  · exact hsame (withShader_node h)
  · exact hsame (withShader_node h)
  · next t himplementation =>
    exact hother (implementation_createImage h) (by rw [himplementation]; simp)
  · exact hsame (withShader_node h)
  · cases h; exact hn

end ShaderNode

namespace Shader

variable {naming : Naming} {registry : Registry}

/-- All nodes keep their plain indices, by what one of them does. -/
theorem plainIndex_createAllVariables {nodes : List ShaderNode} {s : Shader} {r : List ShaderNode × Shader}
    (hnodes : ∀ n ∈ nodes, n.PlainIndex) (h : createAllVariables naming nodes s = .ok r) :
    ∀ n ∈ r.1, n.PlainIndex := by
  induction nodes generalizing s r with
  | nil => cases h; simp
  | cons n rest ih =>
    obtain ⟨hn, hrest⟩ := List.forall_mem_cons.mp hnodes
    rw [createAllVariables] at h
    split at h
    · cases h
    · next m t hm =>
      obtain ⟨others, hothers, rfl⟩ := bind_pure_eq_ok.mp h
      exact List.forall_mem_cons.mpr ⟨ShaderNode.plainIndex_createVariables hn hm, ih hrest hothers⟩

/-- Uniforms leave the graph of a shader alone, whether they are asked for or not. -/
theorem graph_of_asked {s s' : Shader} {block : Text} {ports : List Port} {asked : Bool}
    (h : (if asked then s.addUniforms block ports else .ok s) = .ok s') : s'.graph = s.graph := by
  cases asked with
  | false => rw [← Except.ok.inj h]
  | true => exact graph_addUniforms h

/-- The nodes of a finished shader have plain indices if those of the graph have. -/
theorem plainIndex_ofGraph {g : Graph} {name : Text} {c : Context} {s : Shader}
    (hindex : ∀ n ∈ g.nodes, registry.lookup n.definition = some .texcoord →
      ∀ v ∈ n.indexValue?, v.type = .boolean → v.asInt = 0)
    (h : ofGraph registry naming name g c = .ok s) : ∀ n ∈ s.graph.nodes, n.PlainIndex := by
  obtain ⟨draft, hdraft, h⟩ := bind_eq_ok.mp h
  obtain ⟨_, _, h⟩ := bind_eq_ok.mp h
  obtain ⟨r, hr, h⟩ := bind_eq_ok.mp h
  have hplain : ∀ m ∈ draft.nodes, m.PlainIndex :=
    foldlM_invariant (P := fun d : Draft => ∀ m ∈ d.nodes, m.PlainIndex)
      (fun n hn d d' hd h => plainIndex_addNode (hindex n hn) hd h) (by simp) hdraft
  rw [graph_of_asked h]
  exact plainIndex_createAllVariables hplain hr

end Shader

/-! ## Checks -/

namespace Graph

/-- A value is checked by its type. -/
theorem checkValue_settled {ε : Type} (t : DataType) (value : Option Value) (fault : DataType → ε) :
    checkValue t (value.map Value.settled) fault = checkValue t value fault := by
  cases value <;> rfl

/-- The first fault of the interface is the same. -/
theorem checkInterfaces_settled (graph : Text) (index : Nat) (inputs : List InterfaceInput) :
    checkInterfaces graph index (inputs.map InterfaceInput.settled) = checkInterfaces graph index inputs := by
  induction inputs generalizing index with
  | nil => rfl
  | cons i rest ih =>
    have hvalue := checkValue_settled i.type i.value (GraphError.interfaceValue graph i.name i.type)
    rw [List.map_cons, checkInterfaces, checkInterfaces, ih]
    show (if i.name = [] then _ else _) = _
    split
    · rfl
    · rw [← hvalue]
      rfl

/-- An input is checked by the names that it is bound to, and by the types at both ends. -/
theorem checkBinding_settled (g : Graph) (earlier : List Node) (i : NodeInput) :
    checkBinding g.settled (earlier.map Node.settled) i.settled = checkBinding g earlier i := by
  have hinterface : g.settled.interface? i.interface =
      (g.interface? i.interface).map InterfaceInput.settled := by
    rw [interface?, settled, List.find?_map]
    rfl
  have hnode : (earlier.map Node.settled).find? (·.name == i.node) =
      (earlier.find? (·.name == i.node)).map Node.settled := by
    rw [List.find?_map]
    rfl
  unfold checkBinding
  rw [show i.settled.interface = i.interface from rfl, show i.settled.node = i.node from rfl, hinterface, hnode]
  split_ifs
  · rfl
  · cases g.interface? i.interface <;> rfl
  · cases earlier.find? (·.name == i.node) with
    | none => rfl
    | some n => rfl
  · exact checkValue_settled i.type i.value _

theorem checkInputs_settled (g : Graph) (earlier : List Node) (node : Text) (inputs : List NodeInput) :
    checkInputs g.settled (earlier.map Node.settled) node (inputs.map NodeInput.settled) =
      checkInputs g earlier node inputs := by
  induction inputs with
  | nil => rfl
  | cons i rest ih => rw [List.map_cons, checkInputs, checkInputs, checkBinding_settled, ih]; rfl

/-- Nodes are checked from first to last, against the ones before them. -/
theorem checkNodes_settled (g : Graph) (earlier nodes : List Node) :
    checkNodes g.settled (earlier.map Node.settled) (nodes.map Node.settled) = checkNodes g earlier nodes := by
  induction nodes generalizing earlier with
  | nil => rfl
  | cons n rest ih =>
    have hrest : checkNodes g.settled (earlier.map Node.settled ++ [n.settled]) (rest.map Node.settled) =
        checkNodes g (earlier ++ [n]) rest := by
      rw [← ih, List.map_append]
      rfl
    have hany : (earlier.map Node.settled).any (·.name == n.name) = earlier.any (·.name == n.name) := by
      rw [List.any_map]
      rfl
    rw [List.map_cons, checkNodes, checkNodes, hrest, List.length_map]
    show (if n.name = [] then _ else if (earlier.map Node.settled).any (·.name == n.name) then _ else _) = _
    rw [hany]
    split
    · rfl
    · split
      · rfl
      · have hinputs := checkInputs_settled g earlier n.name n.inputs
        rw [← hinputs]
        rfl

/-- A settled graph passes the check if the graph does, and has the same fault if not. -/
theorem check_settled (g : Graph) : g.settled.check = g.check := by
  have houtput : checkOutput g.settled = checkOutput g := by
    have hnode : g.settled.node? g.output.node = (g.node? g.output.node).map Node.settled := by
      rw [node?, settled, List.find?_map]
      rfl
    unfold checkOutput
    have htype : g.settled.output.type = g.output.type := rfl
    have hconnected : g.settled.output.isConnected = g.output.isConnected := rfl
    simp only [htype, hconnected]
    split_ifs
    · rfl
    · rw [show g.settled.output.node = g.output.node from rfl, hnode]
      cases g.node? g.output.node <;> rfl
    · exact checkValue_settled g.output.type g.output.value _
  rw [check, check, houtput]
  show (checkInterfaces g.name 0 (g.inputs.map InterfaceInput.settled) >>= fun _ =>
    checkNodes g.settled ([].map Node.settled) (g.nodes.map Node.settled) >>= _) = _
  rw [checkInterfaces_settled, checkNodes_settled]

end Graph

end ShadeGraph
