/-
  What the nodes of a graph put into the pixel stage.

  1. An `Inventory` is the taken names and the ports of the four blocks, and nothing else of a shader.
     `Inventory.pixel` is the pixel stage with these ports; its blocks are there by construction.
  2. `Inventory.furnish` adds what one node needs.  It cannot fail, and `createVariables_shader` says that
     a node of a shader does just that; `createAllVariables_shader` is the run over all nodes.
  3. What one step keeps, the run keeps: the account of names (`Inventory.Accounted`), the tokens that name
     vertex data and uniforms of the host (`Inventory.Hosted`), and the node's own outputs.
-/
import ShadeGraph.Proofs.IndexedBlock
import ShadeGraph.Proofs.Naming
import ShadeGraph.Proofs.Substitution

namespace ShadeGraph

/-! ## The inventory of a shader -/

/-- The taken names of a shader and the ports of its blocks. -/
structure Inventory where
  identifiers : IdentifierMap
  constants : List Port
  /-- The uniforms that the host fills in. -/
  hidden : List Port
  /-- The uniforms that the user sets. -/
  published : List Port
  vertex : List Port

namespace Inventory

/-- The pixel stage with the ports of an inventory; no code is written. -/
def pixel (v : Inventory) : Stage :=
  { Stage.empty pixelStage with
    constants := .ofPorts Stage.constantsName [] v.constants
    uniforms := [.ofPorts BlockName.privateUniforms Shader.privateInstance v.hidden,
      .ofPorts BlockName.publicUniforms Shader.publicInstance v.published]
    inputs := [.ofPorts BlockName.vertexData Token.vertexData v.vertex] }

/-- The shader of a graph with an inventory and nothing but a pixel stage. -/
def shader (v : Inventory) (name : Text) (graph : ShaderGraph) : Shader :=
  ⟨name, { graph with identifiers := v.identifiers }, [v.pixel]⟩

/-- Adds vertex data that is named by its token. -/
def needVertex (v : Inventory) (token : Text) (t : DataType) : Inventory :=
  { v with vertex := Port.addTo v.vertex (VariableBlock.plainPort token t none) }

/-- Adds a uniform of the host that is named by its token. -/
def needHidden (v : Inventory) (token : Text) (t : DataType) : Inventory :=
  { v with hidden := Port.addTo v.hidden (VariableBlock.plainPort token t none) }

/-- A port that is named next. -/
def newPort (v : Inventory) (name : Text) (t : DataType) (value : Option Value) : Port :=
  ⟨name, t, (Naming.fragment.variableName name t v.identifiers).1, value⟩

/-- The names that are taken when a port has been named. -/
def newIdentifiers (v : Inventory) (name : Text) (t : DataType) : IdentifierMap :=
  (Naming.fragment.variableName name t v.identifiers).2

variable (v : Inventory) (name : Text) (graph : ShaderGraph)

@[simp] theorem stage?_shader : (v.shader name graph).stage? pixelStage = some v.pixel := rfl

/-- Adding vertex data to the stage is adding it to the inventory. -/
theorem pixel_addInput (p : Port) : v.pixel.addInput BlockName.vertexData p =
    { v with vertex := Port.addTo v.vertex p }.pixel := by
  rw [Stage.addInput, pixel, Stage.addToBlock, if_pos (VariableBlock.name_ofPorts ..),
    VariableBlock.add_ofPorts]
  rfl

/-- Adding a uniform of the host to the stage is adding it to the inventory. -/
theorem pixel_addHidden (p : Port) : v.pixel.addUniform BlockName.privateUniforms p =
    { v with hidden := Port.addTo v.hidden p }.pixel := by
  rw [Stage.addUniform, pixel, Stage.addToBlock, if_pos (VariableBlock.name_ofPorts ..),
    VariableBlock.add_ofPorts]
  rfl

/-- The published block is the second one, and is found behind the other. -/
theorem pixel_addPublished (p : Port) : v.pixel.addUniform BlockName.publicUniforms p =
    { v with published := Port.addTo v.published p }.pixel := by
  rw [Stage.addUniform, pixel, Stage.addToBlock, VariableBlock.name_ofPorts,
    if_neg (show BlockName.privateUniforms ≠ BlockName.publicUniforms by decide), Stage.addToBlock,
    if_pos (VariableBlock.name_ofPorts ..), VariableBlock.add_ofPorts]
  rfl

/-- With all blocks there, asking for vertex data cannot fail. -/
theorem addVertexData_shader (token : Text) (t : DataType) :
    (v.shader name graph).addVertexData token t = .ok ((v.needVertex token t).shader name graph) := by
  rw [Shader.addVertexData, stage?_shader]
  show Except.ok _ = _
  rw [pixel_addInput]
  rfl

/-- Asking for a uniform of the host cannot fail either. -/
theorem addPrivateUniform_shader (token : Text) (t : DataType) :
    (v.shader name graph).addPrivateUniform token t =
      .ok ((v.needHidden token t).shader name graph) := by
  rw [Shader.addPrivateUniform, stage?_shader]
  show Except.ok _ = _
  rw [pixel_addHidden]
  rfl

/-- Adds uniforms of the host. -/
def withHidden (ports : List Port) (v : Inventory) : Inventory :=
  { v with hidden := ports.foldl Port.addTo v.hidden }

/-- Adds uniforms of the user. -/
def withPublished (ports : List Port) (v : Inventory) : Inventory :=
  { v with published := ports.foldl Port.addTo v.published }

/-- Adding uniforms to a block one by one is adding them to the inventory, if that holds of each. -/
theorem foldl_addUniform {block : Text} (into : List Port → Inventory → Inventory)
    (hnil : ∀ v, into [] v = v) (hcons : ∀ p ports v, into (p :: ports) v = into ports (into [p] v))
    (hone : ∀ v p, v.pixel.addUniform block p = (into [p] v).pixel) : ∀ (ports : List Port) (v : Inventory),
    ports.foldl (fun ps p => ps.addUniform block p) v.pixel = (into ports v).pixel := by
  intro ports
  induction ports with
  | nil => intro v; rw [hnil]; rfl
  | cons p ports ih => intro v; rw [List.foldl_cons, hone, ih, hcons p ports v]

/-- Uniforms for the host's block, which is there. -/
theorem addUniforms_hidden (ports : List Port) :
    (v.shader name graph).addUniforms BlockName.privateUniforms ports =
      .ok ((v.withHidden ports).shader name graph) := by
  have hfold := foldl_addUniform withHidden (fun _ => rfl) (fun _ _ _ => rfl) pixel_addHidden ports v
  rw [Shader.addUniforms, stage?_shader]
  show Except.ok _ = _
  rw [hfold]
  rfl

/-- Uniforms for the published block, which is there too. -/
theorem addUniforms_published (ports : List Port) :
    (v.shader name graph).addUniforms BlockName.publicUniforms ports =
      .ok ((v.withPublished ports).shader name graph) := by
  have hfold := foldl_addUniform withPublished (fun _ => rfl) (fun _ _ _ => rfl) pixel_addPublished ports v
  rw [Shader.addUniforms, stage?_shader]
  show Except.ok _ = _
  rw [hfold]
  rfl

/-! ## What a node adds -/

/-- Gives a constant node its constant, unless its value comes from elsewhere. -/
def furnishConstant (n : ShaderNode) (t : DataType) (v : Inventory) : ShaderNode × Inventory :=
  if n.isConnected ShaderNode.valueInput then (n, v)
  else
    let p := v.newPort (n.name ++ "_value") t
      ((n.input? ShaderNode.valueInput).bind ShaderInput.value)
    ({ n with constant := some (Port.standIn v.constants p) },
      { v with constants := Port.addTo v.constants p
               identifiers := v.newIdentifiers (n.name ++ "_value") t })

/-- Gives a node a texture for an input that it lacks. -/
def furnishTexture (n : ShaderNode) (input : Text) (v : Inventory) : ShaderNode × Inventory :=
  let p := v.newPort (n.name ++ "_" ++ input) .filename none
  (n.addInput ⟨input, .filename, none, some (Port.standIn v.published p)⟩,
    { v with published := Port.addTo v.published p
             identifiers := v.newIdentifiers (n.name ++ "_" ++ input) .filename })

/-- Gives an image its texture. -/
def furnishFile (n : ShaderNode) (v : Inventory) : ShaderNode × Inventory :=
  if (n.input? "file").isNone then furnishTexture n "file" v else (n, v)

/-- Gives an image its texture coordinates. -/
def furnishCoordinates (n : ShaderNode) (v : Inventory) : Inventory :=
  if n.isConnected "texcoord" then v else v.needVertex ShaderNode.firstTexcoord .vector2

/-- Gives an image its texture and its texture coordinates. -/
def furnishImage (n : ShaderNode) (v : Inventory) : ShaderNode × Inventory :=
  ((furnishFile n v).1, furnishCoordinates (furnishFile n v).1 (furnishFile n v).2)

/-- What a lit surface reads. -/
def furnishSurface (v : Inventory) : Inventory :=
  ((v.needVertex Token.positionWorld .vector3).needVertex Token.normalWorld .vector3).needHidden
    Token.viewPosition .vector3

/-- Adds what one node needs. -/
def furnish (n : ShaderNode) (v : Inventory) : ShaderNode × Inventory :=
  match n.implementation with
  | .constant t => furnishConstant n t v
  | .geometric g => (n, v.needVertex (n.geometricToken g) .vector3)
  | .texcoord => (n, v.needVertex n.texcoordToken .vector2)
  | .hostNumber h => (n, v.needHidden h.token .float)
  | .image _ => furnishImage n v
  | .surface _ => (n, v.furnishSurface)
  | _ => (n, v)

/-- Adds what nodes need, one after the other. -/
def furnishAll : List ShaderNode → Inventory → List ShaderNode × Inventory
  | [], v => ([], v)
  | n :: rest, v =>
    let (n, v) := furnish n v
    let (nodes, v) := furnishAll rest v
    (n :: nodes, v)

/-- A constant node gets its constant, and this cannot fail. -/
theorem createConstant_shader (n : ShaderNode) (t : DataType) :
    n.createConstant .fragment t (v.shader name graph) =
      .ok ((furnishConstant n t v).1, (furnishConstant n t v).2.shader name graph) := by
  rw [ShaderNode.createConstant, furnishConstant, ShaderNode.isConnected]
  split
  · rfl
  · rw [stage?_shader]
    simp only [Stage.addConstant]
    rw [show v.pixel.constants = .ofPorts Stage.constantsName [] v.constants from rfl,
      VariableBlock.add_ofPorts, VariableBlock.resolve_ofPorts]
    rfl

/-- A texture is published, and this cannot fail. -/
theorem publishTexture_shader (n : ShaderNode) (input : Text) :
    n.publishTexture .fragment input (v.shader name graph) =
      .ok ((furnishTexture n input v).1, (furnishTexture n input v).2.shader name graph) := by
  have hblock : v.pixel.uniformBlock? BlockName.publicUniforms =
      some (.ofPorts BlockName.publicUniforms Shader.publicInstance v.published) := rfl
  rw [ShaderNode.publishTexture, stage?_shader]
  simp only [hblock, pixel_addPublished, VariableBlock.resolve_ofPorts]
  rfl

/-- **An image gets what it needs**: the texture first, and then coordinates, which depend on the inputs that it
has by then. -/
theorem createImage_shader (n : ShaderNode) :
    n.createImage .fragment (v.shader name graph) =
      .ok ((furnishImage n v).1, (furnishImage n v).2.shader name graph) := by
  have hcoordinates : ∀ (n : ShaderNode) (v : Inventory),
      (if n.isConnected "texcoord" then (.ok (n, v.shader name graph) : Except _ ShaderNode.Placed)
        else n.withShader
          ((v.shader name graph).addVertexData ShaderNode.firstTexcoord .vector2)) =
        .ok (n, (furnishCoordinates n v).shader name graph) := by
    intro n v
    rw [furnishCoordinates]
    split
    · rfl
    · rw [addVertexData_shader]; rfl
  rw [ShaderNode.createImage, furnishImage, furnishFile]
  split
  · rw [publishTexture_shader]; exact hcoordinates _ _
  · exact hcoordinates _ _

/-- A surface gets what it reads, in three steps of which none fails. -/
theorem createSurface_shader :
    ShaderNode.createSurface (v.shader name graph) = .ok (v.furnishSurface.shader name graph) := by
  rw [ShaderNode.createSurface, addVertexData_shader]
  show (do let s ← ((v.needVertex _ _).shader name graph).addVertexData _ _; s.addPrivateUniform _ _) = _
  rw [addVertexData_shader]
  exact addPrivateUniform_shader _ name graph _ _

/-- **Adding the variables of a node cannot fail**, and is furnishing the node. -/
theorem createVariables_shader (n : ShaderNode) :
    n.createVariables .fragment (v.shader name graph) =
      .ok ((furnish n v).1, (furnish n v).2.shader name graph) := by
  rw [ShaderNode.createVariables, furnish]
  cases n.implementation with
  | constant t => exact createConstant_shader v name graph n t
  | geometric g => exact congrArg n.withShader (addVertexData_shader v name graph _ _)
  | texcoord => exact congrArg n.withShader (addVertexData_shader v name graph _ _)
  | hostNumber h => exact congrArg n.withShader (addPrivateUniform_shader v name graph _ _)
  | image t => exact createImage_shader v name graph n
  | surface l => exact congrArg n.withShader (createSurface_shader v name graph)
  | arithmetic | mix | transformMatrix | diffuseBsdf | uniformEdf | surfaceUnlit => rfl

/-- The run over all nodes. -/
theorem createAllVariables_shader (nodes : List ShaderNode) :
    ∀ v : Inventory, Shader.createAllVariables .fragment nodes (v.shader name graph) =
      .ok ((furnishAll nodes v).1, (furnishAll nodes v).2.shader name graph) := by
  induction nodes with
  | nil => intro v; rfl
  | cons n rest ih =>
    intro v
    rw [Shader.createAllVariables, createVariables_shader]
    simp only [ih]
    rfl

/-! ## The account of names -/

/-- The account of the names of an inventory and of the outputs of nodes. -/
def Accounted (start : IdentifierMap) (outputs : List Port) (v : Inventory) : Prop :=
  Ledger start v.identifiers (v.constants ++ v.published ++ outputs)

variable {start : IdentifierMap} {outputs : List Port} {v} {name}

/-- A port that is named next gets an identifier of its own, so it can be put on the ledger. -/
theorem ledger_newPort {ports : List Port} (h : Ledger start v.identifiers ports) (name : Text)
    (t : DataType) (value : Option Value) :
    Ledger start (v.newIdentifiers name t) (v.newPort name t value :: ports) :=
  h.cons (p := v.newPort name t value) (Naming.variableName_grants name t v.identifiers) (Or.inl rfl)

/-- A new constant is on the account. -/
theorem accounted_constant (h : Accounted start outputs v) (n : ShaderNode) (t : DataType) :
    Accounted start outputs (furnishConstant n t v).2 := by
  rw [furnishConstant]
  split
  · exact h
  · exact (ledger_newPort h _ t _).subperm (Port.addTo_append_subperm.append (List.Subperm.refl outputs))

/-- A new texture is on the account.  Its identifier is granted even if another port stands for it. -/
theorem accounted_texture (h : Accounted start outputs v) (n : ShaderNode) (input : Text) :
    Accounted start outputs (furnishTexture n input v).2 :=
  (ledger_newPort h _ .filename none).subperm
    (Port.append_addTo_subperm.append (List.Subperm.refl outputs))

/-- An image names a texture at most; vertex data is not on the account. -/
theorem accounted_image (h : Accounted start outputs v) (n : ShaderNode) :
    Accounted start outputs (furnishImage n v).2 := by
  have hfile : Accounted start outputs (furnishFile n v).2 := by
    rw [furnishFile]
    split
    · exact accounted_texture h n _
    · exact h
  rw [furnishImage, furnishCoordinates]
  split <;> exact hfile

/-- One node keeps the account. -/
theorem accounted_furnish (h : Accounted start outputs v) (n : ShaderNode) :
    Accounted start outputs (furnish n v).2 := by
  rw [furnish]
  cases n.implementation with
  | constant t => exact accounted_constant h n t
  | image t => exact accounted_image h n
  | geometric | texcoord | hostNumber | surface => exact h
  | arithmetic | mix | transformMatrix | diffuseBsdf | uniformEdf | surfaceUnlit => exact h

/-- Published ports are named after themselves. -/
theorem named_furnish (h : ∀ p ∈ v.published, Naming.VariableOf p.name p.type p.ident) (n : ShaderNode) :
    ∀ p ∈ (furnish n v).2.published, Naming.VariableOf p.name p.type p.ident := by
  rw [furnish]
  cases n.implementation with
  | constant t =>
    show ∀ p ∈ (furnishConstant n t v).2.published, _
    rw [furnishConstant]
    split <;> exact h
  | image t =>
    have hfile : ∀ p ∈ (furnishFile n v).2.published, Naming.VariableOf p.name p.type p.ident := by
      rw [furnishFile]
      split
      · intro p hp
        rcases Port.mem_of_mem_addTo hp with hp | rfl
        · exact h p hp
        · exact (Naming.variableName_grants _ _ v.identifiers).spelled
      · exact h
    show ∀ p ∈ (furnishImage n v).2.published, _
    rw [furnishImage, furnishCoordinates]
    split <;> exact hfile
  | geometric | texcoord | hostNumber | surface => exact h
  | arithmetic | mix | transformMatrix | diffuseBsdf | uniformEdf | surfaceUnlit => exact h

/-- **What one node keeps, all nodes keep.** -/
theorem furnishAll_induction {P : Inventory → Prop} (hstep : ∀ n v, P v → P (furnish n v).2) :
    ∀ (nodes : List ShaderNode) {v : Inventory}, P v → P (furnishAll nodes v).2 := by
  intro nodes
  induction nodes with
  | nil => intro v h; exact h
  | cons n rest ih => intro v h; exact ih (hstep n v h)

/-! ## Names of the host -/

/-- The tokens of geometric data. -/
def geometricTokens : List Text :=
  [Geometric.position, .normal, .tangent, .bitangent].flatMap fun g => [g.worldToken, g.objectToken]

/-- The tokens that name vertex data: geometric ones, and numbered texture coordinates. -/
def VertexToken (token : Text) : Prop :=
  token ∈ geometricTokens ∨ ∃ i : Int, token = Token.texcoord ++ "_" ++ Text.ofInt i

/-- Vertex data and uniforms of the host are named by tokens, vertex data by distinct ones. -/
structure Hosted (v : Inventory) : Prop where
  vertex : ∀ p ∈ v.vertex, VertexToken p.name ∧ p.ident = p.name ∧ p.type ≠ .matrix33
  distinct : (v.vertex.map Port.name).Nodup
  hidden : ∀ p ∈ v.hidden, p.name ∈ Token.standard.tokens ∧ p.ident = p.name ∧ p.type ≠ .matrix33

/-- More vertex data keeps the names of the host in order, if a token names it. -/
theorem hosted_needVertex (h : Hosted v) {token : Text} {t : DataType} (htoken : VertexToken token)
    (ht : t ≠ .matrix33) : Hosted (v.needVertex token t) where
  vertex p hp := by
    rcases Port.mem_of_mem_addTo hp with hp | rfl
    · exact h.vertex p hp
    · exact ⟨htoken, rfl, ht⟩
  distinct := Port.nodup_addTo h.distinct
  hidden := h.hidden

/-- More uniforms of the host keep them in order, too. -/
theorem hosted_needHidden (h : Hosted v) {token : Text} {t : DataType}
    (htoken : token ∈ Token.standard.tokens) (ht : t ≠ .matrix33) : Hosted (v.needHidden token t) where
  vertex := h.vertex
  distinct := h.distinct
  hidden p hp := by
    rcases Port.mem_of_mem_addTo hp with hp | rfl
    · exact h.hidden p hp
    · exact ⟨htoken, rfl, ht⟩

/-- In either space, geometric data is named by a geometric token. -/
theorem geometricToken_mem (n : ShaderNode) (g : Geometric) : n.geometricToken g ∈ geometricTokens := by
  rw [ShaderNode.geometricToken]
  cases g <;> split <;> decide

theorem vertexToken_first : VertexToken ShaderNode.firstTexcoord := Or.inr ⟨0, by decide⟩

/-- The texture of an image is none of the host's names, and its coordinates have a number. -/
theorem hosted_image (h : Hosted v) (n : ShaderNode) : Hosted (furnishImage n v).2 := by
  have hfile : Hosted (furnishFile n v).2 := by
    rw [furnishFile]
    split
    · exact ⟨h.vertex, h.distinct, h.hidden⟩
    · exact h
  rw [furnishImage, furnishCoordinates]
  split
  · exact hfile
  · exact hosted_needVertex hfile vertexToken_first (by decide)

theorem hosted_surface (h : Hosted v) : Hosted v.furnishSurface :=
  have hposition : Hosted (v.needVertex Token.positionWorld .vector3) :=
    hosted_needVertex h (Or.inl (by decide)) (by decide)
  hosted_needHidden (hosted_needVertex hposition (Or.inl (by decide)) (by decide)) (by decide) (by decide)

/-- One node keeps the names of the host. -/
theorem hosted_furnish (h : Hosted v) (n : ShaderNode) : Hosted (furnish n v).2 := by
  rw [furnish]
  cases n.implementation with
  | constant t =>
    show Hosted (furnishConstant n t v).2
    rw [furnishConstant]
    split
    · exact h
    · exact ⟨h.vertex, h.distinct, h.hidden⟩
  | geometric g => exact hosted_needVertex h (Or.inl (geometricToken_mem n g)) (by decide)
  | texcoord => exact hosted_needVertex h (Or.inr ⟨_, rfl⟩) (by decide)
  | hostNumber k => exact hosted_needHidden h (by cases k <;> decide) (by decide)
  | image t => exact hosted_image h n
  | surface l => exact hosted_surface h
  | arithmetic | mix | transformMatrix | diffuseBsdf | uniformEdf | surfaceUnlit => exact h

/-! ## What nodes ask of the host -/

/-- The vertex data that a node asks for. -/
def vertexNeeds (n : ShaderNode) : List Text :=
  match n.implementation with
  | .geometric g => [n.geometricToken g]
  | .texcoord => [n.texcoordToken]
  | .image _ => if n.isConnected "texcoord" then [] else [ShaderNode.firstTexcoord]
  | .surface _ => [Token.positionWorld, Token.normalWorld]
  | _ => []

/-- The uniforms of the host that a node asks for. -/
def hiddenNeeds (n : ShaderNode) : List Text :=
  match n.implementation with
  | .hostNumber h => [h.token]
  | .surface _ => [Token.viewPosition]
  | _ => []

/-- One node adds what it asks for, and nothing else. -/
theorem names_furnish (n : ShaderNode) (v : Inventory) (x : Text) :
    (x ∈ (furnish n v).2.vertex.map Port.name ↔
      x ∈ v.vertex.map Port.name ∨ x ∈ vertexNeeds (furnish n v).1) ∧
    (x ∈ (furnish n v).2.hidden.map Port.name ↔
      x ∈ v.hidden.map Port.name ∨ x ∈ hiddenNeeds (furnish n v).1) := by
  have hone : ∀ {ports : List Port} (token : Text) (t : DataType),
      x ∈ (Port.addTo ports (VariableBlock.plainPort token t none)).map Port.name ↔
        x ∈ ports.map Port.name ∨ x = token := fun token t => Port.name_mem_addTo
  rw [furnish]
  cases himplementation : n.implementation with
  | constant t =>
    simp only [furnishConstant]
    split <;> simp [vertexNeeds, hiddenNeeds, himplementation]
  | geometric g =>
    simp only [vertexNeeds, hiddenNeeds, himplementation, needVertex, hone, List.mem_singleton,
      List.not_mem_nil, or_false, and_self]
  | texcoord =>
    simp only [vertexNeeds, hiddenNeeds, himplementation, needVertex, hone, List.mem_singleton,
      List.not_mem_nil, or_false, and_self]
  | hostNumber k =>
    simp only [vertexNeeds, hiddenNeeds, himplementation, needHidden, hone, List.mem_singleton,
      List.not_mem_nil, or_false, and_self]
  | surface l =>
    simp only [vertexNeeds, hiddenNeeds, himplementation, furnishSurface, needVertex, needHidden, hone,
      List.mem_cons, List.not_mem_nil, or_false, or_assoc, and_self]
  -- An image asks for coordinates unless some are connected; the file before that changes no needs.
  | image t =>
    have hfile : (furnishFile n v).1.implementation = .image t ∧ (furnishFile n v).2.vertex = v.vertex ∧
        (furnishFile n v).2.hidden = v.hidden := by
      rw [furnishFile]
      split <;> exact ⟨himplementation, rfl, rfl⟩
    obtain ⟨hkept, hvertex, hhidden⟩ := hfile
    have hneeds : hiddenNeeds (furnishFile n v).1 = [] := by rw [hiddenNeeds, hkept]
    simp only [furnishImage, furnishCoordinates, hneeds, List.not_mem_nil, or_false]
    by_cases hconnected : (furnishFile n v).1.isConnected "texcoord" = true
    · have hnone : vertexNeeds (furnishFile n v).1 = [] := by rw [vertexNeeds, hkept]; exact if_pos hconnected
      simp only [if_pos hconnected, hnone, hvertex, hhidden, List.not_mem_nil, or_false, and_self]
    · have hfirst : vertexNeeds (furnishFile n v).1 = [ShaderNode.firstTexcoord] := by
        rw [vertexNeeds, hkept]
        exact if_neg hconnected
      simp only [if_neg hconnected, hfirst, needVertex, hone, hvertex, hhidden, List.mem_singleton, and_self]
  | arithmetic | mix | transformMatrix | diffuseBsdf | uniformEdf | surfaceUnlit =>
    simp only [vertexNeeds, hiddenNeeds, himplementation, List.not_mem_nil, or_false, and_self]

/-- **All nodes add what they ask for, and nothing else.** -/
theorem names_furnishAll : ∀ (nodes : List ShaderNode) (v : Inventory) (x : Text),
    (x ∈ (furnishAll nodes v).2.vertex.map Port.name ↔
      x ∈ v.vertex.map Port.name ∨ ∃ n ∈ (furnishAll nodes v).1, x ∈ vertexNeeds n) ∧
    (x ∈ (furnishAll nodes v).2.hidden.map Port.name ↔
      x ∈ v.hidden.map Port.name ∨ ∃ n ∈ (furnishAll nodes v).1, x ∈ hiddenNeeds n) := by
  intro nodes
  induction nodes with
  | nil => intro v x; simp [furnishAll]
  | cons n rest ih =>
    intro v x
    obtain ⟨hvertex, hhidden⟩ := names_furnish n v x
    obtain ⟨hvertices, hhiddens⟩ := ih (furnish n v).2 x
    have hcons : furnishAll (n :: rest) v =
        ((furnish n v).1 :: (furnishAll rest (furnish n v).2).1, (furnishAll rest (furnish n v).2).2) := rfl
    rw [hcons]
    simp only [List.mem_cons, exists_eq_or_imp]
    rw [hvertices, hvertex, hhiddens, hhidden, or_assoc, or_assoc]
    exact ⟨Iff.rfl, Iff.rfl⟩

end Inventory

/-! ## Where nodes read from -/

namespace ShaderNode

/-- `m` is `n` with other inputs and another constant. -/
def Furnished (n m : ShaderNode) : Prop :=
  m = { n with inputs := m.inputs, constant := m.constant }

/-- The ports that a node may read: those its inputs are connected to, and its constant. -/
def sources (n : ShaderNode) : List Port := n.inputs.filterMap ShaderInput.connection ++ n.constant.toList

/-- A node may read its constant. -/
theorem constant_mem_sources {n : ShaderNode} {p : Port} (h : n.constant = some p) : p ∈ n.sources := by
  rw [sources, h]
  exact List.mem_append_right _ (List.mem_singleton_self p)

/-- What a node reads from an input: a port among its sources, a literal, the text to fall back on, or a
zero. -/
theorem operand_cases (n : ShaderNode) (name fallback : Text) :
    (∃ p ∈ n.sources, n.operand name fallback = .port p) ∨ (∃ v, n.operand name fallback = .literal v) ∨
      n.operand name fallback = .text fallback ∨ ∃ t, n.operand name fallback = .zero t := by
  rw [operand]
  cases hinput : n.input? name with
  | none => exact Or.inr (Or.inr (Or.inl rfl))
  | some i =>
    cases hconnection : i.connection with
    | some p =>
      have hp : p ∈ n.inputs.filterMap ShaderInput.connection :=
        List.mem_filterMap.mpr ⟨i, List.mem_of_find?_eq_some hinput, hconnection⟩
      exact Or.inl ⟨p, List.mem_append_left _ hp, by simp only [hconnection]⟩
    | none =>
      cases hvalue : i.value with
      | some v => exact Or.inr (Or.inl ⟨v, by simp only [hconnection, hvalue]⟩)
      | none =>
        simp only [hconnection, hvalue]
        split
        · exact Or.inr (Or.inr (Or.inl rfl))
        · exact Or.inr (Or.inr (Or.inr ⟨i.type, rfl⟩))

/-- Every node reads only given ports and outputs of nodes before it. -/
def Supplied : List Port → List ShaderNode → Prop
  | _, [] => True
  | ports, n :: rest => (∀ p ∈ n.sources, p ∈ ports) ∧ Supplied (ports ++ n.outputs) rest

/-- More ports to read from do no harm. -/
theorem Supplied.mono : ∀ {nodes : List ShaderNode} {ports ports' : List Port},
    Supplied ports nodes → ports ⊆ ports' → Supplied ports' nodes := by
  intro nodes
  induction nodes with
  | nil => intro ports ports' _ _; trivial
  | cons n rest ih =>
    intro ports ports' h hsub
    refine ⟨fun p hp => hsub (h.1 p hp), ih h.2 fun p hp => ?_⟩
    rcases List.mem_append.mp hp with hp | hp
    · exact List.mem_append_left _ (hsub hp)
    · exact List.mem_append_right _ hp

/-- A node at the end may read the outputs of all others. -/
theorem Supplied.concat : ∀ {nodes : List ShaderNode} {ports : List Port} {n : ShaderNode},
    Supplied ports nodes → (∀ p ∈ n.sources, p ∈ ports ++ nodes.flatMap ShaderNode.outputs) →
    Supplied ports (nodes ++ [n]) := by
  intro nodes
  induction nodes with
  | nil =>
    intro ports n _ hn
    rw [List.flatMap_nil, List.append_nil] at hn
    exact ⟨hn, trivial⟩
  | cons m rest ih =>
    intro ports n h hn
    rw [List.flatMap_cons, ← List.append_assoc] at hn
    exact ⟨h.1, ih h.2 hn⟩

/-- A node reads given ports and outputs of the nodes in front of it. -/
theorem Supplied.sources : ∀ {before after : List ShaderNode} {ports : List Port} {n : ShaderNode},
    Supplied ports (before ++ n :: after) →
    ∀ p ∈ n.sources, p ∈ ports ++ before.flatMap ShaderNode.outputs := by
  intro before
  induction before with
  | nil =>
    intro after ports n h p hp
    rw [List.flatMap_nil, List.append_nil]
    exact h.1 p hp
  | cons m before ih =>
    intro after ports n h p hp
    rw [List.flatMap_cons, ← List.append_assoc]
    exact ih h.2 p hp

end ShaderNode

namespace Inventory

open ShaderNode (Furnished Supplied)

variable (n : ShaderNode) (v : Inventory)

/-- What furnishing a node does to the ports that it and others read: it adds ports, and the node reads
one that is there. -/
structure Supplies (n : ShaderNode) (v : Inventory) (result : ShaderNode × Inventory) : Prop where
  node : Furnished n result.1
  constants : v.constants ⊆ result.2.constants
  published : v.published ⊆ result.2.published
  sources : ∀ p ∈ result.1.sources, p ∈ n.sources ∨ p ∈ result.2.constants ++ result.2.published

variable {n v}

/-- A node that only asks the host for something reads what it read. -/
theorem supplies_of_ports {w : Inventory} (hconstants : w.constants = v.constants)
    (hpublished : w.published = v.published) : Supplies n v (n, w) where
  node := rfl
  constants := by rw [hconstants]; exact List.Subset.refl _
  published := by rw [hpublished]; exact List.Subset.refl _
  sources _ hp := Or.inl hp

/-- A constant node reads the port that stands for its constant. -/
theorem supplies_constant (t : DataType) : Supplies n v (furnishConstant n t v) := by
  rw [furnishConstant]
  split
  · exact supplies_of_ports rfl rfl
  · refine ⟨rfl, Port.subset_addTo, List.Subset.refl _, fun p hp => ?_⟩
    rcases List.mem_append.mp hp with hp | hp
    · exact Or.inl (List.mem_append_left _ hp)
    · refine Or.inr (List.mem_append_left _ ?_)
      obtain rfl := Option.some.inj (Option.mem_toList.mp hp)
      exact Port.standIn_mem

/-- A node with a new texture reads the port that stands for it. -/
theorem supplies_texture (input : Text) : Supplies n v (furnishTexture n input v) := by
  refine ⟨rfl, List.Subset.refl _, Port.subset_addTo, fun p hp => ?_⟩
  rw [ShaderNode.sources, furnishTexture, ShaderNode.addInput, List.filterMap_append] at hp
  rcases List.mem_append.mp hp with hp | hp
  · rcases List.mem_append.mp hp with hp | hp
    · exact Or.inl (List.mem_append_left _ hp)
    · obtain rfl := List.mem_singleton.mp hp
      exact Or.inr (List.mem_append_right _ Port.standIn_mem)
  · exact Or.inl (List.mem_append_right _ hp)

/-- An image reads its texture, be it new or not. -/
theorem supplies_image : Supplies n v (furnishImage n v) := by
  have hfile : Supplies n v (furnishFile n v) := by
    rw [furnishFile]
    split
    · exact supplies_texture _
    · exact supplies_of_ports rfl rfl
  rw [furnishImage, furnishCoordinates]
  split <;> exact ⟨hfile.node, hfile.constants, hfile.published, hfile.sources⟩

/-- One node: it finds what it reads, and the others still find theirs. -/
theorem supplies_furnish (n : ShaderNode) (v : Inventory) : Supplies n v (furnish n v) := by
  rw [furnish]
  cases n.implementation with
  | constant t => exact supplies_constant t
  | image t => exact supplies_image
  | geometric | texcoord | hostNumber | surface => exact supplies_of_ports rfl rfl
  | arithmetic | mix | transformMatrix | diffuseBsdf | uniformEdf | surfaceUnlit =>
    exact supplies_of_ports rfl rfl

/-- The run over all nodes only adds ports. -/
theorem subset_furnishAll (nodes : List ShaderNode) (v : Inventory) :
    v.constants ⊆ (furnishAll nodes v).2.constants ∧ v.published ⊆ (furnishAll nodes v).2.published :=
  furnishAll_induction (P := fun w => v.constants ⊆ w.constants ∧ v.published ⊆ w.published)
    (fun n w h => ⟨List.Subset.trans h.1 (supplies_furnish n w).constants,
      List.Subset.trans h.2 (supplies_furnish n w).published⟩)
    nodes ⟨List.Subset.refl _, List.Subset.refl _⟩

/-- All nodes keep everything but inputs and constants. -/
theorem furnished_furnishAll : ∀ (nodes : List ShaderNode) (v : Inventory),
    List.Forall₂ Furnished nodes (furnishAll nodes v).1 := by
  intro nodes
  induction nodes with
  | nil => intro v; exact .nil
  | cons n rest ih => intro v; exact .cons (supplies_furnish n v).node (ih _)

/-- **Every node is supplied**: with the constants and the published ports of the end, and with the
outputs of the nodes before it. -/
theorem supplied_furnishAll : ∀ (nodes : List ShaderNode) (v : Inventory) (outputs : List Port),
    Supplied (v.constants ++ v.published ++ outputs) nodes →
    Supplied ((furnishAll nodes v).2.constants ++ (furnishAll nodes v).2.published ++ outputs)
      (furnishAll nodes v).1 := by
  intro nodes
  induction nodes with
  | nil => intro v outputs _; trivial
  | cons n rest ih =>
    intro v outputs h
    have hstep := supplies_furnish n v
    have hrun := subset_furnishAll rest (furnish n v).2
    -- What is there after the first node is there at the end.
    have hlater : (furnish n v).2.constants ++ (furnish n v).2.published ⊆
        (furnishAll (n :: rest) v).2.constants ++ (furnishAll (n :: rest) v).2.published :=
      List.append_subset.mpr ⟨List.subset_append_of_subset_left _ hrun.1,
        List.subset_append_of_subset_right _ hrun.2⟩
    have hnow : v.constants ++ v.published ⊆ (furnish n v).2.constants ++ (furnish n v).2.published :=
      List.append_subset.mpr ⟨List.subset_append_of_subset_left _ hstep.constants,
        List.subset_append_of_subset_right _ hstep.published⟩
    refine ⟨fun p hp => ?_, ?_⟩
    · rcases hstep.sources p hp with hp | hp
      · rcases List.mem_append.mp (h.1 p hp) with hp | hp
        · exact List.mem_append_left _ (hlater (hnow hp))
        · exact List.mem_append_right _ hp
      · exact List.mem_append_left _ (hlater hp)
    · have hrest := ih (furnish n v).2 (outputs ++ n.outputs) (h.2.mono fun p hp => by
        rw [List.append_assoc] at hp
        rcases List.mem_append.mp hp with hp | hp
        · exact List.mem_append_left _ (hnow hp)
        · exact List.mem_append_right _ hp)
      have houtputs : (furnish n v).1.outputs = n.outputs := by rw [hstep.node]
      show Supplied (_ ++ _ ++ outputs ++ (furnish n v).1.outputs) (furnishAll rest (furnish n v).2).1
      rw [houtputs, List.append_assoc]
      exact hrest

end Inventory
end ShadeGraph
