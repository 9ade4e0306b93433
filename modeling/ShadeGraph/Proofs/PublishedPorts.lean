/-
  Which published port an input of a graph gets.

  1. A `Publication` is what an input asks for: a name, a type and a value.  Interface inputs ask for one,
     and so does every texture that nothing is bound to (`Graph.publications`).
  2. Adding ports to a block keeps the first one of each name, so that looking up a name finds the first
     port that was added under it (`VariableBlock.find?_foldl_add`), now and at any later time.
  3. Every step of making a shader adds ports for what is asked for and nothing else (`Publishes`), and an
     open texture reads the port of its name (`ShaderInput.Takes`).  The steps are put together along the
     inputs of a node, along the nodes, and along the variables that nodes add.
  4. What holds of a shader when its nodes have their variables (`Assembled`), and is kept by further uniforms
     and stages, holds of every shader that is made (`MadeFrom.of_assembled`).
  5. So two inputs share a port exactly if their names clash, and then one of them reads a port that was
     made for the other (`own_ports_iff_names_distinct`).

  Nothing here depends on how variables are named: plain shaders and fragments are treated alike.
-/
import ShadeGraph.Proofs.Computation
import ShadeGraph.Proofs.Creation

namespace ShadeGraph

/-! ## What is asked for -/

/-- What an input of a graph asks to be published. -/
structure Publication where
  name : Text
  type : DataType
  value : Option Value
  deriving DecidableEq, Repr

/-- The port is what is asked for. -/
def Port.Carries (p : Port) (w : Publication) : Prop :=
  p.name = w.name ∧ p.type = w.type ∧ p.value = w.value

/-- An interface input is published as it is. -/
def InterfaceInput.publication (i : InterfaceInput) : Publication := ⟨i.name, i.type, i.value⟩

namespace NodeInput

/-- A texture that nothing is bound to. -/
def isOpenTexture (i : NodeInput) : Bool := i.type = .filename && !i.isBound

/-- A texture is published under the names of its node and of itself. -/
def publication (node : Text) (i : NodeInput) : Publication := ⟨node ++ "_" ++ i.name, i.type, i.value⟩

/-- The texture of an image that does not mention it. -/
def impliedFile : NodeInput := ⟨"file", .filename, none, [], [], []⟩

theorem isOpenTexture_iff {i : NodeInput} :
    i.isOpenTexture = true ↔ i.type = .filename ∧ i.node = [] ∧ i.interface = [] := by
  simp [isOpenTexture, isBound]

end NodeInput

namespace Node

/-- The inputs that an implementation adds to those of a node. -/
def impliedInputs (n : Node) : Implementation → List NodeInput
  | .image _ =>
    if (n.inputs.find? (·.name == NodeInput.impliedFile.name)).isNone then [.impliedFile] else []
  | _ => []

/-- The inputs that a node does not mention and gets all the same. -/
def furtherInputs (registry : Registry) (n : Node) : List NodeInput :=
  ((registry.lookup n.definition).map n.impliedInputs).getD []

/-- The inputs of a node, those included that it does not mention. -/
def allInputs (registry : Registry) (n : Node) : List NodeInput := n.inputs ++ n.furtherInputs registry

end Node

/-- What the textures among the inputs of a node ask for. -/
def texturesOf (node : Text) (inputs : List NodeInput) : List Publication :=
  (inputs.filter (·.isOpenTexture)).map (NodeInput.publication node)

/-- The textures of more inputs come behind those of the first ones. -/
theorem texturesOf_append (node : Text) (first second : List NodeInput) :
    texturesOf node (first ++ second) = texturesOf node first ++ texturesOf node second := by
  rw [texturesOf, List.filter_append, List.map_append]
  rfl

/-- What the inputs of a graph ask to be published. -/
def Graph.publications (registry : Registry) (g : Graph) : List Publication :=
  g.inputs.map InterfaceInput.publication ++
    g.nodes.flatMap fun n => texturesOf n.name (n.allInputs registry)

/-! ## Ports are added for what is asked for -/

/-- `after` is `before` with ports added for what is asked for, in this order. -/
def Publishes (wanted : List Publication) (before after : VariableBlock) : Prop :=
  ∃ asked, List.Forall₂ Port.Carries asked wanted ∧ after = asked.foldl VariableBlock.add before

namespace Publishes

variable {first second : List Publication} {a b c : VariableBlock}

theorem refl (b : VariableBlock) : Publishes [] b b := ⟨[], .nil, rfl⟩

/-- A port that is what was asked for. -/
theorem one {p : Port} {w : Publication} (h : p.Carries w) (b : VariableBlock) :
    Publishes [w] b (b.add p) := ⟨[p], .cons h .nil, rfl⟩

/-- What is published first comes first. -/
theorem trans (h₁ : Publishes first a b) (h₂ : Publishes second b c) :
    Publishes (first ++ second) a c := by
  obtain ⟨asked₁, hcarries₁, rfl⟩ := h₁
  obtain ⟨asked₂, hcarries₂, rfl⟩ := h₂
  exact ⟨asked₁ ++ asked₂, List.rel_append hcarries₁ hcarries₂, (List.foldl_append ..).symm⟩

theorem name_eq (h : Publishes first a b) : b.name = a.name := by
  obtain ⟨asked, _, rfl⟩ := h
  exact VariableBlock.name_foldl_add asked a

/-- What is found once is found for ever. -/
theorem find? (h : Publishes first a b) {x : Text} {p : Port} (hp : a.find? x = some p) :
    b.find? x = some p := by
  obtain ⟨asked, _, rfl⟩ := h
  exact VariableBlock.find?_foldl_add_of_some asked hp

/-- Publishing keeps the index of a block in step. -/
theorem indexed (h : Publishes first a b) (ha : a.Indexed) : b.Indexed := by
  obtain ⟨asked, _, rfl⟩ := h
  exact ha.foldl_add asked

end Publishes

/-! ## Interface inputs and outputs of nodes -/

/-- A port with the name and the type of an output. -/
def Port.Provides (o : NodeOutput) (p : Port) : Prop := p.name = o.name ∧ p.type = o.type

namespace Shader

variable {naming : Naming}

/-- The port of an interface input has the name, the type and the value that the input asks for. -/
theorem carries_namePorts : ∀ (inputs : List InterfaceInput) (ids : IdentifierMap),
    List.Forall₂ Port.Carries (namePorts naming inputs ids).1 (inputs.map InterfaceInput.publication) := by
  intro inputs
  induction inputs with
  | nil => intro ids; exact .nil
  | cons i rest ih => intro ids; exact .cons ⟨rfl, rfl, rfl⟩ (ih _)

/-- The outputs of a node become ports with their names and types. -/
theorem provides_nameOutputs (node : Text) : ∀ (outputs : List NodeOutput) (ids : IdentifierMap),
    List.Forall₂ Port.Provides outputs (nameOutputs naming node outputs ids).1 := by
  intro outputs
  induction outputs with
  | nil => intro ids; exact .nil
  | cons o rest ih => intro ids; exact .cons ⟨rfl, rfl⟩ (ih _)

end Shader

/-- A graph and the block of its interface inputs both look up the first input of a name. -/
theorem Graph.find?_interfaces {g : Graph} {interfaces : VariableBlock} {name instanceName : Text}
    (h : Publishes (g.inputs.map InterfaceInput.publication) (.empty name instanceName) interfaces) (x : Text) :
    Option.Rel (fun p i => p.Carries (InterfaceInput.publication i)) (interfaces.find? x) (g.interface? x) := by
  obtain ⟨asked, hcarries, rfl⟩ := h
  have hfind : (asked.foldl VariableBlock.add (.empty name instanceName)).find? x =
      asked.find? (·.name == x) := by
    rw [VariableBlock.find?_foldl_add _ _ (VariableBlock.indexed_empty name instanceName)]
    rfl
  rw [hfind]
  exact find?_rel (fun p i h => by rw [h.1]; rfl) (List.forall₂_map_right_iff.mp hcarries)

/-- The published interface inputs have the types that a look-up in the graph gives. -/
def Graph.TypesInterfaces (g : Graph) (interfaces : VariableBlock) : Prop :=
  ∀ x f p, g.interface? x = some f → interfaces.find? x = some p → p.type = f.type

/-- **The port under the name of an interface input has the type that the graph gives the name**: both look-ups
take the first of several inputs of one name. -/
theorem Graph.typesInterfaces {g : Graph} {interfaces : VariableBlock} {name instanceName : Text}
    (h : Publishes (g.inputs.map InterfaceInput.publication) (.empty name instanceName) interfaces) :
    g.TypesInterfaces interfaces := by
  intro x f p hf hp
  have hrel := Graph.find?_interfaces h x
  rw [hp, hf] at hrel
  cases hrel with
  | some h => exact h.2.1

/-! ## What an input of a shader reads -/

/-- An input of a shader for an input of a graph.  An open texture reads the published port of its name;
any other port that is read has the type of the input. -/
structure ShaderInput.Takes (published : VariableBlock) (node : Text) (i : NodeInput)
    (j : ShaderInput) : Prop where
  name : j.name = i.name
  type : j.type = i.type
  texture : i.isOpenTexture = true →
    ∃ p, j.connection = some p ∧ published.find? (i.publication node).name = some p
  typed : i.isOpenTexture = false → ∀ p ∈ j.connection, p.type = i.type

/-- A node of a shader for a node of a graph whose inputs are given. -/
structure ShaderNode.Follows (registry : Registry) (published : VariableBlock) (n : Node)
    (inputs : List NodeInput) (m : ShaderNode) : Prop where
  name : m.name = n.name
  implementation : registry.lookup n.definition = some m.implementation
  outputs : List.Forall₂ Port.Provides n.allOutputs m.outputs
  inputs : List.Forall₂ (ShaderInput.Takes published n.name) inputs m.inputs

section

variable {registry : Registry} {wanted : List Publication} {before after : VariableBlock}

/-- An input still reads the port of its name when more ports are published. -/
theorem ShaderInput.Takes.mono {node : Text} {i : NodeInput} {j : ShaderInput}
    (h : ShaderInput.Takes before node i j) (hmore : Publishes wanted before after) :
    ShaderInput.Takes after node i j where
  name := h.name
  type := h.type
  texture hopen := by
    obtain ⟨p, hp, hfind⟩ := h.texture hopen
    exact ⟨p, hp, hmore.find? hfind⟩
  typed := h.typed

/-- A node that follows stays so when more is published, because a port that was found is found for ever. -/
theorem ShaderNode.Follows.mono {n : Node} {inputs : List NodeInput} {m : ShaderNode}
    (h : ShaderNode.Follows registry before n inputs m) (hmore : Publishes wanted before after) :
    ShaderNode.Follows registry after n inputs m :=
  ⟨h.name, h.implementation, h.outputs, h.inputs.imp fun _ _ hi => hi.mono hmore⟩

/-- The output that a look-up finds has the type of the one that the same look-up finds in the graph. -/
theorem ShaderNode.Follows.output_type {earlier : List Node} {made : List ShaderNode}
    {inputs : Node → List NodeInput} {node output : Text} {n : Node} {o : NodeOutput} {p : Port}
    (h : List.Forall₂ (fun n m => ShaderNode.Follows registry before n (inputs n) m) earlier made)
    (hn : earlier.find? (·.name == node) = some n) (ho : n.output? output = some o)
    (hp : (made.find? (·.name == node)).bind (fun m => m.outputOrFirst? output) = some p) :
    p.type = o.type := by
  have hnode := find?_rel (p := fun n => n.name == node) (q := fun m => m.name == node)
    (fun n m hnm => by rw [hnm.name]) h
  rw [hn] at hnode
  obtain ⟨m, hm, hmp⟩ := Option.bind_eq_some_iff.mp hp
  rw [hm] at hnode
  cases hnode with
  | some hnm =>
    have houtput : Option.Rel Port.Provides (n.output? output) (m.outputOrFirst? output) := by
      rw [Node.output?, ShaderNode.outputOrFirst?]
      split
      · exact head?_rel hnm.outputs
      · exact find?_rel (fun o p hop => by rw [hop.1]) hnm.outputs
    rw [ho, hmp] at houtput
    cases houtput with
    | some hop => exact hop.2

end

/-! ## Checked bindings -/

namespace Graph

variable {g : Graph} {earlier : List Node} {i : NodeInput}

/-- A checked input that is bound to an interface input has its type. -/
theorem exists_interface (h : g.checkBinding earlier i = .ok ()) (hinterface : i.interface ≠ []) :
    ∃ f, g.interface? i.interface = some f ∧ f.type = i.type := by
  rw [checkBinding] at h
  split at h
  · cases h
  · split at h
    · cases h
    · next f hf =>
      split at h
      · next heq => exact ⟨f, hf, heq⟩
      · cases h

/-- A checked input that is bound to a node has the type of the output that it reads. -/
theorem exists_source (h : g.checkBinding earlier i = .ok ()) (hinterface : i.interface = [])
    (hnode : i.node ≠ []) :
    ∃ n o, earlier.find? (·.name == i.node) = some n ∧ n.output? i.output = some o ∧
      o.type = i.type := by
  rw [checkBinding, if_neg (fun hboth => hboth.2 hinterface), if_neg (not_not_intro hinterface),
    if_pos hnode] at h
  split at h
  · cases h
  · next n hn =>
    split at h
    · cases h
    · next o ho =>
      split at h
      · next heq => exact ⟨n, o, hn, ho, heq⟩
      · cases h

end Graph

namespace Shader

section

variable {registry : Registry} {naming : Naming} {g : Graph} {earlier : List Node} {scope : Scope}
  {node : Text}

/-- An input that is no open texture publishes nothing. -/
theorem takes_closed {i : NodeInput} {published : VariableBlock} {connection : Option Port}
    (hopen : i.isOpenTexture = false) (htyped : ∀ p ∈ connection, p.type = i.type) :
    Publishes (texturesOf node [i]) published published ∧
      ShaderInput.Takes published node i ⟨i.name, i.type, i.value, connection⟩ := by
  have hnothing : texturesOf node [i] = [] := by rw [texturesOf, List.filter_singleton, hopen]; rfl
  refine ⟨?_, rfl, rfl, fun hyes => ?_, fun _ => htyped⟩
  · rw [hnothing]; exact Publishes.refl published
  · rw [hopen] at hyes; cases hyes

/-- One input of a checked node: only an open texture publishes something, and it reads what it finds
under its name. -/
theorem connectInput_takes {i : NodeInput} {ids ids' : IdentifierMap} {published published' : VariableBlock}
    {connection : Option Port} (hindexed : published.Indexed) (hcheck : g.checkBinding earlier i = .ok ())
    (hinterfaces : g.TypesInterfaces scope.interfaces)
    (hearlier : List.Forall₂ (fun n m => ShaderNode.Follows registry published n n.inputs m) earlier
      scope.earlier)
    (h : connectInput naming scope node i ids published = .ok (connection, ids', published')) :
    Publishes (texturesOf node [i]) published published' ∧
      ShaderInput.Takes published' node i ⟨i.name, i.type, i.value, connection⟩ := by
  rw [connectInput] at h
  split at h
  · next hinterface =>
    -- bound to an interface input
    obtain ⟨f, hf, htype⟩ := Graph.exists_interface hcheck hinterface
    cases h
    refine takes_closed (by simp [NodeInput.isOpenTexture, NodeInput.isBound, hinterface]) fun p hp => ?_
    exact (hinterfaces _ f p hf hp).trans htype
  · next hinterface =>
    have hnone : i.interface = [] := not_not.mp hinterface
    split at h
    · next hnode =>
      -- bound to an output of an earlier node
      obtain ⟨n, o, hn, ho, htype⟩ := Graph.exists_source hcheck hnone hnode
      split at h
      · cases h
      · next q hq =>
        cases h
        refine takes_closed (by simp [NodeInput.isOpenTexture, NodeInput.isBound, hnode]) fun p hp => ?_
        obtain rfl := Option.some.inj hp
        exact (ShaderNode.Follows.output_type hearlier hn ho hq).trans htype
    · next hnode =>
      split at h
      · next htexture =>
        -- an open texture
        have hopen : i.isOpenTexture = true :=
          NodeInput.isOpenTexture_iff.mpr ⟨htexture, not_not.mp hnode, hnone⟩
        cases h
        rw [texturesOf, List.filter_singleton, hopen]
        refine ⟨Publishes.one ⟨rfl, rfl, rfl⟩ published, rfl, rfl, fun _ => ?_, fun hno => ?_⟩
        · exact ⟨_, rfl, VariableBlock.find?_add_self hindexed _⟩
        · rw [hopen] at hno; cases hno
      · next htexture =>
        -- no texture, and bound to nothing
        cases h
        exact takes_closed (by simp [NodeInput.isOpenTexture, htexture]) fun p hp => by cases hp

/-- All inputs of a checked node, one after the other. -/
theorem connectInputs_takes (scope : Scope) (hinterfaces : g.TypesInterfaces scope.interfaces) :
    ∀ (inputs : List NodeInput) {ids ids' : IdentifierMap} {published published' : VariableBlock}
      {made : List ShaderInput}, published.Indexed → g.checkInputs earlier node inputs = .ok () →
      List.Forall₂ (fun n m => ShaderNode.Follows registry published n n.inputs m) earlier
        scope.earlier →
      connectInputs naming scope node inputs ids published = .ok (made, ids', published') →
      Publishes (texturesOf node inputs) published published' ∧
        List.Forall₂ (ShaderInput.Takes published' node) inputs made := by
  intro inputs
  induction inputs with
  | nil =>
    intro ids ids' published published' made _ _ _ h
    cases h
    exact ⟨Publishes.refl published, .nil⟩
  | cons i rest ih =>
    intro ids ids' published published' made hindexed hcheck hearlier h
    obtain ⟨hbinding, hcheck⟩ := Graph.checkInputs_cons.mp hcheck
    rw [connectInputs] at h
    obtain ⟨⟨connection, ids₁, published₁⟩, hfirst, h⟩ := bind_eq_ok.mp h
    obtain ⟨⟨made₂, ids₂, published₂⟩, hrest, h⟩ := bind_eq_ok.mp h
    cases h
    obtain ⟨hpublishes, htakes⟩ := connectInput_takes hindexed hbinding hinterfaces hearlier hfirst
    -- What was published for this input stays, so earlier nodes still follow theirs.
    have hlater := hearlier.imp fun _ _ hnm => hnm.mono hpublishes
    obtain ⟨hpublishes₂, htakes₂⟩ := ih (hpublishes.indexed hindexed) hcheck hlater hrest
    refine ⟨?_, .cons (htakes.mono hpublishes₂) htakes₂⟩
    have hboth := hpublishes.trans hpublishes₂
    rwa [← texturesOf_append] at hboth

/-! ## Nodes -/

/-- One node of a checked graph. -/
theorem addNode_takes {interfaces : VariableBlock} {d d' : Draft} {n : Node} (hindexed : d.published.Indexed)
    (hinterfaces : g.TypesInterfaces interfaces) (hcheck : g.checkInputs earlier n.name n.inputs = .ok ())
    (hearlier : List.Forall₂ (fun n m => ShaderNode.Follows registry d.published n n.inputs m) earlier
      d.nodes)
    (h : addNode registry naming interfaces d n = .ok d') :
    Publishes (texturesOf n.name n.inputs) d.published d'.published ∧
      List.Forall₂ (fun n m => ShaderNode.Follows registry d'.published n n.inputs m) (earlier ++ [n])
        d'.nodes := by
  rw [addNode] at h
  split at h
  · cases h
  · next i hlookup =>
    obtain ⟨classification, _, h⟩ := bind_eq_ok.mp h
    obtain ⟨⟨made, ids, published⟩, hinputs, h⟩ := bind_eq_ok.mp h
    cases h
    obtain ⟨hpublishes, htakes⟩ :=
      connectInputs_takes ⟨interfaces, d.nodes⟩ hinterfaces n.inputs hindexed hcheck hearlier hinputs
    refine ⟨hpublishes, List.rel_append (hearlier.imp fun _ _ hnm => hnm.mono hpublishes) ?_⟩
    exact .cons ⟨rfl, hlookup, provides_nameOutputs _ _ _, htakes⟩ .nil

/-- The run over all nodes of a checked graph. -/
theorem addNodes_takes {interfaces : VariableBlock} (hinterfaces : g.TypesInterfaces interfaces) :
    ∀ (rest : List Node) {done : List Node} {d d' : Draft}, d.published.Indexed →
      g.checkNodes done rest = .ok () →
      List.Forall₂ (fun n m => ShaderNode.Follows registry d.published n n.inputs m) done d.nodes →
      rest.foldlM (addNode registry naming interfaces) d = .ok d' →
      Publishes (rest.flatMap fun n => texturesOf n.name n.inputs) d.published d'.published ∧
        List.Forall₂ (fun n m => ShaderNode.Follows registry d'.published n n.inputs m) (done ++ rest)
          d'.nodes := by
  intro rest
  induction rest with
  | nil =>
    intro done d d' _ _ hdone h
    cases h
    rw [List.append_nil]
    exact ⟨Publishes.refl d.published, hdone⟩
  | cons n rest ih =>
    intro done d d' hindexed hcheck hdone h
    obtain ⟨_, _, hinputs, hcheck⟩ := Graph.checkNodes_cons.mp hcheck
    rw [List.foldlM_cons] at h
    obtain ⟨d₁, hnode, h⟩ := bind_eq_ok.mp h
    obtain ⟨hpublishes, hdone₁⟩ := addNode_takes hindexed hinterfaces hinputs hdone hnode
    obtain ⟨hpublishes₂, hall⟩ := ih (hpublishes.indexed hindexed) hcheck hdone₁ h
    rw [List.append_assoc] at hall
    exact ⟨hpublishes.trans hpublishes₂, hall⟩

end

/-! ## The published block of a shader -/

/-- The block of public uniforms of the pixel stage. -/
def published? (s : Shader) : Option VariableBlock :=
  (s.stage? pixelStage).bind (·.uniformBlock? BlockName.publicUniforms)

/-- A new pixel stage has the block that it was made with. -/
theorem published?_new (name : Text) (graph : ShaderGraph) {b : VariableBlock}
    (hb : b.name = BlockName.publicUniforms) :
    (Shader.mk name graph [newPixelStage b]).published? = some b := by
  have hother : (BlockName.privateUniforms == BlockName.publicUniforms) = false := by decide
  show [VariableBlock.empty BlockName.privateUniforms privateInstance, b].find?
    (·.name == BlockName.publicUniforms) = some b
  rw [List.find?_cons_of_neg (by rw [VariableBlock.empty, hother]; exact Bool.false_ne_true)]
  exact List.find?_cons_of_pos (beq_iff_eq.mpr hb)

/-- A stage that is put back is the one that is found from then on. -/
theorem find?_replaceStage (stage : Stage) : ∀ stages : List Stage,
    (stages.find? (·.name == stage.name)).isSome = true →
    (replaceStage stage stages).find? (·.name == stage.name) = some stage := by
  intro stages
  induction stages with
  | nil => intro h; cases h
  | cons first rest ih =>
    intro h
    rw [replaceStage]
    split
    · exact List.find?_cons_of_pos (beq_self_eq_true _)
    · next hname =>
      rw [List.find?_cons_of_neg (by simpa using hname)] at h ⊢
      exact ih h

/-- A changed pixel stage is the pixel stage of the changed shader. -/
theorem published?_setStage {s : Shader} {ps ps' : Stage} (hps : s.stage? pixelStage = some ps)
    (hname : ps'.name = ps.name) :
    (s.setStage ps').published? = ps'.uniformBlock? BlockName.publicUniforms := by
  have hpixel : ps'.name = pixelStage := hname.trans (eq_of_beq (List.find?_some hps :))
  have hfind := find?_replaceStage ps' s.stages (by rw [hpixel]; exact Option.isSome_of_eq_some hps)
  rw [hpixel] at hfind
  rw [published?, stage?, setStage, hfind]
  rfl

end Shader

namespace Stage

/-- The block of that name gets the port. -/
theorem findBlock_addToBlock_self {name : Text} (p : Port) : ∀ {blocks : List VariableBlock}
    {b : VariableBlock}, findBlock blocks name = some b →
    findBlock (addToBlock name p blocks) name = some (b.add p) := by
  intro blocks
  induction blocks with
  | nil => intro b h; cases h
  | cons first rest ih =>
    intro b h
    rw [addToBlock]
    rw [findBlock, List.find?_cons] at h
    by_cases hname : first.name = name
    · simp only [hname, beq_self_eq_true, Option.some.injEq] at h
      subst h
      rw [if_pos hname, findBlock]
      exact List.find?_cons_of_pos (beq_iff_eq.mpr ((first.name_add p).trans hname))
    · simp only [beq_false_of_ne hname] at h
      rw [if_neg hname, findBlock, List.find?_cons_of_neg (by simpa using hname)]
      exact ih h

/-- Blocks of other names stay as they are. -/
theorem findBlock_addToBlock_ne {name other : Text} (hne : name ≠ other) (p : Port) :
    ∀ blocks : List VariableBlock,
      findBlock (addToBlock name p blocks) other = findBlock blocks other := by
  intro blocks
  induction blocks with
  | nil => rfl
  | cons first rest ih =>
    rw [addToBlock]
    split
    · next hname =>
      have hother : (first.name == other) = false := by
        rw [hname]; exact beq_false_of_ne hne
      simp only [findBlock, List.find?_cons, VariableBlock.name_add, hother]
    · rw [findBlock, findBlock, List.find?_cons, List.find?_cons]
      rw [findBlock, findBlock] at ih
      rw [ih]

end Stage

/-! ## Variables of nodes -/

namespace Shader

variable {s s' : Shader} {b : VariableBlock}

/-- Asking for vertex data succeeds only with a pixel stage, and changes one block of it. -/
theorem addVertexData_ok {token : Text} {t : DataType} (h : s.addVertexData token t = .ok s') :
    ∃ ps, s.stage? pixelStage = some ps ∧
      s' = s.setStage (ps.addInput BlockName.vertexData (VariableBlock.plainPort token t none)) := by
  rw [addVertexData] at h
  split at h
  · cases h
  · next ps hps =>
    split at h
    · cases h
    · exact ⟨ps, hps, (Except.ok.inj h).symm⟩

/-- Asking for a uniform of the host changes another block of the pixel stage. -/
theorem addPrivateUniform_ok {token : Text} {t : DataType} (h : s.addPrivateUniform token t = .ok s') :
    ∃ ps, s.stage? pixelStage = some ps ∧
      s' = s.setStage (ps.addUniform BlockName.privateUniforms (VariableBlock.plainPort token t none)) := by
  rw [addPrivateUniform] at h
  split at h
  · cases h
  · next ps hps =>
    split at h
    · cases h
    · exact ⟨ps, hps, (Except.ok.inj h).symm⟩

/-- Vertex data is not published. -/
theorem addVertexData_published {token : Text} {t : DataType} (h : s.addVertexData token t = .ok s') :
    s'.published? = s.published? := by
  obtain ⟨ps, hps, rfl⟩ := addVertexData_ok h
  refine (published?_setStage hps ?_).trans ?_
  · rfl
  · rw [published?, hps]
    rfl

/-- Uniforms of the host are not published. -/
theorem addPrivateUniform_published {token : Text} {t : DataType}
    (h : s.addPrivateUniform token t = .ok s') : s'.published? = s.published? := by
  obtain ⟨ps, hps, rfl⟩ := addPrivateUniform_ok h
  refine (published?_setStage hps ?_).trans ?_
  · rfl
  · rw [published?, hps]
    exact Stage.findBlock_addToBlock_ne (by decide) _ _

/-- Uniforms of a block are added one by one. -/
theorem foldl_addUniform_name (block : Text) : ∀ (ports : List Port) (ps : Stage),
    (ports.foldl (fun ps p => ps.addUniform block p) ps).name = ps.name := by
  intro ports
  induction ports with
  | nil => intro ps; rfl
  | cons p ports ih => intro ps; rw [List.foldl_cons, ih]; rfl

/-- Uniforms that are added to the published block are put behind what is there. -/
theorem addUniforms_published_self {ports : List Port} (h : s.published? = some b)
    (hadd : s.addUniforms BlockName.publicUniforms ports = .ok s') :
    s'.published? = some (ports.foldl VariableBlock.add b) := by
  obtain ⟨ps, hps, rfl⟩ := addUniforms_ok hadd
  have hblock : ps.uniformBlock? BlockName.publicUniforms = some b := by
    rwa [published?, hps] at h
  have hrun : ∀ (ports : List Port) (ps : Stage) (b : VariableBlock),
      ps.uniformBlock? BlockName.publicUniforms = some b →
      (ports.foldl (fun ps p => ps.addUniform BlockName.publicUniforms p) ps).uniformBlock?
        BlockName.publicUniforms = some (ports.foldl VariableBlock.add b) := by
    intro ports
    induction ports with
    | nil => intro ps b hb; exact hb
    | cons p ports ih => intro ps b hb; exact ih _ _ (Stage.findBlock_addToBlock_self p hb)
  exact (published?_setStage hps (foldl_addUniform_name _ ports ps)).trans (hrun ports ps b hblock)

/-- Uniforms for another block do not touch the published one. -/
theorem addUniforms_published_other {block : Text} {ports : List Port} (hne : block ≠ BlockName.publicUniforms)
    (hadd : s.addUniforms block ports = .ok s') : s'.published? = s.published? := by
  obtain ⟨ps, hps, rfl⟩ := addUniforms_ok hadd
  have hrun : ∀ (ports : List Port) (ps : Stage),
      (ports.foldl (fun ps p => ps.addUniform block p) ps).uniformBlock? BlockName.publicUniforms =
        ps.uniformBlock? BlockName.publicUniforms := by
    intro ports
    induction ports with
    | nil => intro ps; rfl
    | cons p ports ih =>
      intro ps
      rw [List.foldl_cons, ih]
      exact Stage.findBlock_addToBlock_ne hne p ps.uniforms
  refine (published?_setStage hps (foldl_addUniform_name _ ports ps)).trans ?_
  rw [hrun, published?, hps]
  rfl

end Shader

namespace ShaderNode

variable {registry : Registry} {naming : Naming} {s s' : Shader} {b : VariableBlock} {k : Node}
  {inputs more : List NodeInput} {n n' : ShaderNode}

/-- What becomes of a node and its shader when it gets more inputs: these are published, and the node
follows the longer list. -/
def Gains (registry : Registry) (k : Node) (inputs more : List NodeInput) (before : VariableBlock)
    (placed : Placed) : Prop :=
  ∃ after, placed.2.published? = some after ∧ Publishes (texturesOf k.name more) before after ∧
    Follows registry after k (inputs ++ more) placed.1

/-- Nothing is gained where the published block stays. -/
theorem gains_nothing (hb : s.published? = some b) (hn : Follows registry b k inputs n) :
    Gains registry k inputs [] b (n, s) := by
  refine ⟨b, hb, Publishes.refl b, ?_⟩
  rw [List.append_nil]
  exact hn

/-- A later step on the shader alone keeps what was gained if it keeps the published block. -/
theorem Gains.keep (h : Gains registry k inputs more b (n, s)) (hs : s'.published? = s.published?) :
    Gains registry k inputs more b (n, s') := by
  obtain ⟨after, hafter, hrest⟩ := h
  exact ⟨after, hs.trans hafter, hrest⟩

theorem withShader_ok {r : Except (Failed EmitError Shader) Shader}
    (h : n.withShader r = .ok (n', s')) : n' = n ∧ r = .ok s' := by
  cases r with
  | error f => cases h
  | ok s => cases h; exact ⟨rfl, rfl⟩

/-- A constant is no input, so nothing is gained. -/
theorem createConstant_gains {t : DataType} (hb : s.published? = some b)
    (hn : Follows registry b k inputs n) (h : n.createConstant naming t s = .ok (n', s')) :
    Gains registry k inputs [] b (n', s') := by
  rw [createConstant] at h
  split at h
  · cases h
    exact gains_nothing hb hn
  · split at h
    · cases h
    · next ps hps =>
      cases h
      refine gains_nothing ?_ ⟨hn.name, hn.implementation, hn.outputs, hn.inputs⟩
      refine Eq.trans ((Shader.published?_setStage hps ?_).trans ?_) hb
      · rfl
      · rw [Shader.published?, hps]
        rfl

/-- **An image that does not mention its texture gains one**, which is published and read like any other. -/
theorem publishTexture_gains (hb : s.published? = some b) (hindexed : b.Indexed)
    (hn : Follows registry b k inputs n)
    (h : n.publishTexture naming NodeInput.impliedFile.name s = .ok (n', s')) :
    Gains registry k inputs [.impliedFile] b (n', s') := by
  obtain ⟨ps, hps, hblock⟩ := Option.bind_eq_some_iff.mp hb
  simp only [publishTexture, hps, hblock, hn.name] at h
  cases h
  have hpublishes : ∀ ident, Publishes (texturesOf k.name [.impliedFile]) b
      (b.add ⟨k.name ++ "_" ++ NodeInput.impliedFile.name, .filename, ident, none⟩) :=
    fun _ => Publishes.one ⟨rfl, rfl, rfl⟩ b
  refine ⟨_, (Shader.published?_setStage hps ?_).trans (Stage.findBlock_addToBlock_self _ hblock),
    hpublishes _, hn.name, hn.implementation, hn.outputs, ?_⟩
  · rfl
  · refine List.rel_append (hn.inputs.imp fun _ _ hi => hi.mono (hpublishes _)) ?_
    exact .cons ⟨rfl, rfl, fun _ => ⟨_, rfl, VariableBlock.find?_add_self hindexed _⟩,
      fun hno => by cases hno⟩ .nil

/-- A node of a shader has an input of a name if the node of the graph has one. -/
theorem Follows.input?_isNone (hn : Follows registry b k k.inputs n) (x : Text) :
    (n.input? x).isNone = (k.inputs.find? (·.name == x)).isNone := by
  have hrel := find?_rel (p := fun i => i.name == x) (q := fun j => j.name == x)
    (fun i j hij => by rw [hij.name]) hn.inputs
  rw [input?]
  generalize k.inputs.find? (·.name == x) = i at hrel ⊢
  generalize n.inputs.find? (·.name == x) = j at hrel ⊢
  cases hrel with
  | none => rfl
  | some _ => rfl

/-- Texture coordinates are no uniforms. -/
theorem coordinates_gains {m : ShaderNode} {u : Shader} (hgains : Gains registry k inputs more b (m, u))
    (h : (if m.isConnected "texcoord" then pure (m, u)
      else m.withShader (u.addVertexData firstTexcoord .vector2)) = .ok (n', s')) :
    Gains registry k inputs more b (n', s') := by
  split at h
  · cases h
    exact hgains
  · obtain ⟨rfl, hvertex⟩ := withShader_ok h
    exact hgains.keep (Shader.addVertexData_published hvertex)

/-- An image gets a texture if it does not mention one. -/
theorem createImage_gains (hb : s.published? = some b) (hindexed : b.Indexed)
    (hn : Follows registry b k k.inputs n) (t : DataType)
    (h : n.createImage naming s = .ok (n', s')) :
    Gains registry k k.inputs (k.impliedInputs (.image t)) b (n', s') := by
  rw [Node.impliedInputs, ← hn.input?_isNone]
  rw [createImage] at h
  split at h
  · next hnone =>
    obtain ⟨⟨m, u⟩, htexture, h⟩ := bind_eq_ok.mp h
    have hnone : (n.input? NodeInput.impliedFile.name).isNone = true := hnone
    rw [if_pos hnone]
    exact coordinates_gains (publishTexture_gains hb hindexed hn htexture) h
  · next hsome =>
    have hsome : ¬ (n.input? NodeInput.impliedFile.name).isNone = true := hsome
    rw [if_neg hsome]
    exact coordinates_gains (gains_nothing hb hn) h

/-- What a surface asks for is not published. -/
theorem createSurface_published (h : createSurface s = .ok s') : s'.published? = s.published? := by
  rw [createSurface] at h
  obtain ⟨s₁, h₁, h⟩ := bind_eq_ok.mp h
  obtain ⟨s₂, h₂, h⟩ := bind_eq_ok.mp h
  exact (Shader.addPrivateUniform_published h).trans
    ((Shader.addVertexData_published h₂).trans (Shader.addVertexData_published h₁))

/-- **The variables of a node.**  Only an image publishes something. -/
theorem createVariables_gains (hb : s.published? = some b) (hindexed : b.Indexed)
    (hn : Follows registry b k k.inputs n) (h : n.createVariables naming s = .ok (n', s')) :
    Gains registry k k.inputs (k.furtherInputs registry) b (n', s') := by
  have hsame : ∀ {r : Except (Failed EmitError Shader) Shader},
      (∀ u, r = .ok u → u.published? = s.published?) → n.withShader r = .ok (n', s') →
      Gains registry k k.inputs [] b (n', s') := by
    intro r hr hok
    obtain ⟨rfl, hu⟩ := withShader_ok hok
    exact (gains_nothing hb hn).keep (hr s' hu)
  rw [Node.furtherInputs, hn.implementation, Option.map_some, Option.getD_some]
  rw [createVariables] at h
  split at h
  · next t ht => rw [ht]; exact createConstant_gains hb hn h
  · next g hg => rw [hg]; exact hsame (fun u hu => Shader.addVertexData_published hu) h
  · next ht => rw [ht]; exact hsame (fun u hu => Shader.addVertexData_published hu) h
  · next x hx => rw [hx]; exact hsame (fun u hu => Shader.addPrivateUniform_published hu) h
  · next t ht => rw [ht]; exact createImage_gains hb hindexed hn t h
  · next l hl => rw [hl]; exact hsame (fun u hu => createSurface_published hu) h
  · next himage _ =>
    cases h
    rw [Node.impliedInputs]
    · exact gains_nothing hb hn
    · exact himage

end ShaderNode

namespace Shader

variable {registry : Registry} {naming : Naming}

/-- The run over the variables of all nodes. -/
theorem createAllVariables_gains : ∀ {ns : List Node} {ms ms' : List ShaderNode} {s s' : Shader}
    {b : VariableBlock}, s.published? = some b → b.Indexed →
    List.Forall₂ (fun n m => ShaderNode.Follows registry b n n.inputs m) ns ms →
    createAllVariables naming ms s = .ok (ms', s') →
    ∃ b', s'.published? = some b' ∧
      Publishes (ns.flatMap fun n => texturesOf n.name (n.furtherInputs registry)) b b' ∧
      List.Forall₂ (fun n m => ShaderNode.Follows registry b' n (n.allInputs registry) m) ns ms' := by
  intro ns
  induction ns with
  | nil =>
    intro ms ms' s s' b hb _ hall h
    cases hall
    cases h
    exact ⟨b, hb, Publishes.refl b, .nil⟩
  | cons n ns ih =>
    intro ms ms' s s' b hb hindexed hall h
    obtain ⟨m, ms, hn, hns, rfl⟩ := List.forall₂_cons_left_iff.mp hall
    rw [createAllVariables] at h
    split at h
    · cases h
    · next m₁ s₁ hm =>
      obtain ⟨⟨ms₂, s₂⟩, hrest, h⟩ := bind_eq_ok.mp h
      cases h
      obtain ⟨b₁, hb₁, hpublishes₁, hn₁⟩ := ShaderNode.createVariables_gains hb hindexed hn hm
      -- Later nodes still follow what was published before their own variables.
      have hns₁ := hns.imp fun _ _ hnm => ShaderNode.Follows.mono hnm hpublishes₁
      obtain ⟨b₂, hb₂, hpublishes₂, hns₂⟩ := ih hb₁ (hpublishes₁.indexed hindexed) hns₁ hrest
      exact ⟨b₂, hb₂, hpublishes₁.trans hpublishes₂, .cons (hn₁.mono hpublishes₂) hns₂⟩

/-! ## The steps of making a shader -/

/-- The block of the interface inputs. -/
def interfaceBlock (ports : List Port) : VariableBlock :=
  ports.foldl VariableBlock.add (.empty BlockName.publicUniforms publicInstance)

/-- A shader as it is when its nodes have got their variables, with the steps that lead there.  How the names
are given plays no part. -/
inductive Assembled (registry : Registry) (g : Graph) : Shader → Prop
  | intro {naming : Naming} {name ident : Text} {ids : IdentifierMap} {ports : List Port} {draft : Draft}
      {graph : ShaderGraph} {classification : Classification} {nodes : List ShaderNode} {made : Shader}
      (hcheck : g.check = .ok ())
      (hports : List.Forall₂ Port.Carries ports (g.inputs.map InterfaceInput.publication))
      (hdraft : g.nodes.foldlM (addNode registry naming (interfaceBlock ports))
        ⟨ids, interfaceBlock ports, []⟩ = .ok draft)
      (hsocket : connectSocket draft.nodes g.output ident = .ok (graph.socket, classification))
      (hnodes : createAllVariables naming draft.nodes ⟨name, graph, [newPixelStage draft.published]⟩ =
        .ok (nodes, made)) :
      Assembled registry g { made with graph := { made.graph with nodes } }

/-- Uniforms of the environment are all that comes afterwards. -/
theorem ofGraph_assembled {name : Text} {g : Graph} {c : Context} {s : Shader} (hcheck : g.check = .ok ())
    (h : ofGraph registry naming name g c = .ok s) :
    ∃ u, Assembled registry g u ∧
      (s = u ∨ u.addUniforms BlockName.privateUniforms (lightingUniforms c.options) = .ok s) := by
  have hcarries : List.Forall₂ Port.Carries (namePorts naming g.inputs (startOf c)).1 _ :=
    carries_namePorts g.inputs (startOf c)
  rw [ofGraph] at h
  generalize hports : namePorts naming g.inputs (startOf c) = named at hcarries
  obtain ⟨ports, ids⟩ := named
  simp only [show c.reserved.foldl IdentifierMap.reserve .reserved = startOf c from rfl, hports] at h
  obtain ⟨draft, hdraft, h⟩ := bind_eq_ok.mp h
  generalize naming.variableName (socketName g.output) g.output.type draft.identifiers = socketNamed at h
  obtain ⟨ident, ids'⟩ := socketNamed
  simp only at h
  obtain ⟨⟨socket, classification⟩, hsocket, h⟩ := bind_eq_ok.mp h
  obtain ⟨⟨nodes, made⟩, hnodes, h⟩ := bind_eq_ok.mp h
  refine ⟨_, .intro hcheck hcarries hdraft hsocket hnodes, ?_⟩
  simp only at h
  split at h
  · exact Or.inr h
  · exact Or.inl (Except.ok.inj h).symm

/-- A shader that was made from a graph: a plain one, or that of a fragment. -/
inductive MadeFrom (registry : Registry) (g : Graph) : Shader → Prop
  | plain {name : Text} {context : Option Context} {s : Shader}
      (h : create registry name (some g) context = .ok s) : MadeFrom registry g s
  | fragment {generator : FragmentGenerator} {name : Text} {context : Option Context} {s : Shader}
      (hregistry : generator.registry = registry)
      (h : generator.createShader name (some g) context = .ok s) : MadeFrom registry g s

section

variable {g : Graph} {P : Shader → Prop} (hassembled : ∀ s, Assembled registry g s → P s)
  (huniforms : ∀ s s' block ports, s.addUniforms block ports = .ok s' → P s → P s')

include hassembled huniforms

/-- A plain shader is an assembled one, with uniforms for lighting if there is need. -/
theorem create_of_assembled {name : Text} {c : Option Context} {s : Shader}
    (h : create registry name (some g) c = .ok s) : P s := by
  unfold create at h
  split at h
  · cases h
  · split at h
    · split at h
      · cases h
      · next g' hg' =>
        obtain ⟨_, hcheck, hg⟩ := bind_eq_ok.mp hg'
        cases hg
        obtain ⟨u, hu, rfl | hadd⟩ := ofGraph_assembled hcheck h
        · exact hassembled _ hu
        · exact huniforms u s _ _ hadd (hassembled u hu)
    · cases h

/-- **What holds of assembled shaders and is kept by further uniforms and stages holds of made shaders.** -/
theorem MadeFrom.of_assembled (hstage : ∀ s name, P s → P (s.createStage name)) {s : Shader}
    (h : MadeFrom registry g s) : P s := by
  cases h with
  | plain h => exact create_of_assembled hassembled huniforms h
  | fragment hregistry h =>
    subst hregistry
    obtain ⟨made, lit, hmade, hlit, rfl⟩ := FragmentGenerator.createShader_steps h
    have hplain := create_of_assembled hassembled huniforms hmade
    refine hstage _ _ ?_
    rcases hlit with rfl | hadd
    · exact hplain
    · exact huniforms made lit _ _ hadd hplain

end

/-! ## The whole shader -/

/-- What holds of a shader that was made from a graph: its nodes follow those of the graph, and its
published block was filled with what the graph asks for before anything else. -/
structure Serves (registry : Registry) (g : Graph) (s : Shader) (b : VariableBlock) : Prop where
  block : s.published? = some b
  asked : ∃ wanted extra name instanceName, wanted.Perm (g.publications registry) ∧
    Publishes (wanted ++ extra) (.empty name instanceName) b
  nodes : List.Forall₂ (fun n m => ShaderNode.Follows registry b n (n.allInputs registry) m) g.nodes
    s.graph.nodes

/-- Textures that nodes mention are published before all others, which does not matter. -/
theorem publications_perm (registry : Registry) (g : Graph) :
    (g.inputs.map InterfaceInput.publication ++ (g.nodes.flatMap fun n => texturesOf n.name n.inputs) ++
      g.nodes.flatMap fun n => texturesOf n.name (n.furtherInputs registry)).Perm
        (g.publications registry) := by
  rw [Graph.publications, List.append_assoc]
  refine List.Perm.append_left _ ((List.flatMap_append_perm g.nodes _ _).trans ?_)
  refine List.Perm.of_eq (congrArg (g.nodes.flatMap ·) (funext fun n => ?_))
  exact (texturesOf_append n.name n.inputs (n.furtherInputs registry)).symm

/-- Further uniforms may be published, and take nothing away. -/
theorem addUniforms_publishes {s s' : Shader} {b : VariableBlock} {block : Text} {ports : List Port}
    (h : s.published? = some b) (hadd : s.addUniforms block ports = .ok s') :
    ∃ wanted b', s'.published? = some b' ∧ Publishes wanted b b' := by
  by_cases hblock : block = BlockName.publicUniforms
  · subst hblock
    refine ⟨ports.map fun p => ⟨p.name, p.type, p.value⟩, _, addUniforms_published_self h hadd, ports, ?_, rfl⟩
    exact List.forall₂_map_right_iff.mpr (List.forall₂_same.mpr fun p _ => ⟨rfl, rfl, rfl⟩)
  · exact ⟨[], b, (addUniforms_published_other hblock hadd).trans h, Publishes.refl b⟩

/-- Further uniforms keep what the graph has asked for. -/
theorem Serves.addUniforms {g : Graph} {s s' : Shader} {b : VariableBlock} {block : Text} {ports : List Port}
    (h : Serves registry g s b) (hadd : s.addUniforms block ports = .ok s') :
    ∃ b', Serves registry g s' b' := by
  obtain ⟨more, b', hb', hmore⟩ := addUniforms_publishes h.block hadd
  obtain ⟨wanted, extra, name, instanceName, hperm, hpublishes⟩ := h.asked
  have hall := hpublishes.trans hmore
  rw [List.append_assoc] at hall
  refine ⟨b', hb', ⟨wanted, _, name, instanceName, hperm, hall⟩, ?_⟩
  rw [graph_addUniforms hadd]
  exact h.nodes.imp fun _ _ hnm => ShaderNode.Follows.mono hnm hmore

theorem publishes_interfaceBlock {g : Graph} {ports : List Port}
    (hports : List.Forall₂ Port.Carries ports (g.inputs.map InterfaceInput.publication)) :
    Publishes (g.inputs.map InterfaceInput.publication) (.empty BlockName.publicUniforms publicInstance)
      (interfaceBlock ports) := ⟨ports, hports, rfl⟩

/-- Behind the interface inputs, textures of nodes are published, then textures that nodes do not mention. -/
theorem steps_publish {g : Graph} {name : Text} {ids : IdentifierMap} {ports : List Port} {draft : Draft}
    {graph : ShaderGraph} {nodes : List ShaderNode} {made : Shader} (hcheck : g.check = .ok ())
    (hports : List.Forall₂ Port.Carries ports (g.inputs.map InterfaceInput.publication))
    (hdraft : g.nodes.foldlM (addNode registry naming (interfaceBlock ports))
      ⟨ids, interfaceBlock ports, []⟩ = .ok draft)
    (hnodes : createAllVariables naming draft.nodes ⟨name, graph, [newPixelStage draft.published]⟩ =
      .ok (nodes, made)) :
    ∃ b, made.published? = some b ∧
      Publishes ((g.nodes.flatMap fun n => texturesOf n.name n.inputs) ++
        g.nodes.flatMap fun n => texturesOf n.name (n.furtherInputs registry)) (interfaceBlock ports) b ∧
      List.Forall₂ (fun n m => ShaderNode.Follows registry b n (n.allInputs registry) m) g.nodes nodes := by
  have hinterfaces := publishes_interfaceBlock hports
  have hindexed := hinterfaces.indexed (VariableBlock.indexed_empty _ _)
  obtain ⟨htextures, hfollow⟩ := addNodes_takes (Graph.typesInterfaces hinterfaces) g.nodes hindexed
    (Graph.check_eq_ok.mp hcheck).2.1 .nil hdraft
  have hname := (hinterfaces.trans htextures).name_eq
  obtain ⟨b, hb, hfurther, hall⟩ := createAllVariables_gains (published?_new _ _ hname)
    (htextures.indexed hindexed) hfollow hnodes
  exact ⟨b, hb, htextures.trans hfurther, hall⟩

/-- **An assembled shader serves its graph**: interface inputs are published first, then what the nodes mention,
then what they do not mention. -/
theorem Assembled.serves {g : Graph} {s : Shader} (h : Assembled registry g s) : ∃ b, Serves registry g s b := by
  cases h with
  | intro hcheck hports hdraft _ hnodes =>
    obtain ⟨b, hb, hpublishes, hall⟩ := steps_publish hcheck hports hdraft hnodes
    have hasked := (publishes_interfaceBlock hports).trans hpublishes
    rw [← List.append_assoc, ← List.append_nil (_ ++ _ ++ _)] at hasked
    exact ⟨b, hb, ⟨_, [], _, _, publications_perm registry g, hasked⟩, hall⟩

/-- A further stage does not hide the pixel stage. -/
theorem createStage_published {s : Shader} {b : VariableBlock} (h : s.published? = some b) (name : Text) :
    (s.createStage name).published? = some b := by
  rw [createStage]
  split
  · exact h
  · obtain ⟨ps, hps, hblock⟩ := Option.bind_eq_some_iff.mp h
    have hstage : (s.stages ++ [Stage.empty name]).find? (·.name == pixelStage) = some ps := by
      rw [List.find?_append, show s.stages.find? (·.name == pixelStage) = some ps from hps]
      rfl
    exact Option.bind_eq_some_iff.mpr ⟨ps, hstage, hblock⟩

/-- A further stage changes nothing. -/
theorem Serves.createStage {g : Graph} {s : Shader} {b : VariableBlock} (h : Serves registry g s b)
    (name : Text) : Serves registry g (s.createStage name) b := by
  refine ⟨createStage_published h.block name, h.asked, ?_⟩
  rw [graph_createStage]
  exact h.nodes

/-- Every shader that is made from a graph serves it, fragments included: what they add comes behind. -/
theorem MadeFrom.serves {g : Graph} {s : Shader} (h : MadeFrom registry g s) :
    ∃ b, Serves registry g s b := by
  refine of_assembled (P := fun s => ∃ b, Serves registry g s b) (fun _ hs => hs.serves) ?_ ?_ h
  · rintro u u' block ports hadd ⟨b, hb⟩
    exact hb.addUniforms hadd
  · rintro u name ⟨b, hb⟩
    exact ⟨b, hb.createStage name⟩

end Shader

/-! ## Ports of one's own -/

/-- The ports that the open textures among the inputs of a node read. -/
def ShaderNode.texturePorts (m : ShaderNode) (inputs : List NodeInput) : List (Option Port) :=
  ((inputs.zip m.inputs).filter (·.1.isOpenTexture)).map (·.2.connection)

namespace Shader

variable {registry : Registry} {g : Graph} {s : Shader} {b : VariableBlock}

/-- The published ports that there are for the inputs of a graph, in the order of
`Graph.publications`: those under the names of the interface inputs, and those that textures read. -/
def granted (registry : Registry) (g : Graph) (s : Shader) : List (Option Port) :=
  g.inputs.map (fun i => s.published?.bind (·.find? i.name)) ++
    (g.nodes.zip s.graph.nodes).flatMap fun x => x.2.texturePorts (x.1.allInputs registry)

/-- Every input that asks for a published port has one of its own, with its type and its value. -/
structure OwnPorts (registry : Registry) (g : Graph) (s : Shader) : Prop where
  carried : List.Forall₂
    (fun w p? => ∃ block p, s.published? = some block ∧ p ∈ block.ports ∧ p? = some p ∧ p.Carries w)
    (g.publications registry) (s.granted registry g)
  unshared : (s.granted registry g).Nodup

/-- Every input of a node reads a port of its own type, if it reads one. -/
def WellTyped (s : Shader) : Prop :=
  ∀ n ∈ s.graph.nodes, ∀ i ∈ n.inputs, ∀ p ∈ i.connection, p.type = i.type

instance (s : Shader) : Decidable s.WellTyped :=
  inferInstanceAs (Decidable (∀ n ∈ s.graph.nodes, ∀ i ∈ n.inputs, ∀ p ∈ i.connection, p.type = i.type))

/-- Open textures read what is found under their names. -/
theorem texturePorts_eq {node : Text} {m : ShaderNode} {inputs : List NodeInput}
    (h : List.Forall₂ (ShaderInput.Takes b node) inputs m.inputs) :
    m.texturePorts inputs = (texturesOf node inputs).map fun w => b.find? w.name := by
  rw [ShaderNode.texturePorts, texturesOf]
  generalize m.inputs = made at h
  induction h with
  | nil => rfl
  | @cons i j inputs made hij _ ih =>
    rw [List.zip_cons_cons, List.filter_cons, List.filter_cons]
    cases hopen : i.isOpenTexture with
    | true =>
      obtain ⟨p, hp, hfind⟩ := hij.texture hopen
      simp only [if_true, List.map_cons, ih, hp, hfind]
    | false => exact ih

/-- **All inputs get what is found under their names.** -/
theorem Serves.granted_eq (h : Serves registry g s b) :
    s.granted registry g = (g.publications registry).map fun w => b.find? w.name := by
  rw [granted, Graph.publications, List.map_append, List.map_map, h.block]
  congr 1
  have hnodes := h.nodes
  generalize s.graph.nodes = made at hnodes
  generalize g.nodes = nodes at hnodes
  induction hnodes with
  | nil => rfl
  | @cons n m nodes made hnm _ ih =>
    rw [List.zip_cons_cons, List.flatMap_cons, List.flatMap_cons, List.map_append, ih,
      texturePorts_eq hnm.inputs]

/-- If names are distinct, what is found under a name is what was asked for. -/
theorem Serves.find?_carries (h : Serves registry g s b)
    (hnames : ((g.publications registry).map Publication.name).Nodup) {w : Publication}
    (hw : w ∈ g.publications registry) : ∃ p, b.find? w.name = some p ∧ p.Carries w := by
  obtain ⟨wanted, extra, name, instanceName, hperm, asked, hcarries, rfl⟩ := h.asked
  have hwanted : w ∈ wanted := hperm.mem_iff.mpr hw
  have hdistinct : (wanted.map Publication.name).Nodup := (hperm.map _).nodup_iff.mpr hnames
  -- The first that asks under the name is the only one.
  have hfirst : wanted.find? (·.name == w.name) = some w := by
    cases hfind : wanted.find? (·.name == w.name) with
    | none => exact absurd (beq_self_eq_true w.name) (List.find?_eq_none.mp hfind w hwanted)
    | some v =>
      have hname : v.name = w.name := eq_of_beq (List.find?_some hfind :)
      rw [List.inj_on_of_nodup_map hdistinct (List.mem_of_find?_eq_some hfind) hwanted hname]
  have hall : (wanted ++ extra).find? (·.name == w.name) = some w := by
    rw [List.find?_append, hfirst]
    rfl
  have hrel := find?_rel (p := fun p => p.name == w.name) (q := fun v => v.name == w.name)
    (fun p v hpv => by rw [hpv.1]) hcarries
  rw [hall] at hrel
  rw [VariableBlock.find?_foldl_add _ _ (VariableBlock.indexed_empty name instanceName)]
  show ∃ p, asked.find? _ = some p ∧ _
  generalize asked.find? (·.name == w.name) = found at hrel
  cases hrel with
  | some hp => exact ⟨_, rfl, hp⟩

/-- With distinct names, looking up a name finds the port that was asked for under it. -/
theorem Serves.ownPorts (h : Serves registry g s b)
    (hnames : ((g.publications registry).map Publication.name).Nodup) : s.OwnPorts registry g := by
  refine ⟨?_, ?_⟩
  · rw [h.granted_eq, List.forall₂_map_right_iff, List.forall₂_same]
    intro w hw
    obtain ⟨p, hp, hcarries⟩ := h.find?_carries hnames hw
    exact ⟨b, p, h.block, VariableBlock.mem_of_find? hp, hp, hcarries⟩
  · -- Ports with different names are different.
    rw [h.granted_eq]
    refine (List.Nodup.of_map _ hnames).map_on fun v hv w hw heq => ?_
    obtain ⟨p, hp, hpv⟩ := h.find?_carries hnames hv
    obtain ⟨q, hq, hqw⟩ := h.find?_carries hnames hw
    rw [hp, hq, Option.some.injEq] at heq
    subst heq
    exact List.inj_on_of_nodup_map hnames hv hw (hpv.1.symm.trans hqw.1)

/-- With distinct names, no input reads a port that was made for another one, so the types are right. -/
theorem Serves.wellTyped (h : Serves registry g s b)
    (hnames : ((g.publications registry).map Publication.name).Nodup) : s.WellTyped := by
  intro m hm j hj p hp
  obtain ⟨n, hn, hfollows⟩ := exists_of_mem_right h.nodes hm
  obtain ⟨i, hi, htakes⟩ := exists_of_mem_right hfollows.inputs hj
  rw [htakes.type]
  cases hopen : i.isOpenTexture with
  | false => exact htakes.typed hopen p hp
  | true =>
    -- The port under the name of a texture was made for it.
    have hasked : i.publication n.name ∈ g.publications registry := by
      refine List.mem_append_right _ (List.mem_flatMap.mpr ⟨n, hn, List.mem_map_of_mem ?_⟩)
      exact List.mem_filter.mpr ⟨hi, hopen⟩
    obtain ⟨q, hq, hfind⟩ := htakes.texture hopen
    obtain ⟨r, hr, hcarries⟩ := h.find?_carries hnames hasked
    have hsame : p = r := by
      rw [hq] at hp
      rw [hfind] at hr
      exact (Option.some.inj hp).symm.trans (Option.some.inj hr)
    rw [hsame]
    exact hcarries.2.1

/-- **Inputs have published ports of their own exactly if no two of them ask for one name.**  The types of
ports and inputs then agree everywhere; otherwise two inputs share a port. -/
theorem own_ports_iff_names_distinct (h : MadeFrom registry g s) :
    (s.OwnPorts registry g ∧ s.WellTyped) ↔ ((g.publications registry).map Publication.name).Nodup := by
  obtain ⟨b, hserves⟩ := h.serves
  constructor
  · rintro ⟨hown, -⟩
    have hunshared := hown.unshared
    rw [hserves.granted_eq, show (fun w : Publication => b.find? w.name) = b.find? ∘ Publication.name
      from rfl, ← List.map_map] at hunshared
    exact List.Nodup.of_map _ hunshared
  · intro hnames
    exact ⟨hserves.ownPorts hnames, hserves.wellTyped hnames⟩

/-- A graph with an interface input, an image that mentions its texture, and one that does not. -/
def imageGraph : Graph :=
  ⟨"G", [⟨"a", .color3, none⟩],
    [⟨"a", "ND_image_color3", .color3, [.impliedFile], []⟩, ⟨"b", "ND_image_color3", .color3, [], []⟩],
    ⟨"out", .color3, "b", [], [], none⟩⟩

theorem own_ports_textured : ∃ s,
    FragmentGenerator.standard.createShader "S" (some imageGraph)
      (some (FragmentGenerator.standard.context .standard)) = .ok s ∧
    s.OwnPorts FragmentGenerator.standard.registry imageGraph ∧ s.WellTyped := by
  have hmade : (FragmentGenerator.standard.createShader "S" (some imageGraph)
      (some (FragmentGenerator.standard.context .standard))).isOk = true := by decide +kernel
  cases h : FragmentGenerator.standard.createShader "S" (some imageGraph)
      (some (FragmentGenerator.standard.context .standard)) with
  | error e => rw [h] at hmade; cases hmade
  | ok s => exact ⟨s, rfl, (own_ports_iff_names_distinct (.fragment rfl h)).mpr (by decide)⟩

/-- A graph with an interface input that is called like the texture of its image. -/
def sharingGraph : Graph :=
  ⟨"G", [⟨"n_file", .float, none⟩], [⟨"n", "ND_image_color3", .color3, [.impliedFile], []⟩],
    ⟨"out", .color3, "n", [], [], none⟩⟩

/-- An image reads a number in the place of its texture. -/
theorem texture_shares_port : ∃ s,
    FragmentGenerator.standard.createShader "S" (some sharingGraph)
      (some (FragmentGenerator.standard.context .standard)) = .ok s ∧
    ¬ s.OwnPorts FragmentGenerator.standard.registry sharingGraph ∧ ¬ s.WellTyped := by
  have hshared : (FragmentGenerator.standard.createShader "S" (some sharingGraph)
      (some (FragmentGenerator.standard.context .standard))).toOption.any (fun s =>
        decide (¬ (s.granted FragmentGenerator.standard.registry sharingGraph).Nodup) &&
          decide (¬ s.WellTyped)) = true := by decide +kernel
  cases h : FragmentGenerator.standard.createShader "S" (some sharingGraph)
      (some (FragmentGenerator.standard.context .standard)) with
  | error e => rw [h] at hshared; cases hshared
  | ok s =>
    rw [h] at hshared
    have hboth := Bool.and_eq_true_iff.mp hshared
    exact ⟨s, rfl, fun hown => of_decide_eq_true hboth.1 hown.unshared, of_decide_eq_true hboth.2⟩

end Shader

end ShadeGraph
