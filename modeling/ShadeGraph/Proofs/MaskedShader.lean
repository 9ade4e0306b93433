/-
  Shaders of graphs that look alike.

  The host sets the interface inputs of a fragment and binds its textures, so the values that a graph gives
  them, and the name of the graph, should not matter to code.  A mask erases them.

  1. `Graph.masked` is what is left of a graph.  Shaders have masks too: ports that code reads by their
     identifiers lose their values, and an input called `file` loses the value that stands behind a port.
  2. Graphs with the same mask are followed side by side: through the inputs of a node
     (`connectInputs_masked`), through all nodes (`addNodes_masked`) and to the output socket.  The check is
     needed in one place: a `file` input of a checked graph always reads a port.
  3. Nodes find values under other names than `file`, so adding their variables commutes with masking
     (`furnish_masked`).
  4. So graphs with the same mask fail with one error, or become shaders with the same mask
     (`ofGraph_masked`).
-/
import ShadeGraph.Proofs.PublishedPorts

namespace ShadeGraph

/-! ## Masks -/

/-- The port without its value. -/
def Port.bare (p : Port) : Port := p.revalued fun _ => none

/-- The interface input without its value. -/
def InterfaceInput.bare (i : InterfaceInput) : InterfaceInput := { i with value := none }

/-- The input names the file of a texture. -/
def NodeInput.NamesFile (i : NodeInput) : Prop := i.name = "file" ∧ i.type = .filename

instance (i : NodeInput) : Decidable i.NamesFile := inferInstanceAs (Decidable (_ ∧ _))

/-- The input without the file of a texture. -/
def NodeInput.masked (i : NodeInput) : NodeInput :=
  { i with value := if i.NamesFile then none else i.value }

/-- The node without the files of textures. -/
def Node.masked (n : Node) : Node := { n with inputs := n.inputs.map NodeInput.masked }

/-- The graph without its name, the values of its interface inputs and the files of textures. -/
def Graph.masked (g : Graph) : Graph :=
  { g with
    name := []
    inputs := g.inputs.map InterfaceInput.bare
    nodes := g.nodes.map Node.masked }

/-- The block without values. -/
def VariableBlock.bare (b : VariableBlock) : VariableBlock := b.mapPorts Port.bare

/-- The input without values that code does not show: that of the port it reads, and a file that stands
behind a port. -/
def ShaderInput.masked (i : ShaderInput) : ShaderInput :=
  { i with
    value := if i.name = "file" ∧ i.connection.isSome then none else i.value
    connection := i.connection.map Port.bare }

/-- The node with its inputs masked. -/
def ShaderNode.masked (n : ShaderNode) : ShaderNode :=
  { n with inputs := n.inputs.map ShaderInput.masked, outputs := n.outputs.map Port.bare }

/-- The socket without the value of the port that it shows. -/
def ShaderSocket.masked (s : ShaderSocket) : ShaderSocket := { s with connection := s.connection.map Port.bare }

/-- The graph of a shader with its nodes and its socket masked, without its name and the values of its
interface inputs. -/
def ShaderGraph.masked (g : ShaderGraph) : ShaderGraph :=
  { g with
    name := []
    inputs := g.inputs.map Port.bare
    nodes := g.nodes.map ShaderNode.masked
    socket := g.socket.masked }

/-- The inventory without the values of uniforms. -/
def Inventory.masked (v : Inventory) : Inventory :=
  { v with hidden := v.hidden.map Port.bare, published := v.published.map Port.bare }

theorem Port.name_bare (p : Port) : p.bare.name = p.name := rfl

/-! ## What nodes read -/

namespace ShaderNode

variable (n : ShaderNode)

theorem input?_masked (name : Text) : n.masked.input? name = (n.input? name).map ShaderInput.masked := by
  rw [input?, masked, List.find?_map]
  rfl

/-- Masking leaves connections. -/
theorem isConnected_masked (name : Text) : n.masked.isConnected name = n.isConnected name := by
  rw [isConnected, isConnected, input?_masked]
  cases n.input? name with
  | none => rfl
  | some i => exact Option.isSome_map

/-- Values are found under every name but `file`. -/
theorem inputValue?_masked {name : Text} (hname : name ≠ "file") :
    (n.masked.input? name).bind ShaderInput.value = (n.input? name).bind ShaderInput.value := by
  rw [input?_masked]
  cases hinput : n.input? name with
  | none => rfl
  | some i =>
    have hfound : i.name = name := beq_iff_eq.mp (List.find?_some (p := fun i : ShaderInput => i.name == name) hinput)
    exact if_neg fun hfile => hname (hfound.symm.trans hfile.1)

/-- The space is read from an input that is not called `file`. -/
theorem geometricToken_masked (g : Geometric) : n.masked.geometricToken g = n.geometricToken g := by
  rw [geometricToken, geometricToken, inputValue?_masked n (by decide)]

/-- So is the index of texture coordinates. -/
theorem texcoordToken_masked : n.masked.texcoordToken = n.texcoordToken := by
  rw [texcoordToken, texcoordToken, inputValue?_masked n (by decide)]

/-- An operand is written as before: a port by its identifier, and a literal only where no port is read. -/
theorem operandText_masked (format : FloatFormat) (name fallback : Text) :
    n.masked.operandText format name fallback = n.operandText format name fallback := by
  rw [operandText, operandText, operand, operand, input?_masked]
  cases n.input? name with
  | none => rfl
  | some i =>
    cases hconnection : i.connection with
    | some p => simp only [Option.map_some, ShaderInput.masked, hconnection]; rfl
    | none =>
      have hopen : ¬ (i.name = "file" ∧ (none : Option Port).isSome = true) := fun h => by cases h.2
      simp only [Option.map_some, Option.map_none, ShaderInput.masked, hconnection, if_neg hopen]

/-- The code of a node without a file is the same. -/
theorem expression_masked (format : FloatFormat) (stage : Stage) :
    n.masked.expression format stage = n.expression format stage := by
  have himplementation : n.masked.implementation = n.implementation := rfl
  have hconstant : n.masked.constant = n.constant := rfl
  unfold expression
  simp only [himplementation, hconstant, operandText_masked, geometricToken_masked, texcoordToken_masked]

/-- So is the call of a library function. -/
theorem callText_masked (format : FloatFormat) (function : Text) (out : Port) :
    n.masked.callText format function out.bare = n.callText format function out := by
  have harguments : n.masked.argument format = n.argument format := by
    funext p
    rw [argument, operandText_masked, argument]
  rw [callText, harguments]
  rfl

end ShaderNode

/-! ## Inputs and nodes -/

namespace Graph

variable {g : Graph}

/-- Every node that passed the check has, with some nodes before it. -/
theorem checkInputs_of_checkNodes {nodes earlier : List Node} (h : g.checkNodes earlier nodes = .ok ()) :
    ∀ n ∈ nodes, ∃ before, g.checkInputs before n.name n.inputs = .ok () := by
  induction nodes generalizing earlier with
  | nil => intro n hn; cases hn
  | cons m rest ih =>
    obtain ⟨_, _, hm, hrest⟩ := checkNodes_cons.mp h
    exact List.forall_mem_cons.mpr ⟨⟨earlier, hm⟩, ih hrest⟩

/-- Every interface input that a checked graph binds is there. -/
theorem isSome_interface (hcheck : g.check = .ok ()) :
    ∀ n ∈ g.nodes, ∀ i ∈ n.inputs, i.interface ≠ [] → (g.interface? i.interface).isSome = true := by
  intro n hn i hi hinterface
  obtain ⟨before, hbefore⟩ := checkInputs_of_checkNodes (check_eq_ok.mp hcheck).2.1 n hn
  obtain ⟨f, hf, _⟩ := exists_interface (checkInputs_iff.mp hbefore i hi) hinterface
  rw [hf]
  rfl

end Graph

namespace Shader

/-- The scope with its ports and its nodes masked. -/
def Scope.masked (s : Scope) : Scope := ⟨s.interfaces.bare, s.earlier.map ShaderNode.masked⟩

/-- The draft with its ports and its nodes masked. -/
def Draft.masked (d : Draft) : Draft :=
  { d with published := d.published.bare, nodes := d.nodes.map ShaderNode.masked }

/-- A mask changes the values of ports and nothing else of them. -/
theorem revalues_masked : Revalues (fun _ => none) ShaderNode.masked :=
  ⟨fun _ => rfl, fun _ => rfl, fun _ => rfl⟩

variable {naming : Naming} {registry : Registry}

/-- An interface input that the graph has is found among the ports. -/
theorem find?_interfacesOf {g : Graph} {c : Context} {x : Text} (h : (g.interface? x).isSome = true) :
    ((interfacesOf g c).find? x).isSome = true := by
  have hrel := find?_rel (p := fun p => p.name == x) (q := fun i => i.name == x) (fun p i h => by rw [h.1]; rfl)
    (List.forall₂_map_right_iff.mp (@carries_namePorts .fragment g.inputs (startOf c)))
  obtain ⟨f, hf⟩ := Option.isSome_iff_exists.mp h
  rw [interfacesOf, VariableBlock.find?_foldl_add _ _ (VariableBlock.indexed_empty _ _)]
  show ((namePorts .fragment g.inputs (startOf c)).1.find? (·.name == x)).isSome = true
  rw [Graph.interface?] at hf
  rw [hf] at hrel
  cases hfind : (namePorts .fragment g.inputs (startOf c)).1.find? (·.name == x) with
  | none => rw [hfind] at hrel; cases hrel
  | some p => rfl

/-- What an input reads looks alike if the inputs do. -/
theorem connectInput_masked {scope scope' : Scope} (hscope : scope.masked = scope'.masked) (node : Text)
    {i i' : NodeInput} (hi : i.masked = i'.masked) (ids : IdentifierMap) {published published' : VariableBlock}
    (hpublished : published.bare = published'.bare) :
    (connectInput naming scope node i ids published).map (fun r => (r.1.map Port.bare, r.2.1, r.2.2.bare)) =
      (connectInput naming scope' node i' ids published').map fun r => (r.1.map Port.bare, r.2.1, r.2.2.bare) := by
  have hbare : { i with value := none } = { i' with value := none } :=
    congrArg (fun j : NodeInput => { j with value := none }) hi
  have hleft := connectInput_revalued naming revalues_masked scope node i ids published
  have hright := connectInput_revalued naming revalues_masked scope' node i' ids published'
  refine hleft.symm.trans (Eq.trans ?_ hright)
  show connectInput naming scope.masked node { i with value := none } ids published.bare =
    connectInput naming scope'.masked node { i' with value := none } ids published'.bare
  rw [hscope, hbare, hpublished]

/-- A checked input that names a file reads a port. -/
theorem isSome_of_namesFile {scope : Scope} {node : Text} {i : NodeInput} {ids : IdentifierMap}
    {published : VariableBlock} {r : Option Port × IdentifierMap × VariableBlock}
    (hbound : i.interface ≠ [] → (scope.interfaces.find? i.interface).isSome = true) (hfile : i.NamesFile)
    (h : connectInput naming scope node i ids published = .ok r) : r.1.isSome = true := by
  rw [connectInput] at h
  split at h
  · next hinterface =>
    cases h
    exact hbound hinterface
  · split at h
    · split at h
      · cases h
      · cases h
        rfl
    · rw [if_pos hfile.2] at h
      cases h
      rfl

/-- Inputs that look alike are made of inputs that do, if a file stands behind a port. -/
theorem shaderInput_masked {i i' : NodeInput} (hi : i.masked = i'.masked) {connection connection' : Option Port}
    (hconnection : connection.map Port.bare = connection'.map Port.bare)
    (hfile : i.NamesFile → connection.isSome = true) :
    ShaderInput.masked ⟨i.name, i.type, i.value, connection⟩ =
      ShaderInput.masked ⟨i'.name, i'.type, i'.value, connection'⟩ := by
  obtain ⟨hname, htype, hvalue, _⟩ := NodeInput.mk.inj hi
  have hsame : i'.NamesFile ↔ i.NamesFile := by rw [NodeInput.NamesFile, NodeInput.NamesFile, hname, htype]
  have hsome : connection'.isSome = connection.isSome := by
    rw [← Option.isSome_map (f := Port.bare), ← hconnection, Option.isSome_map]
  rw [ShaderInput.masked, ShaderInput.masked]
  simp only [hname, htype, hconnection, hsome, ShaderInput.mk.injEq, true_and, and_true]
  by_cases hnames : i.NamesFile
  · -- both values are behind a port
    have hbehind : i'.name = "file" ∧ connection.isSome = true := ⟨(hsame.mpr hnames).1, hfile hnames⟩
    rw [if_pos hbehind, if_pos hbehind]
  · -- the masks of the graph inputs keep the values
    rw [if_neg hnames, if_neg (mt hsame.mp hnames)] at hvalue
    rw [hvalue]

/-- What is made of the inputs of a node, with masks. -/
def maskInputs (r : List ShaderInput × IdentifierMap × VariableBlock) :
    List ShaderInput × IdentifierMap × VariableBlock :=
  (r.1.map ShaderInput.masked, r.2.1, r.2.2.bare)

/-- **All inputs of a node**, side by side. -/
theorem connectInputs_masked {scope scope' : Scope} (hscope : scope.masked = scope'.masked) (node : Text)
    {inputs inputs' : List NodeInput} (hinputs : inputs.map NodeInput.masked = inputs'.map NodeInput.masked)
    (hbound : ∀ i ∈ inputs, i.interface ≠ [] → (scope.interfaces.find? i.interface).isSome = true)
    (ids : IdentifierMap) {published published' : VariableBlock} (hpublished : published.bare = published'.bare) :
    (connectInputs naming scope node inputs ids published).map maskInputs =
      (connectInputs naming scope' node inputs' ids published').map maskInputs := by
  -- both runs take the same names, so only the published ports differ along the way
  induction inputs generalizing inputs' ids published published' with
  | nil =>
    cases inputs' with
    | nil => exact congrArg (fun b => Except.ok ([], ids, b)) hpublished
    | cons i' rest' => cases hinputs
  | cons i rest ih =>
    cases inputs' with
    | nil => cases hinputs
    | cons i' rest' =>
      obtain ⟨hi, hrest⟩ := List.cons.inj hinputs
      obtain ⟨hfirst, hothers⟩ := List.forall_mem_cons.mp hbound
      rw [connectInputs, connectInputs]
      refine map_bind_congr (connectInput_masked hscope node hi ids hpublished) ?_
      rintro ⟨connection, ids₁, published₁⟩ ⟨connection', ids₁', published₁'⟩ hr _ hmask
      obtain ⟨hconnection, hmask⟩ := Prod.mk.inj hmask
      obtain ⟨rfl, hpublished₁⟩ := Prod.mk.inj hmask
      have hinput := shaderInput_masked hi hconnection fun hfile => isSome_of_namesFile hfirst hfile hr
      refine map_bind_congr (ih hrest hothers ids₁ hpublished₁) ?_
      rintro ⟨made, ids₂, published₂⟩ ⟨made', ids₂', published₂'⟩ _ _ hmask
      obtain ⟨hmade, hmask⟩ := Prod.mk.inj hmask
      obtain ⟨rfl, hpublished₂⟩ := Prod.mk.inj hmask
      exact congrArg Except.ok (Prod.ext (List.cons_eq_cons.mpr ⟨hinput, hmade⟩) (Prod.ext rfl hpublished₂))

/-- One node, side by side. -/
theorem addNode_masked {interfaces interfaces' : VariableBlock} (hinterfaces : interfaces.bare = interfaces'.bare)
    {n n' : Node} (hn : n.masked = n'.masked)
    (hbound : ∀ i ∈ n.inputs, i.interface ≠ [] → (interfaces.find? i.interface).isSome = true)
    {d d' : Draft} (hd : d.masked = d'.masked) :
    (addNode registry naming interfaces d n).map Draft.masked =
      (addNode registry naming interfaces' d' n').map Draft.masked := by
  obtain ⟨hname, hdefinition, htype, hinputs, houtputs⟩ := Node.mk.inj hn
  obtain ⟨hids, hpublished, hnodes⟩ := Draft.mk.inj hd
  have hall : n.allOutputs = n'.allOutputs := by rw [Node.allOutputs, Node.allOutputs, houtputs, htype]
  have hscope : Scope.masked ⟨interfaces, d.nodes⟩ = Scope.masked ⟨interfaces', d'.nodes⟩ := by
    rw [Scope.masked, Scope.masked, hinterfaces, hnodes]
  rw [addNode, addNode, hname, hdefinition, hall, hids]
  cases registry.lookup n'.definition with
  | none => rfl
  | some implementation =>
    refine map_bind_congr (φ := id) rfl fun classification classification' _ _ hsame => ?_
    obtain rfl : classification = classification' := hsame
    refine map_bind_congr (connectInputs_masked hscope n'.name hinputs hbound _ hpublished) ?_
    rintro ⟨made, ids, published⟩ ⟨made', ids', published'⟩ _ _ hmask
    obtain ⟨hmade, hmask⟩ := Prod.mk.inj hmask
    obtain ⟨rfl, hadded⟩ := Prod.mk.inj hmask
    simp only [pure, Except.pure, Except.map, Draft.masked, hadded, List.map_append, hnodes,
      List.map_cons, List.map_nil, ShaderNode.masked, hmade]

/-- Interface inputs that look alike get ports that do, and the same names are taken. -/
theorem namePorts_bare {inputs inputs' : List InterfaceInput}
    (h : inputs.map InterfaceInput.bare = inputs'.map InterfaceInput.bare) (ids : IdentifierMap) :
    (namePorts naming inputs ids).1.map Port.bare = (namePorts naming inputs' ids).1.map Port.bare ∧
      (namePorts naming inputs ids).2 = (namePorts naming inputs' ids).2 := by
  have hleft := namePorts_revalued naming (φ := fun _ => none) inputs ids
  have hright := namePorts_revalued naming (φ := fun _ => none) inputs' ids
  exact Prod.mk.inj (hleft.symm.trans ((congrArg (namePorts naming · ids) h).trans hright))

variable {g g' : Graph}

/-- Graphs with the same mask have the same interface ports, their values apart. -/
theorem interfacesOf_masked (hmask : g.masked = g'.masked) (c : Context) :
    (interfacesOf g c).bare = (interfacesOf g' c).bare := by
  have hblock (ports : List Port) := VariableBlock.foldl_add_mapPorts Port.name_bare
    (.empty BlockName.publicUniforms publicInstance) ports
  obtain ⟨_, hinputs, _⟩ := Graph.mk.inj hmask
  rw [VariableBlock.bare, VariableBlock.bare, interfacesOf, interfacesOf, ← hblock, ← hblock,
    (namePorts_bare hinputs (startOf c)).1]

/-- **All nodes**, side by side. -/
theorem addNodes_masked (registry : Registry) (hmask : g.masked = g'.masked) (hcheck : g.check = .ok ()) (c : Context) :
    (g.nodes.foldlM (addNode registry .fragment (interfacesOf g c)) (firstDraft g c)).map Draft.masked =
      (g'.nodes.foldlM (addNode registry .fragment (interfacesOf g' c)) (firstDraft g' c)).map Draft.masked := by
  have hinterfaces := interfacesOf_masked hmask c
  obtain ⟨_, hinputs, hnodes, _⟩ := Graph.mk.inj hmask
  have hfirst : (firstDraft g c).masked = (firstDraft g' c).masked := by
    rw [firstDraft, firstDraft, (namePorts_bare hinputs (startOf c)).2, Draft.masked, Draft.masked]
    simp only [hinterfaces]
  refine foldlM_map_congr hnodes (fun n hn n' d d' hnn hd => ?_) _ _ hfirst
  exact addNode_masked hinterfaces hnn
    (fun i hi hinterface => find?_interfacesOf (Graph.isSome_interface hcheck n hn i hi hinterface)) hd

end Shader

/-! ## Variables of nodes -/

namespace Inventory

/-- A port without a value is added to ports without values. -/
theorem addTo_bare (ports : List Port) {p : Port} (hp : p.bare = p) :
    Port.addTo (ports.map Port.bare) p = (Port.addTo ports p).map Port.bare := by
  conv_lhs => rw [← hp]
  exact Port.addTo_map Port.name_bare ports p

variable (n : ShaderNode) (v : Inventory)

/-- Uniforms of the host have no values to mask. -/
theorem needHidden_masked (token : Text) (t : DataType) :
    v.masked.needHidden token t = (v.needHidden token t).masked := by
  rw [needHidden, needHidden, masked, masked]
  simp only [addTo_bare v.hidden (p := VariableBlock.plainPort token t none) rfl]

/-- A constant shows its value in code, and it is read from an input that no mask touches. -/
theorem furnishConstant_masked (t : DataType) :
    furnishConstant n.masked t v.masked =
      ((furnishConstant n t v).1.masked, (furnishConstant n t v).2.masked) := by
  have hname : n.masked.name = n.name := rfl
  rw [furnishConstant, furnishConstant, ShaderNode.isConnected_masked, hname,
    ShaderNode.inputValue?_masked n (by decide)]
  split
  · rfl
  · rfl

/-- A texture is published without a value. -/
theorem furnishTexture_masked (input : Text) :
    furnishTexture n.masked input v.masked =
      ((furnishTexture n input v).1.masked, (furnishTexture n input v).2.masked) := by
  let p := v.newPort (n.name ++ "_" ++ input) .filename none
  have hadd : Port.addTo (v.published.map Port.bare) p = (Port.addTo v.published p).map Port.bare :=
    addTo_bare v.published rfl
  have hstand : Port.standIn (v.published.map Port.bare) p = (Port.standIn v.published p).bare :=
    Port.standIn_map Port.name_bare v.published p
  have hinput (q : Port) : (⟨input, .filename, none, some q.bare⟩ : ShaderInput) =
      ShaderInput.masked ⟨input, .filename, none, some q⟩ := by
    rw [ShaderInput.masked, ite_self]
    rfl
  have hnode (q : Port) : n.masked.addInput ⟨input, .filename, none, some q.bare⟩ =
      (n.addInput ⟨input, .filename, none, some q⟩).masked := by
    rw [hinput]
    simp only [ShaderNode.addInput, ShaderNode.masked, List.map_append, List.map_cons, List.map_nil]
  show (n.masked.addInput ⟨input, .filename, none, some (Port.standIn (v.published.map Port.bare) p)⟩,
    { v.masked with published := Port.addTo (v.published.map Port.bare) p
                    identifiers := v.newIdentifiers (n.name ++ "_" ++ input) .filename }) = _
  rw [hadd, hstand, hnode]
  rfl

/-- An image looks whether it has a `file`, which a mask leaves. -/
theorem furnishImage_masked :
    furnishImage n.masked v.masked = ((furnishImage n v).1.masked, (furnishImage n v).2.masked) := by
  have hfile : furnishFile n.masked v.masked = ((furnishFile n v).1.masked, (furnishFile n v).2.masked) := by
    rw [furnishFile, furnishFile, ShaderNode.input?_masked, Option.isNone_map, furnishTexture_masked]
    split <;> rfl
  have hcoordinates (n : ShaderNode) (v : Inventory) :
      furnishCoordinates n.masked v.masked = (furnishCoordinates n v).masked := by
    rw [furnishCoordinates, furnishCoordinates, ShaderNode.isConnected_masked]
    split <;> rfl
  rw [furnishImage, furnishImage, hfile, hcoordinates]

/-- **Adding what one node needs commutes with masking.** -/
theorem furnish_masked : furnish n.masked v.masked = ((furnish n v).1.masked, (furnish n v).2.masked) := by
  have himplementation : n.masked.implementation = n.implementation := rfl
  rw [furnish, furnish, himplementation]
  cases n.implementation with
  | constant t => exact furnishConstant_masked n v t
  | geometric g => simp only [ShaderNode.geometricToken_masked]; rfl
  | texcoord => simp only [ShaderNode.texcoordToken_masked]; rfl
  | hostNumber h => exact congrArg (Prod.mk n.masked) (needHidden_masked v h.token .float)
  | image t => exact furnishImage_masked n v
  | surface l =>
    exact congrArg (Prod.mk n.masked) (needHidden_masked
      ((v.needVertex Token.positionWorld .vector3).needVertex Token.normalWorld .vector3)
      Token.viewPosition .vector3)
  | arithmetic | mix | transformMatrix | diffuseBsdf | uniformEdf | surfaceUnlit => rfl

/-- The run over all nodes. -/
theorem furnishAll_masked (nodes : List ShaderNode) (v : Inventory) :
    furnishAll (nodes.map ShaderNode.masked) v.masked =
      ((furnishAll nodes v).1.map ShaderNode.masked, (furnishAll nodes v).2.masked) := by
  induction nodes generalizing v with
  | nil => rfl
  | cons n rest ih =>
    simp only [List.map_cons, furnishAll, furnish_masked, ih]

end Inventory

/-! ## The shader -/

namespace Shader

variable {registry : Registry} {g g' : Graph} {c : Context} {d d' : Draft} {socket : ShaderSocket}
  {classification : Classification}

/-- What is made of a checked graph, step by step. -/
theorem created_of_steps (hcheck : g.check = .ok ())
    (hd : g.nodes.foldlM (addNode registry .fragment (interfacesOf g c)) (firstDraft g c) = .ok d)
    (hsocket : connectSocket d.nodes g.output (socketIdent g d) = .ok (socket, classification)) (name : Text) :
    let graph := { draftGraph g c d socket classification with
      nodes := (Inventory.furnishAll d.nodes (draftInventory g d)).1 }
    let v := (Inventory.furnishAll d.nodes (draftInventory g d)).2
    Created registry (startOf c) g graph v ∧
      ofGraph registry .fragment name g c = .ok ((withEnvironment c.options graph v).shader name graph) := by
  obtain ⟨_, hnodes, houtput⟩ := Graph.check_eq_ok.mp hcheck
  rcases addNodes_cases g.nodes hnodes (draftOf_firstDraft registry g c) with
    ⟨_, _, hok, hdraft⟩ | ⟨_, _, _, herror⟩
  · obtain rfl := Except.ok.inj (hok.symm.trans hd)
    rcases connectSocket_cases hdraft.nodes houtput (socketIdent g _) with
      ⟨_, connection, classification', hconnection, hshows, hmade⟩ | ⟨_, _, herror, _⟩
    · obtain ⟨rfl, rfl⟩ := Prod.mk.inj (Except.ok.inj (hmade.symm.trans hsocket))
      exact ⟨created_of_draft hdraft hconnection hshows, ofGraph_eq hd hdraft.stock.block hsocket rfl⟩
    · cases herror.symm.trans hsocket
  · cases herror.symm.trans hd

/-- Drafts with the same mask have inventories with the same mask. -/
theorem draftInventory_masked (houtput : g.output = g'.output) (hd : d.masked = d'.masked) :
    (draftInventory g d).masked = (draftInventory g' d').masked := by
  obtain ⟨hids, hpublished, _⟩ := Draft.mk.inj hd
  have hports : d.published.ports.map Port.bare = d'.published.ports.map Port.bare :=
    (VariableBlock.mk.inj hpublished).2.2.1
  rw [draftInventory, draftInventory, Inventory.masked, Inventory.masked, houtput, hids]
  simp only [hports]

/-- **Graphs with the same mask fail with one error, or become shaders with the same mask.** -/
theorem ofGraph_masked (hmask : g.masked = g'.masked) (hcheck : g.check = .ok ()) (hcheck' : g'.check = .ok ())
    (registry : Registry) (name : Text) (c : Context) :
    (∃ e, ofGraph registry .fragment name g c = .error e ∧ ofGraph registry .fragment name g' c = .error e) ∨
    ∃ graph v graph' v', Created registry (startOf c) g graph v ∧ Created registry (startOf c) g' graph' v' ∧
      ofGraph registry .fragment name g c = .ok ((withEnvironment c.options graph v).shader name graph) ∧
      ofGraph registry .fragment name g' c = .ok ((withEnvironment c.options graph' v').shader name graph') ∧
      graph.masked = graph'.masked ∧ v.masked = v'.masked := by
  obtain ⟨_, hinputs, _, houtput⟩ := Graph.mk.inj hmask
  rcases map_eq_map_cases (addNodes_masked registry hmask hcheck c) with
    ⟨e, hd, hd'⟩ | ⟨d, d', hd, hd', hdraft⟩
  · exact .inl ⟨e, by rw [ofGraph_steps, hd]; rfl, by rw [ofGraph_steps, hd']; rfl⟩
  obtain ⟨hids, _, hnodes⟩ := Draft.mk.inj hdraft
  have hident : socketIdent g d = socketIdent g' d' := by rw [socketIdent, socketIdent, houtput, hids]
  -- the socket shows outputs that look alike
  have hsockets : (connectSocket d.nodes g.output (socketIdent g d)).map (fun r => (r.1.masked, r.2)) =
      (connectSocket d'.nodes g'.output (socketIdent g' d')).map fun r => (r.1.masked, r.2) := by
    have hconnect (nodes : List ShaderNode) :=
      connectSocket_revalued revalues_masked id nodes g'.output (socketIdent g' d')
    rw [hident, houtput]
    exact (hconnect d.nodes).symm.trans ((congrArg (connectSocket · _ _) hnodes).trans (hconnect d'.nodes))
  rcases map_eq_map_cases hsockets with
    ⟨e, hs, hs'⟩ | ⟨⟨socket, classification⟩, ⟨socket', classification'⟩, hs, hs', hsocket⟩
  · refine .inl ⟨e, ?_, ?_⟩
    · rw [ofGraph_steps, hd]
      simp only [bind, Except.bind, hs]
    · rw [ofGraph_steps, hd']
      simp only [bind, Except.bind, hs']
  obtain ⟨hshown, rfl⟩ := Prod.mk.inj hsocket
  obtain ⟨hcreated, hof⟩ := created_of_steps hcheck hd hs name
  obtain ⟨hcreated', hof'⟩ := created_of_steps hcheck' hd' hs' name
  have hinventory := draftInventory_masked houtput hdraft
  have hfurnish := Inventory.furnishAll_masked d.nodes (draftInventory g d)
  rw [hnodes, hinventory, Inventory.furnishAll_masked d'.nodes (draftInventory g' d')] at hfurnish
  obtain ⟨hmade, hports⟩ := Prod.mk.inj hfurnish
  refine .inr ⟨_, _, _, _, hcreated, hcreated', hof, hof', ?_, hports.symm⟩
  have hids' : (draftInventory g d).identifiers = (draftInventory g' d').identifiers :=
    (Inventory.mk.inj hinventory).1
  simp only [ShaderGraph.masked, draftGraph, hmade, hshown, hids', (namePorts_bare hinputs (startOf c)).1]

end Shader
end ShadeGraph
