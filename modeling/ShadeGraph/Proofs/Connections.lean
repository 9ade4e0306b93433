/-
  Where the connections of a shader lead.

  1. Connecting an input is a look-up: among the ports of interface inputs, or for a node that is there
     already and then for one of its outputs (`ShaderInput.Reads`).
  2. A node of the shader `Copies` a node of the graph.  `Copied` says so for every place, with the nodes in
     front of it to look in.  Adding a node takes it one place further (`Copied.concat`).
  3. The variables that a node adds leave its name and its outputs, and new inputs come behind those that are
     there (`ShaderNode.Extends`), so that every look-up finds the same afterwards (`Copied.extend`).
  4. `Shader.Resolves` says the same by places and names alone.  That what is looked for is there, and is the
     only one of its name, is what the check of the graph has found out (`check_iff_wellFormed`).
-/
import ShadeGraph.Proofs.WellFormed

namespace ShadeGraph

/-- Elements at the same place of related lists are related. -/
theorem exists_getElem?_of_rel {α β : Type} {R : α → β → Prop} {as : List α} {bs : List β}
    (h : List.Forall₂ R as bs) : ∀ {x : Nat} {a : α}, as[x]? = some a → ∃ b, bs[x]? = some b ∧ R a b := by
  induction h with
  | nil => intro x a ha; simp at ha
  | @cons a b as bs hab _ ih =>
    intro x c hc
    cases x with
    | zero =>
      obtain rfl := Option.some.inj hc
      exact ⟨b, rfl, hab⟩
    | succ x => exact ih hc

/-! ## Connecting inputs -/

/-- The input of a shader that is made for one of a graph, with what it looks up. -/
structure ShaderInput.Reads (scope : Shader.Scope) (i : NodeInput) (j : ShaderInput) : Prop where
  name : j.name = i.name
  type : j.type = i.type
  value : j.value = i.value
  interface : i.interface ≠ [] → j.connection = scope.interfaces.find? i.interface
  node : i.interface = [] → i.node ≠ [] →
    ∃ p, scope.output? i.node i.output = some p ∧ j.connection = some p

/-- The node of a shader that is made for one of a graph.  Its first inputs are those of the graph. -/
structure ShaderNode.Copies (scope : Shader.Scope) (n : Node) (m : ShaderNode) : Prop where
  name : m.name = n.name
  definition : m.definition = n.definition
  outputs : List.Forall₂ Port.Provides n.allOutputs m.outputs
  inputs : ∀ {x : Nat} {i : NodeInput}, n.inputs[x]? = some i →
    ∃ j, m.inputs[x]? = some j ∧ ShaderInput.Reads scope i j

namespace Shader

section

variable {registry : Registry} {naming : Naming} {scope : Scope} {interfaces : VariableBlock} {node : Text}

/-- One input: the three ways in which it may be bound are the three branches of connecting it. -/
theorem connectInput_reads {i : NodeInput} {ids ids' : IdentifierMap} {published published' : VariableBlock}
    {connection : Option Port}
    (h : connectInput naming scope node i ids published = .ok (connection, ids', published')) :
    ShaderInput.Reads scope i ⟨i.name, i.type, i.value, connection⟩ := by
  rw [connectInput] at h
  split at h
  · next hinterface =>
    cases h
    exact ⟨rfl, rfl, rfl, fun _ => rfl, fun hnone => absurd hnone hinterface⟩
  · next hinterface =>
    refine ⟨rfl, rfl, rfl, fun hsome => absurd hsome hinterface, fun _ hnode => ?_⟩
    rw [if_pos hnode] at h
    split at h
    · cases h
    · next p hp =>
      cases h
      exact ⟨p, hp, rfl⟩

/-- All inputs of a node, each by its own look-up in one scope. -/
theorem connectInputs_reads : ∀ {inputs : List NodeInput} {ids ids' : IdentifierMap}
    {published published' : VariableBlock} {made : List ShaderInput},
    connectInputs naming scope node inputs ids published = .ok (made, ids', published') →
    List.Forall₂ (ShaderInput.Reads scope) inputs made := by
  intro inputs
  induction inputs with
  | nil => intro ids ids' published published' made h; cases h; exact .nil
  | cons i rest ih =>
    intro ids ids' published published' made h
    rw [connectInputs] at h
    obtain ⟨⟨connection, ids₁, published₁⟩, hfirst, h⟩ := bind_eq_ok.mp h
    obtain ⟨⟨others, ids₂, published₂⟩, hrest, h⟩ := bind_eq_ok.mp h
    cases h
    exact .cons (connectInput_reads hfirst) (ih hrest)

/-! ## Adding nodes -/

/-- A node that is added copies a node of the graph, and looks among the nodes that were there before it. -/
theorem addNode_copies {d d' : Draft} {n : Node} (h : addNode registry naming interfaces d n = .ok d') :
    ∃ m, d'.nodes = d.nodes ++ [m] ∧ m.Copies ⟨interfaces, d.nodes⟩ n := by
  rw [addNode] at h
  split at h
  · cases h
  · obtain ⟨classification, _, h⟩ := bind_eq_ok.mp h
    obtain ⟨⟨inputs, ids, published⟩, hinputs, h⟩ := bind_eq_ok.mp h
    cases h
    refine ⟨_, rfl, rfl, rfl, provides_nameOutputs _ _ _, fun hi => ?_⟩
    exact exists_getElem?_of_rel (connectInputs_reads hinputs) hi

/-- Place by place, the nodes of a shader are made for those of a graph, and look no further than the nodes
in front of them. -/
structure Copied (interfaces : VariableBlock) (ns : List Node) (ms : List ShaderNode) : Prop where
  length : ms.length = ns.length
  node : ∀ {k : Nat} {n : Node} {m : ShaderNode}, ns[k]? = some n → ms[k]? = some m →
    m.Copies ⟨interfaces, ms.take k⟩ n

theorem copied_nil : Copied interfaces [] [] := ⟨rfl, fun hn => by cases hn⟩

/-- **One place further**: the nodes in front of a place are the same before and after a node is put at the end.
-/
theorem Copied.concat {ns : List Node} {ms : List ShaderNode} {n : Node} {m : ShaderNode}
    (h : Copied interfaces ns ms) (hm : m.Copies ⟨interfaces, ms⟩ n) :
    Copied interfaces (ns ++ [n]) (ms ++ [m]) := by
  have hlength := h.length
  refine ⟨by rw [List.length_append, List.length_append, hlength]; rfl, ?_⟩
  intro k n' m' hn' hm'
  rcases Nat.lt_or_ge k ns.length with hk | hk
  · rw [List.getElem?_append_left hk] at hn'
    rw [List.getElem?_append_left (by omega)] at hm'
    rw [List.take_append_of_le_length (by omega)]
    exact h.node hn' hm'
  · -- the last place
    have hlast : k = ns.length := by
      have hlt := (List.getElem?_eq_some_iff.mp hn').1
      rw [List.length_append, List.length_singleton] at hlt
      omega
    subst hlast
    rw [List.getElem?_concat_length] at hn'
    rw [← hlength, List.getElem?_concat_length] at hm'
    rw [← hlength, List.take_left]
    obtain rfl := Option.some.inj hn'
    obtain rfl := Option.some.inj hm'
    exact hm

/-- The draft of all nodes, from what adding one of them does. -/
theorem addNodes_copied : ∀ {rest done : List Node} {d d' : Draft}, Copied interfaces done d.nodes →
    rest.foldlM (addNode registry naming interfaces) d = .ok d' → Copied interfaces (done ++ rest) d'.nodes := by
  intro rest
  induction rest with
  | nil => intro done d d' hdone h; cases h; rwa [List.append_nil]
  | cons n rest ih =>
    intro done d d' hdone h
    rw [List.foldlM_cons] at h
    obtain ⟨d₁, hnode, h⟩ := bind_eq_ok.mp h
    obtain ⟨m, hnodes, hm⟩ := addNode_copies hnode
    have hone := hdone.concat hm
    rw [← hnodes] at hone
    have hall := ih hone h
    rwa [List.append_assoc] at hall

end

end Shader

/-! ## Variables of nodes -/

namespace ShaderNode

/-- `m'` is `m` with further inputs, and perhaps another constant. -/
structure Extends (m m' : ShaderNode) : Prop where
  name : m'.name = m.name
  definition : m'.definition = m.definition
  outputs : m'.outputs = m.outputs
  inputs : m.inputs <+: m'.inputs

theorem Extends.refl (m : ShaderNode) : Extends m m := ⟨rfl, rfl, rfl, List.prefix_refl m.inputs⟩

theorem Extends.trans {m₁ m₂ m₃ : ShaderNode} (h₁ : Extends m₁ m₂) (h₂ : Extends m₂ m₃) : Extends m₁ m₃ :=
  ⟨h₂.name.trans h₁.name, h₂.definition.trans h₁.definition, h₂.outputs.trans h₁.outputs,
    h₁.inputs.trans h₂.inputs⟩

/-- A node with further inputs copies what it copied, because its first inputs stay. -/
theorem Extends.copies {scope : Shader.Scope} {n : Node} {m m' : ShaderNode} (h : Extends m m')
    (hm : m.Copies scope n) : m'.Copies scope n where
  name := h.name.trans hm.name
  definition := h.definition.trans hm.definition
  outputs := h.outputs ▸ hm.outputs
  inputs hi := by
    obtain ⟨j, hj, hreads⟩ := hm.inputs hi
    obtain ⟨further, hfurther⟩ := h.inputs
    refine ⟨j, ?_, hreads⟩
    rw [← hfurther, List.getElem?_append_left (List.getElem?_eq_some_iff.mp hj).1, hj]

end ShaderNode

namespace Shader

/-- Vertex data is noted in the stages and not in the graph. -/
theorem addVertexData_graph {s s' : Shader} {token : Text} {t : DataType}
    (h : s.addVertexData token t = .ok s') : s'.graph = s.graph := by
  obtain ⟨ps, -, rfl⟩ := addVertexData_ok h
  rfl

/-- So are the uniforms of the host. -/
theorem addPrivateUniform_graph {s s' : Shader} {token : Text} {t : DataType}
    (h : s.addPrivateUniform token t = .ok s') : s'.graph = s.graph := by
  obtain ⟨ps, -, rfl⟩ := addPrivateUniform_ok h
  rfl

end Shader

namespace ShaderNode

variable {naming : Naming} {n n' : ShaderNode} {s s' : Shader}

/-- A node is extended, and its shader shows what it showed. -/
def Furthers (before after : Placed) : Prop :=
  before.1.Extends after.1 ∧ after.2.graph.socket = before.2.graph.socket

/-- A node that only asks its shader for something is not changed. -/
theorem furthers_withShader {r : Except (Failed EmitError Shader) Shader}
    (hr : ∀ u, r = .ok u → u.graph = s.graph) (h : n.withShader r = .ok (n', s')) :
    Furthers (n, s) (n', s') := by
  obtain ⟨rfl, hu⟩ := withShader_ok h
  exact ⟨Extends.refl n', congrArg ShaderGraph.socket (hr s' hu)⟩

/-- A constant is none of the parts that are copied. -/
theorem furthers_createConstant {t : DataType} (h : n.createConstant naming t s = .ok (n', s')) :
    Furthers (n, s) (n', s') := by
  rw [createConstant] at h
  split at h
  · cases h
    exact ⟨Extends.refl n, rfl⟩
  · split at h
    · cases h
    · cases h
      exact ⟨⟨rfl, rfl, rfl, List.prefix_refl n.inputs⟩, rfl⟩

/-- A texture that is published becomes the last input of the node. -/
theorem furthers_publishTexture {input : Text} (h : n.publishTexture naming input s = .ok (n', s')) :
    Furthers (n, s) (n', s') := by
  rw [publishTexture] at h
  split at h
  · cases h
  · split at h
    · cases h
    · cases h
      exact ⟨⟨rfl, rfl, rfl, List.prefix_append n.inputs _⟩, rfl⟩

theorem Furthers.trans {a b c : Placed} (h₁ : Furthers a b) (h₂ : Furthers b c) : Furthers a c :=
  ⟨h₁.1.trans h₂.1, h₂.2.trans h₁.2⟩

/-- The second half of an image, behind its texture. -/
theorem furthers_coordinates {m : ShaderNode} {u : Shader} (hfirst : Furthers (n, s) (m, u))
    (h : (if m.isConnected "texcoord" then pure (m, u)
      else m.withShader (u.addVertexData firstTexcoord .vector2)) = .ok (n', s')) :
    Furthers (n, s) (n', s') := by
  split at h
  · cases h
    exact hfirst
  · exact hfirst.trans (furthers_withShader (fun _ => Shader.addVertexData_graph) h)

/-- An image may get a texture, and asks for coordinates at most. -/
theorem furthers_createImage (h : n.createImage naming s = .ok (n', s')) : Furthers (n, s) (n', s') := by
  rw [createImage] at h
  split at h
  · obtain ⟨⟨m, u⟩, htexture, h⟩ := bind_eq_ok.mp h
    exact furthers_coordinates (furthers_publishTexture htexture) h
  · exact furthers_coordinates ⟨Extends.refl n, rfl⟩ h

/-- What a surface asks for leaves the graph alone. -/
theorem createSurface_graph (h : createSurface s = .ok s') : s'.graph = s.graph := by
  rw [createSurface] at h
  obtain ⟨s₁, h₁, h⟩ := bind_eq_ok.mp h
  obtain ⟨s₂, h₂, h⟩ := bind_eq_ok.mp h
  exact (Shader.addPrivateUniform_graph h).trans
    ((Shader.addVertexData_graph h₂).trans (Shader.addVertexData_graph h₁))

/-- **The variables of a node extend it**, whichever implementation it has. -/
theorem furthers_createVariables (h : n.createVariables naming s = .ok (n', s')) :
    Furthers (n, s) (n', s') := by
  rw [createVariables] at h
  split at h
  · exact furthers_createConstant h
  · exact furthers_withShader (fun _ => Shader.addVertexData_graph) h
  · exact furthers_withShader (fun _ => Shader.addVertexData_graph) h
  · exact furthers_withShader (fun _ => Shader.addPrivateUniform_graph) h
  · exact furthers_createImage h
  · exact furthers_withShader (fun _ => createSurface_graph) h
  · cases h
    exact ⟨Extends.refl n, rfl⟩

end ShaderNode

namespace Shader

/-- All nodes are extended in their places, and the socket shows what it showed. -/
theorem createAllVariables_extends {naming : Naming} : ∀ {ms ms' : List ShaderNode} {s s' : Shader},
    createAllVariables naming ms s = .ok (ms', s') →
    List.Forall₂ ShaderNode.Extends ms ms' ∧ s'.graph.socket = s.graph.socket := by
  intro ms
  induction ms with
  | nil => intro ms' s s' h; cases h; exact ⟨.nil, rfl⟩
  | cons m ms ih =>
    intro ms' s s' h
    rw [createAllVariables] at h
    split at h
    · cases h
    · next m₁ s₁ hm =>
      obtain ⟨⟨ms₂, s₂⟩, hrest, h⟩ := bind_eq_ok.mp h
      cases h
      obtain ⟨hextends, hsocket⟩ := ShaderNode.furthers_createVariables hm
      obtain ⟨hall, hsocket'⟩ := ih hrest
      exact ⟨.cons hextends hall, hsocket'.trans hsocket⟩

/-- Nodes with further inputs answer as before. -/
theorem Scope.output?_extends {interfaces : VariableBlock} {ms ms' : List ShaderNode}
    (h : List.Forall₂ ShaderNode.Extends ms ms') (node output : Text) :
    (Scope.mk interfaces ms').output? node output = (Scope.mk interfaces ms).output? node output := by
  have hfind := find?_rel (p := fun m => m.name == node) (q := fun m => m.name == node)
    (fun m m' hm => by rw [hm.name]) h
  rw [Scope.output?, Scope.output?]
  generalize ms.find? (·.name == node) = found at hfind ⊢
  generalize ms'.find? (·.name == node) = found' at hfind ⊢
  cases hfind with
  | none => rfl
  | some hm =>
    show ShaderNode.outputOrFirst? _ _ = ShaderNode.outputOrFirst? _ _
    rw [ShaderNode.outputOrFirst?, ShaderNode.outputOrFirst?, ShaderNode.output?, ShaderNode.output?, hm.outputs]

end Shader

/-- A look-up finds the same port among extended nodes: names and outputs are kept. -/
theorem ShaderInput.Reads.extend {interfaces : VariableBlock} {ms ms' : List ShaderNode} {i : NodeInput}
    {j : ShaderInput} (h : j.Reads ⟨interfaces, ms⟩ i) (hms : List.Forall₂ ShaderNode.Extends ms ms') :
    j.Reads ⟨interfaces, ms'⟩ i where
  name := h.name
  type := h.type
  value := h.value
  interface := h.interface
  node hinterface hnode := by
    rw [Shader.Scope.output?_extends hms]
    exact h.node hinterface hnode

namespace Shader

/-- So extended nodes are copies of the same nodes. -/
theorem Copied.extend {interfaces : VariableBlock} {ns : List Node} {ms ms' : List ShaderNode}
    (h : Copied interfaces ns ms) (hms : List.Forall₂ ShaderNode.Extends ms ms') : Copied interfaces ns ms' := by
  refine ⟨hms.length_eq ▸ h.length, fun {k n m'} hn hm' => ?_⟩
  obtain ⟨hk, -⟩ := List.getElem?_eq_some_iff.mp hn
  have hm := List.getElem?_eq_getElem (show k < ms.length from h.length ▸ hk)
  obtain ⟨m'', hm'', hextends⟩ := exists_getElem?_of_rel hms hm
  obtain rfl := Option.some.inj (hm''.symm.trans hm')
  have hcopies := hextends.copies (h.node hn hm)
  refine ⟨hcopies.name, hcopies.definition, hcopies.outputs, fun hi => ?_⟩
  obtain ⟨j, hj, hreads⟩ := hcopies.inputs hi
  exact ⟨j, hj, hreads.extend (List.forall₂_take k hms)⟩

/-! ## The shader -/

/-- The output socket looks up a node and one of its outputs like any input, or is not connected. -/
theorem connectSocket_reads (interfaces : VariableBlock) {nodes : List ShaderNode} {o : Socket} {ident : Text}
    {socket : ShaderSocket} {classification : Classification}
    (h : connectSocket nodes o ident = .ok (socket, classification)) :
    (o.node ≠ [] → ∃ p, (Scope.mk interfaces nodes).output? o.node o.nodeOutput = some p ∧
      socket.connection = some p) ∧ (o.node = [] → socket.connection = none) := by
  rw [connectSocket, Socket.isConnected] at h
  split at h
  · next hconnected =>
    refine ⟨fun _ => ?_, fun hnone => absurd hnone (by simpa using hconnected)⟩
    obtain ⟨⟨m, p⟩, hsource, h⟩ := bind_eq_ok.mp h
    obtain ⟨_, -, h⟩ := bind_eq_ok.mp h
    cases h
    refine ⟨p, ?_, rfl⟩
    rw [socketSource] at hsource
    split at hsource
    · cases hsource
    · next m' hm =>
      split at hsource
      · cases hsource
      · next p' hp =>
        cases hsource
        exact Option.bind_eq_some_iff.mpr ⟨m, hm, hp⟩
  · next hconnected =>
    cases h
    exact ⟨fun hsome => absurd hsome (by simpa using hconnected), fun _ => rfl⟩

/-- What all look-ups of a made shader have found, and where the ports of its interface inputs are. -/
structure Wired (g : Graph) (interfaces : VariableBlock) (s : Shader) : Prop where
  check : g.check = .ok ()
  first : Publishes (g.inputs.map InterfaceInput.publication)
    (.empty BlockName.publicUniforms publicInstance) interfaces
  published : ∃ wanted b, s.published? = some b ∧ Publishes wanted interfaces b
  nodes : Copied interfaces g.nodes s.graph.nodes
  connected : g.output.node ≠ [] →
    ∃ p, (Scope.mk interfaces s.graph.nodes).output? g.output.node g.output.nodeOutput = some p ∧
      s.graph.socket.connection = some p
  unconnected : g.output.node = [] → s.graph.socket.connection = none

section

variable {registry : Registry} {g : Graph} {interfaces : VariableBlock} {s : Shader}

/-- An assembled shader is wired: the draft copies the nodes, and the variables extend them. -/
theorem Assembled.wired (h : Assembled registry g s) : ∃ interfaces, Wired g interfaces s := by
  cases h with
  | @intro _ _ _ _ ports draft _ _ _ _ hcheck hports hdraft hsocket hnodes =>
    obtain ⟨b, hb, hpublishes, -⟩ := steps_publish hcheck hports hdraft hnodes
    obtain ⟨hextends, hsame⟩ := createAllVariables_extends hnodes
    obtain ⟨hconnected, hunconnected⟩ := connectSocket_reads (interfaceBlock ports) hsocket
    have hnone : Copied (interfaceBlock ports) [] [] := copied_nil
    have hcopied := addNodes_copied hnone hdraft
    refine ⟨interfaceBlock ports, hcheck, publishes_interfaceBlock hports, ⟨_, b, hb, hpublishes⟩,
      hcopied.extend hextends, fun hnode => ?_, fun hnode => hsame ▸ hunconnected hnode⟩
    rw [Scope.output?_extends hextends]
    exact hsame ▸ hconnected hnode

/-- Further uniforms leave the connections as they are. -/
theorem Wired.addUniforms {s' : Shader} {block : Text} {ports : List Port} (h : Wired g interfaces s)
    (hadd : s.addUniforms block ports = .ok s') : Wired g interfaces s' := by
  obtain ⟨wanted, b, hb, hpublishes⟩ := h.published
  obtain ⟨more, b', hb', hmore⟩ := addUniforms_publishes hb hadd
  have hgraph := graph_addUniforms hadd
  exact ⟨h.check, h.first, ⟨_, b', hb', hpublishes.trans hmore⟩, hgraph ▸ h.nodes, hgraph ▸ h.connected,
    hgraph ▸ h.unconnected⟩

theorem Wired.createStage (h : Wired g interfaces s) (name : Text) : Wired g interfaces (s.createStage name) := by
  obtain ⟨wanted, b, hb, hpublishes⟩ := h.published
  have hgraph := graph_createStage s name
  exact ⟨h.check, h.first, ⟨wanted, b, createStage_published hb name, hpublishes⟩, hgraph ▸ h.nodes,
    hgraph ▸ h.connected, hgraph ▸ h.unconnected⟩

/-- Every shader that is made from a graph is wired as the graph says. -/
theorem MadeFrom.wired (h : MadeFrom registry g s) : ∃ interfaces, Wired g interfaces s := by
  refine of_assembled (P := fun s => ∃ interfaces, Wired g interfaces s) (fun _ hs => hs.wired) ?_ ?_ h
  · rintro u u' block ports hadd ⟨interfaces, hu⟩
    exact ⟨interfaces, hu.addUniforms hadd⟩
  · rintro u name ⟨interfaces, hu⟩
    exact ⟨interfaces, hu.createStage name⟩

end

end Shader

/-! ## Where connections lead -/

/-- Which output is taken: the first of the name, or the very first if no name is given. -/
theorem ShaderNode.outputOrFirst?_eq_some_iff {m : ShaderNode} {name : Text} {p : Port} :
    m.outputOrFirst? name = some p ↔ Picks Port.name name m.outputs p := by
  rw [outputOrFirst?, Picks]
  split
  · exact List.head?_eq_some_iff
  · exact find?_eq_some_iff_firstNamed

/-- What a search finds is an output of a node of the name. -/
theorem Shader.Scope.exists_of_output? {scope : Shader.Scope} {node output : Text} {p : Port}
    (h : scope.output? node output = some p) :
    ∃ m ∈ scope.earlier, m.name = node ∧ Picks Port.name output m.outputs p := by
  obtain ⟨m, hm, hp⟩ := Option.bind_eq_some_iff.mp h
  exact ⟨m, List.mem_of_find?_eq_some hm, eq_of_beq (List.find?_some hm :),
    ShaderNode.outputOrFirst?_eq_some_iff.mp hp⟩

/-- An input of a shader for one of a graph, in a node behind the `earlier` ones.  If it is bound to an
interface input it reads the published port of that name, and if it is bound to a node it reads the output
that is asked for of an earlier node.  The port has the type of the input. -/
structure ShaderInput.Resolves (published : VariableBlock) (earlier : List ShaderNode) (i : NodeInput)
    (j : ShaderInput) : Prop where
  name : j.name = i.name
  type : j.type = i.type
  value : j.value = i.value
  interface : i.interface ≠ [] →
    ∃ p, j.connection = some p ∧ FirstNamed Port.name i.interface published.ports p ∧ p.type = i.type
  node : i.node ≠ [] →
    ∃ m ∈ earlier, m.name = i.node ∧
      ∃ p, j.connection = some p ∧ Picks Port.name i.output m.outputs p ∧ p.type = i.type

namespace Shader

/-- A shader is a copy of a graph.  Its nodes are those of the graph in the same order, each input of a node
leads to where the graph says, and the output socket shows the output that the graph names. -/
structure Resolves (g : Graph) (s : Shader) (published : VariableBlock) : Prop where
  nodes : List.Forall₂ (fun n m => m.name = n.name ∧ m.definition = n.definition ∧
    List.Forall₂ Port.Provides n.allOutputs m.outputs) g.nodes s.graph.nodes
  distinct : (s.graph.nodes.map ShaderNode.name).Nodup
  inputs : ∀ {k : Nat} {n : Node} {m : ShaderNode} {x : Nat} {i : NodeInput}, g.nodes[k]? = some n →
    s.graph.nodes[k]? = some m → n.inputs[x]? = some i →
    ∃ j, m.inputs[x]? = some j ∧ ShaderInput.Resolves published (s.graph.nodes.take k) i j
  connected : g.output.node ≠ [] →
    ∃ m ∈ s.graph.nodes, m.name = g.output.node ∧
      ∃ p, s.graph.socket.connection = some p ∧ Picks Port.name g.output.nodeOutput m.outputs p
  unconnected : g.output.node = [] → s.graph.socket.connection = none

variable {registry : Registry} {g : Graph} {interfaces published : VariableBlock} {s : Shader}

/-- Place by place, nodes and copies agree in name, definition and outputs. -/
theorem Copied.forall₂ {ns : List Node} {ms : List ShaderNode} (h : Copied interfaces ns ms) :
    List.Forall₂ (fun n m => m.name = n.name ∧ m.definition = n.definition ∧
      List.Forall₂ Port.Provides n.allOutputs m.outputs) ns ms := by
  refine List.forall₂_iff_get.mpr ⟨h.length.symm, fun k hn hm => ?_⟩
  have hcopies := h.node (List.getElem?_eq_getElem hn) (List.getElem?_eq_getElem hm)
  exact ⟨hcopies.name, hcopies.definition, hcopies.outputs⟩

/-- The names of the copies are distinct, because the check has found those of the graph so. -/
theorem Wired.distinct (h : Wired g interfaces s) : (s.graph.nodes.map ShaderNode.name).Nodup := by
  have hnames : s.graph.nodes.map ShaderNode.name = g.nodes.map Node.name := by
    rw [← List.forall₂_eq_eq_eq, List.forall₂_map_left_iff, List.forall₂_map_right_iff]
    exact (h.nodes.forall₂.imp fun _ _ hnm => hnm.1).flip
  rw [hnames]
  exact (Graph.check_iff_wellFormed.mp h.check).nodes_distinct

/-- The types of both ends were compared when the graph was checked. -/
theorem Serves.type_eq {b : VariableBlock} (h : Serves registry g s b) {k x : Nat} {n : Node} {m : ShaderNode}
    {i : NodeInput} {j : ShaderInput} (hn : g.nodes[k]? = some n) (hm : s.graph.nodes[k]? = some m)
    (hi : n.inputs[x]? = some i) (hj : m.inputs[x]? = some j) (hbound : i.isOpenTexture = false) {p : Port}
    (hp : j.connection = some p) : p.type = i.type := by
  obtain ⟨m', hm', hfollows⟩ := exists_getElem?_of_rel h.nodes hn
  obtain rfl := Option.some.inj (hm'.symm.trans hm)
  have hall : (n.allInputs registry)[x]? = some i := by
    rw [Node.allInputs, List.getElem?_append_left (List.getElem?_eq_some_iff.mp hi).1, hi]
  obtain ⟨j', hj', htakes⟩ := exists_getElem?_of_rel hfollows.inputs hall
  obtain rfl := Option.some.inj (hj'.symm.trans hj)
  exact htakes.typed hbound p hp

/-- What an input has looked up is what the graph asks for. -/
theorem Wired.input_resolves (h : Wired g interfaces s) (hserves : Serves registry g s published) {k x : Nat}
    {n : Node} {m : ShaderNode} {i : NodeInput} (hn : g.nodes[k]? = some n) (hm : s.graph.nodes[k]? = some m)
    (hi : n.inputs[x]? = some i) :
    ∃ j, m.inputs[x]? = some j ∧ ShaderInput.Resolves published (s.graph.nodes.take k) i j := by
  obtain ⟨j, hj, hreads⟩ := (h.nodes.node hn hm).inputs hi
  obtain ⟨earlier, later, hplace⟩ := List.append_of_mem (List.mem_of_getElem? hn)
  have hfits := (Graph.check_iff_wellFormed.mp h.check).inputs_fit earlier n later hplace i (List.mem_of_getElem? hi)
  have htype := fun hbound p => hserves.type_eq hn hm hi hj hbound (p := p)
  refine ⟨j, hj, hreads.name, hreads.type, hreads.value, fun hinterface => ?_, fun hnode => ?_⟩
  · -- the interface input is there, and so is its port, then and now
    obtain ⟨f, hf, -⟩ := hfits.interface hinterface
    have hfound := Graph.find?_interfaces h.first i.interface
    rw [Graph.interface?, find?_eq_some_iff_firstNamed.mpr hf] at hfound
    obtain ⟨_, b, hb, hpublishes⟩ := h.published
    obtain rfl := Option.some.inj (hb.symm.trans hserves.block)
    cases hp : interfaces.find? i.interface with
    | none => rw [hp] at hfound; cases hfound
    | some p =>
      have hconnection := (hreads.interface hinterface).trans hp
      have hlater := hpublishes.find? hp
      rw [VariableBlock.find?_eq (hpublishes.indexed (h.first.indexed (VariableBlock.indexed_empty _ _)))] at hlater
      refine ⟨p, hconnection, find?_eq_some_iff_firstNamed.mp hlater, htype ?_ p hconnection⟩
      simp [NodeInput.isOpenTexture, NodeInput.isBound, hinterface]
  · obtain ⟨p, hp, hconnection⟩ := hreads.node (hfits.once.resolve_left hnode) hnode
    obtain ⟨m', hmem, hname, hpicks⟩ := Scope.exists_of_output? hp
    refine ⟨m', hmem, hname, p, hconnection, hpicks, htype ?_ p hconnection⟩
    simp [NodeInput.isOpenTexture, NodeInput.isBound, hnode]

/-- **The connections of a made shader lead to where the graph says.** -/
theorem connections_resolve (h : MadeFrom registry g s) :
    ∃ published, s.published? = some published ∧ Resolves g s published := by
  obtain ⟨interfaces, hwired⟩ := h.wired
  obtain ⟨b, hserves⟩ := h.serves
  refine ⟨b, hserves.block, hwired.nodes.forall₂, hwired.distinct, hwired.input_resolves hserves, ?_,
    hwired.unconnected⟩
  intro hnode
  obtain ⟨p, hp, hconnection⟩ := hwired.connected hnode
  obtain ⟨m, hmem, hname, hpicks⟩ := Scope.exists_of_output? hp
  exact ⟨m, hmem, hname, p, hconnection, hpicks⟩

/-- A graph in which names of interface inputs and of outputs come twice, and outputs are asked for without
a name. -/
def repeatedNames : Graph :=
  ⟨"G", [⟨"a", .color3, none⟩, ⟨"a", .float, none⟩],
    [⟨"i", "ND_image_color3", .color3, [], [⟨"x", .color3⟩, ⟨"x", .float⟩]⟩,
      ⟨"m", "ND_multiply_color3", .color3,
        [⟨"in1", .color3, none, "i", "x", []⟩, ⟨"in2", .color3, none, [], [], "a"⟩], []⟩,
      ⟨"n", "ND_multiply_color3", .color3,
        [⟨"in1", .color3, none, "i", [], []⟩, ⟨"in2", .color3, none, "m", [], []⟩], []⟩],
    ⟨"out", .color3, "n", [], [], none⟩⟩

theorem connections_resolve_repeated : ∃ s published,
    FragmentGenerator.standard.createShader "S" (some repeatedNames)
      (some (FragmentGenerator.standard.context .standard)) = .ok s ∧
    s.published? = some published ∧ Resolves repeatedNames s published := by
  have hmade : (FragmentGenerator.standard.createShader "S" (some repeatedNames)
      (some (FragmentGenerator.standard.context .standard))).isOk = true := by decide +kernel
  cases h : FragmentGenerator.standard.createShader "S" (some repeatedNames)
      (some (FragmentGenerator.standard.context .standard)) with
  | error e => rw [h] at hmade; cases hmade
  | ok s =>
    obtain ⟨published, hpublished, hresolves⟩ := connections_resolve (.fragment rfl h)
    exact ⟨s, published, rfl, hpublished, hresolves⟩

end Shader
end ShadeGraph
