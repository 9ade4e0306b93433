/-
  Making the nodes of a shader from a checked graph.

  1. What one step of the check has found: of the inputs of a node (`Graph.checkInputs_cons`), and of the nodes
     (`Graph.checkNodes_cons`).
  2. A shader node `StandsFor` a graph node: they have the same name and the same outputs by name and type.
     Lists of such nodes answer lookups alike, so what the check has found is found again.
  3. Naming ports one after the other keeps their account (`ledger_namePorts`, `ledger_nameOutputs`).
  4. Connecting one input of a checked node succeeds and reads a published port or an output of an earlier
     node (`connectInput_ok`); so does connecting all inputs, and adding the node (`addNode_ok`).  None of
     this looks at values (`connectInput_revalued`).
  5. `Shader.DraftOf` is what holds after some of the nodes.  The run over all nodes (`addNodes_cases`) ends
     with it, or at the first node whose definition nobody implements.
-/
import ShadeGraph.Proofs.Computation
import ShadeGraph.Proofs.Inventory

namespace ShadeGraph

open ShaderNode (Supplied)

/-! ## Lookups in related lists -/

/-- Lists that are related element by element answer a search alike, if related elements do. -/
theorem find?_rel {α β : Type} {R : α → β → Prop} {p : α → Bool} {q : β → Bool}
    (hpq : ∀ a b, R a b → p a = q b) {as : List α} {bs : List β} (h : List.Forall₂ R as bs) :
    Option.Rel R (as.find? p) (bs.find? q) := by
  induction h with
  | nil => exact .none
  | @cons a b as bs hab _ ih =>
    rw [List.find?_cons, List.find?_cons, hpq a b hab]
    cases q b with
    | true => exact .some hab
    | false => exact ih

theorem head?_rel {α β : Type} {R : α → β → Prop} {as : List α} {bs : List β}
    (h : List.Forall₂ R as bs) : Option.Rel R as.head? bs.head? := by
  cases h with
  | nil => exact .none
  | cons hab _ => exact .some hab

/-- Everything in a list stands for something in a related one. -/
theorem exists_of_mem_right {α β : Type} {R : α → β → Prop} {as : List α} {bs : List β} {y : β}
    (h : List.Forall₂ R as bs) (hy : y ∈ bs) : ∃ x ∈ as, R x y := by
  induction h with
  | nil => cases hy
  | cons hxy _ ih =>
    rcases List.mem_cons.mp hy with rfl | hy
    · exact ⟨_, List.mem_cons_self, hxy⟩
    · obtain ⟨x, hx, hxy⟩ := ih hy
      exact ⟨x, List.mem_cons_of_mem _ hx, hxy⟩

/-! ## The check, step by step -/

namespace Graph

variable {g : Graph} {earlier : List Node}

/-- A graph passes the check if its interface, its nodes and its output do. -/
theorem check_eq_ok : g.check = .ok () ↔
    checkInterfaces g.name 0 g.inputs = .ok () ∧ checkNodes g [] g.nodes = .ok () ∧
      checkOutput g = .ok () := by
  rw [check]
  cases checkInterfaces g.name 0 g.inputs with
  | error e => exact ⟨fun h => (by cases h), fun h => (by cases h.1)⟩
  | ok u =>
    show (do checkNodes g [] g.nodes; checkOutput g) = _ ↔ _
    cases checkNodes g [] g.nodes with
    | error e => exact ⟨fun h => (by cases h), fun h => (by cases h.2.1)⟩
    | ok w => exact ⟨fun h => ⟨rfl, rfl, h⟩, fun h => h.2.2⟩

/-- One step over the inputs of a node. -/
theorem checkInputs_cons {node : Text} {i : NodeInput} {rest : List NodeInput} :
    g.checkInputs earlier node (i :: rest) = .ok () ↔
      g.checkBinding earlier i = .ok () ∧ g.checkInputs earlier node rest = .ok () := by
  rw [checkInputs]
  cases g.checkBinding earlier i with
  | error e => exact ⟨fun h => (by cases h), fun h => (by cases h.1)⟩
  | ok u => exact ⟨fun h => ⟨rfl, h⟩, fun h => h.2⟩

/-- The inputs of a node pass one by one. -/
theorem checkInputs_iff {node : Text} {inputs : List NodeInput} :
    g.checkInputs earlier node inputs = .ok () ↔ ∀ i ∈ inputs, g.checkBinding earlier i = .ok () := by
  induction inputs with
  | nil => exact ⟨fun _ i hi => (by cases hi), fun _ => rfl⟩
  | cons i rest ih => rw [checkInputs_cons, ih, List.forall_mem_cons]

/-- One step over the nodes: the node has a name that none of the earlier ones has, its inputs are in order, and
the rest is checked with it among the earlier ones. -/
theorem checkNodes_cons {n : Node} {rest : List Node} :
    g.checkNodes earlier (n :: rest) = .ok () ↔
      n.name ≠ [] ∧ n.name ∉ earlier.map Node.name ∧ g.checkInputs earlier n.name n.inputs = .ok () ∧
        g.checkNodes (earlier ++ [n]) rest = .ok () := by
  have hany : earlier.any (·.name == n.name) = true ↔ n.name ∈ earlier.map Node.name := by
    rw [List.any_eq_true, List.mem_map]
    simp only [beq_iff_eq]
  rw [checkNodes, ← hany]
  constructor
  · intro h
    split at h
    · cases h
    · next hname =>
      split at h
      · cases h
      · next hnew =>
        split at h
        · cases h
        · next hinputs => exact ⟨hname, hnew, hinputs, h⟩
  · rintro ⟨hname, hnew, hinputs, hrest⟩
    rw [if_neg hname, if_neg hnew, hinputs]
    exact hrest

end Graph

/-- A port of a shader for a declared output.  Its identifier has an underscore, because it is made from
the names of the node and of the output. -/
def Port.OutputOf (o : NodeOutput) (p : Port) : Prop :=
  p.name = o.name ∧ p.type = o.type ∧ Identifier.underscore ∈ p.ident

/-- A node has an output, declared or not, and so has every node that is made of it. -/
theorem Port.ne_nil_of_outputOf {n : Node} {ports : List Port}
    (h : List.Forall₂ OutputOf n.allOutputs ports) : ports ≠ [] := by
  rintro rfl
  rw [List.forall₂_nil_right_iff, Node.allOutputs] at h
  split at h
  · cases h
  · next hsome => exact hsome h

/-- A node with an output can be classified. -/
theorem Shader.exists_classifyNode {outputs : List Port} (h : outputs ≠ []) (i : Implementation) :
    ∃ c, classifyNode outputs i = .ok c := by
  cases outputs with
  | nil => exact absurd rfl h
  | cons first rest => exact ⟨_, rfl⟩

/-- A node of a shader for a node of a graph. -/
structure ShaderNode.StandsFor (registry : Registry) (n : Node) (m : ShaderNode) : Prop where
  name : m.name = n.name
  implementation : registry.lookup n.definition = some m.implementation
  outputs : List.Forall₂ Port.OutputOf n.allOutputs m.outputs
  classification : Shader.classifyNode m.outputs m.implementation = .ok m.classification

namespace ShaderNode.StandsFor

variable {registry : Registry} {n : Node} {m : ShaderNode}

/-- Both find the same output of a name. -/
theorem output (h : StandsFor registry n m) (name : Text) :
    Option.Rel Port.OutputOf (n.output? name) (m.outputOrFirst? name) := by
  rw [Node.output?, ShaderNode.outputOrFirst?]
  split
  · exact head?_rel h.outputs
  · exact find?_rel (fun o p hop => by rw [hop.1]) h.outputs

/-- A node of a shader has an output, which the code of the node may rely on. -/
theorem outputs_ne_nil (h : StandsFor registry n m) : m.outputs ≠ [] := Port.ne_nil_of_outputOf h.outputs

/-- Furnishing a node leaves what it stands for. -/
theorem furnished {k : ShaderNode} (h : StandsFor registry n m) (hk : ShaderNode.Furnished m k) :
    StandsFor registry n k := by
  rw [hk]
  exact ⟨h.name, h.implementation, h.outputs, h.classification⟩

/-- Nodes that stand for others are found by their names. -/
theorem find {nodes : List Node} {made : List ShaderNode}
    (h : List.Forall₂ (StandsFor registry) nodes made) (name : Text) :
    Option.Rel (StandsFor registry) (nodes.find? (·.name == name)) (made.find? (·.name == name)) :=
  find?_rel (fun n m hnm => by rw [hnm.name]) h

/-- A node and an output that are there in the graph are there in the shader. -/
theorem exists_output {nodes : List Node} {made : List ShaderNode} {name output : Text} {n : Node}
    {o : NodeOutput} (h : List.Forall₂ (StandsFor registry) nodes made)
    (hn : nodes.find? (·.name == name) = some n) (ho : n.output? output = some o) :
    ∃ m, made.find? (·.name == name) = some m ∧ m ∈ made ∧ StandsFor registry n m ∧
      ∃ p, m.outputOrFirst? output = some p ∧ p ∈ m.outputs ∧ p.type = o.type := by
  have hfind := find h name
  rw [hn] at hfind
  cases hm : made.find? (·.name == name) with
  | none => rw [hm] at hfind; cases hfind
  | some m =>
    rw [hm] at hfind
    cases hfind with
    | some hnm =>
      refine ⟨m, rfl, List.mem_of_find?_eq_some hm, hnm, ?_⟩
      have houtput := hnm.output output
      rw [ho] at houtput
      cases hp : m.outputOrFirst? output with
      | none => rw [hp] at houtput; cases houtput
      | some p =>
        rw [hp] at houtput
        cases houtput with
        | some hop =>
          refine ⟨p, rfl, ?_, hop.2.1⟩
          rw [ShaderNode.outputOrFirst?] at hp
          split at hp
          · exact List.mem_of_mem_head? hp
          · exact List.mem_of_find?_eq_some hp

end ShaderNode.StandsFor

namespace Shader

open ShaderNode (StandsFor)

/-! ## Naming ports -/

/-- The ports of the interface are put on the ledger one by one. -/
theorem ledger_namePorts {start : IdentifierMap} : ∀ (inputs : List InterfaceInput) {ids : IdentifierMap}
    {ports : List Port}, Ledger start ids ports →
    Ledger start (namePorts .fragment inputs ids).2 ((namePorts .fragment inputs ids).1 ++ ports) := by
  intro inputs
  induction inputs with
  | nil => intro ids ports h; exact h
  | cons i rest ih =>
    intro ids ports h
    have hfirst := h.cons (p := ⟨i.name, i.type, _, i.value⟩)
      (Naming.variableName_grants i.name i.type ids) (Or.inl rfl)
    exact (ih hfirst).subperm List.perm_middle.symm.subperm

/-- The ports of the interface have identifiers that are made of their names. -/
theorem named_namePorts : ∀ (inputs : List InterfaceInput) (ids : IdentifierMap),
    ∀ p ∈ (namePorts .fragment inputs ids).1, Naming.VariableOf p.name p.type p.ident := by
  intro inputs
  induction inputs with
  | nil => intro ids p hp; cases hp
  | cons i rest ih =>
    intro ids
    exact List.forall_mem_cons.mpr ⟨(Naming.variableName_grants i.name i.type ids).spelled, ih _⟩

/-- What the outputs of a node are named after has an underscore. -/
theorem underscore_mem_outputName (node output : Text) :
    Identifier.underscore ∈ node ++ Text.ofString "_" ++ output :=
  List.mem_append_left _ (List.mem_append_right _ (by decide))

/-- The outputs of a node are put on the ledger, under names with the node in front. -/
theorem ledger_nameOutputs {start : IdentifierMap} (node : Text) :
    ∀ (outputs : List NodeOutput) {ids : IdentifierMap} {ports : List Port}, Ledger start ids ports →
    Ledger start (nameOutputs .fragment node outputs ids).2
      ((nameOutputs .fragment node outputs ids).1 ++ ports) := by
  intro outputs
  induction outputs with
  | nil => intro ids ports h; exact h
  | cons o rest ih =>
    intro ids ports h
    have hfirst := h.cons (p := ⟨o.name, o.type, _, none⟩)
      (Naming.variableName_grants (node ++ "_" ++ o.name) o.type ids)
      (Or.inr (underscore_mem_outputName node o.name))
    exact (ih hfirst).subperm List.perm_middle.symm.subperm

/-- Outputs become ports in their places, each of which stands for its output. -/
theorem outputOf_nameOutputs {node : Text} : ∀ (outputs : List NodeOutput) (ids : IdentifierMap),
    List.Forall₂ Port.OutputOf outputs (nameOutputs .fragment node outputs ids).1 := by
  intro outputs
  induction outputs with
  | nil => intro ids; exact .nil
  | cons o rest ih =>
    intro ids
    have hgrants := Naming.variableName_grants (node ++ "_" ++ o.name) o.type ids
    exact .cons ⟨rfl, rfl, hgrants.spelled.underscore_mem (underscore_mem_outputName node o.name)⟩ (ih _)

/-! ## Connecting inputs -/

/-- What is published so far: `ids` are taken, for the published ports and the outputs of nodes. -/
structure Stock (start : IdentifierMap) (outputs : List Port) (interfaces : VariableBlock)
    (ids : IdentifierMap) (published : VariableBlock) : Prop where
  block : published = .ofPorts BlockName.publicUniforms publicInstance published.ports
  ledger : Ledger start ids (published.ports ++ outputs)
  interfaces : interfaces.ports ⊆ published.ports
  /-- Every published port is named after itself. -/
  named : ∀ p ∈ published.ports, Naming.VariableOf p.name p.type p.ident

/-! Ports get their names, inputs their ports, and the socket what it shows, without a look at values. -/

section

variable (naming : Naming) {φ : Option Value → Option Value}

/-- Names are given without a look at values. -/
theorem namePorts_revalued (inputs : List InterfaceInput) (ids : IdentifierMap) :
    namePorts naming (inputs.map fun i => { i with value := φ i.value }) ids =
      ((namePorts naming inputs ids).1.map (Port.revalued φ), (namePorts naming inputs ids).2) := by
  induction inputs generalizing ids with
  | nil => rfl
  | cons i rest ih =>
    simp only [List.map_cons, namePorts, ih]
    rfl

/-- A change of nodes that keeps what others see of them, values apart. -/
structure Revalues (φ : Option Value → Option Value) (ν : ShaderNode → ShaderNode) : Prop where
  name : ∀ n, (ν n).name = n.name
  classification : ∀ n, (ν n).classification = n.classification
  outputs : ∀ n, (ν n).outputs = n.outputs.map (Port.revalued φ)

/-- Nodes are found by their names, whatever happened to values. -/
theorem Revalues.find? {ν : ShaderNode → ShaderNode} (h : Revalues φ ν) (nodes : List ShaderNode) (name : Text) :
    (nodes.map ν).find? (·.name == name) = (nodes.find? (·.name == name)).map ν := by
  rw [List.find?_map]
  exact congrArg (fun q => (nodes.find? q).map ν) (funext fun n => congrArg (· == name) (h.name n))

/-- So are their outputs. -/
theorem Revalues.outputOrFirst? {ν : ShaderNode → ShaderNode} (h : Revalues φ ν) (n : ShaderNode) (output : Text) :
    (ν n).outputOrFirst? output = (n.outputOrFirst? output).map (Port.revalued φ) := by
  rw [ShaderNode.outputOrFirst?, ShaderNode.outputOrFirst?, ShaderNode.output?, ShaderNode.output?, h.outputs]
  split
  · exact List.head?_map
  · exact Port.find?_map_name (f := Port.revalued φ) (fun _ => rfl) n.outputs output

/-- The scope with the values of its ports changed. -/
def Scope.revalued (φ : Option Value → Option Value) (ν : ShaderNode → ShaderNode) (s : Scope) : Scope :=
  ⟨s.interfaces.mapPorts (Port.revalued φ), s.earlier.map ν⟩

/-- **Connecting an input commutes with a change of values**: ports are found by name, and a new one takes the
changed value along. -/
theorem connectInput_revalued {ν : ShaderNode → ShaderNode} (h : Revalues φ ν) (scope : Scope) (node : Text)
    (i : NodeInput) (ids : IdentifierMap) (published : VariableBlock) :
    connectInput naming (scope.revalued φ ν) node { i with value := φ i.value } ids
        (published.mapPorts (Port.revalued φ)) =
      (connectInput naming scope node i ids published).map fun r =>
        (r.1.map (Port.revalued φ), r.2.1, r.2.2.mapPorts (Port.revalued φ)) := by
  have hname : ∀ p : Port, (p.revalued φ).name = p.name := fun _ => rfl
  have houtput : (scope.revalued φ ν).output? i.node i.output =
      (scope.output? i.node i.output).map (Port.revalued φ) := by
    rw [Scope.output?, Scope.output?, Scope.revalued, h.find?, Option.bind_map, Option.map_bind]
    exact congrArg _ (funext fun n => h.outputOrFirst? n i.output)
  rw [connectInput, connectInput]
  simp only
  split
  · rw [Scope.revalued, VariableBlock.find?_mapPorts]
    rfl
  · split
    · rw [houtput]
      cases scope.output? i.node i.output <;> rfl
    · split
      · let p : Port := ⟨node ++ "_" ++ i.name, i.type, (naming.variableName (node ++ "_" ++ i.name) i.type ids).1,
          i.value⟩
        -- The uniform is looked up and added by its name, which no value enters.
        show Except.ok (some ((published.mapPorts (Port.revalued φ)).resolve (p.revalued φ)), _,
          (published.mapPorts (Port.revalued φ)).add (p.revalued φ)) = _
        rw [VariableBlock.resolve_mapPorts hname, VariableBlock.add_mapPorts hname]
        rfl
      · rfl

/-- So does connecting the output socket. -/
theorem connectSocket_revalued {ν : ShaderNode → ShaderNode} (h : Revalues φ ν)
    (ψ : Option Value → Option Value) (nodes : List ShaderNode) (s : Socket) (ident : Text) :
    connectSocket (nodes.map ν) { s with value := ψ s.value } ident =
      (connectSocket nodes s ident).map fun r =>
        (⟨r.1.port.revalued ψ, r.1.connection.map (Port.revalued φ), r.1.channels⟩, r.2) := by
  have hsource : socketSource (nodes.map ν) { s with value := ψ s.value } =
      (socketSource nodes s).map fun r => (ν r.1, r.2.revalued φ) := by
    rw [socketSource, socketSource]
    simp only [h.find?]
    cases nodes.find? (·.name == s.node) with
    | none => rfl
    | some n =>
      simp only [Option.map_some, h.outputOrFirst?]
      cases n.outputOrFirst? s.nodeOutput <;> rfl
  rw [connectSocket, connectSocket, hsource]
  show (if s.isConnected then _ else _) = _
  split
  · refine map_bind_eq ?_
    rintro ⟨n, p⟩ -
    show (checkSocket (socketName s) s p >>= _) = Except.map _ (checkSocket (socketName s) s p >>= _)
    cases checkSocket (socketName s) s p with
    | error e => rfl
    | ok u =>
      simp only [h.classification]
      rfl
  · rfl

end

section

variable {registry : Registry} {g : Graph} {earlier : List Node} {scope : Scope}
  {start : IdentifierMap} {outputs : List Port}

/-- The output that a checked input asks for is there. -/
theorem exists_output {i : NodeInput} (hcheck : g.checkBinding earlier i = .ok ())
    (hinterface : i.interface = []) (hnode : i.node ≠ [])
    (hearlier : List.Forall₂ (StandsFor registry) earlier scope.earlier) :
    ∃ p, scope.output? i.node i.output = some p ∧ p ∈ scope.earlier.flatMap ShaderNode.outputs := by
  rw [Graph.checkBinding, if_neg (fun h => h.2 hinterface), if_neg (not_not_intro hinterface),
    if_pos hnode] at hcheck
  split at hcheck
  · cases hcheck
  · next n hn =>
    split at hcheck
    · cases hcheck
    · next o ho =>
      obtain ⟨m, hm, hmem, _, p, hp, hpmem, _⟩ := StandsFor.exists_output hearlier hn ho
      exact ⟨p, by rw [Scope.output?, hm]; exact hp, List.mem_flatMap.mpr ⟨m, hmem, hpmem⟩⟩

/-- A texture that nobody binds is published. -/
theorem Stock.publish {interfaces published : VariableBlock} {ids : IdentifierMap}
    (h : Stock start outputs interfaces ids published) (name : Text) (t : DataType)
    (value : Option Value) :
    Stock start outputs interfaces (Naming.fragment.variableName name t ids).2
      (published.add ⟨name, t, (Naming.fragment.variableName name t ids).1, value⟩) := by
  have hnamed := h.ledger.cons (p := ⟨name, t, _, value⟩) (Naming.variableName_grants name t ids)
    (Or.inl rfl)
  rw [h.block, VariableBlock.add_ofPorts]
  refine ⟨rfl, hnamed.subperm Port.addTo_append_subperm, ?_, fun p hp => ?_⟩
  · exact List.Subset.trans h.interfaces Port.subset_addTo
  · rcases Port.mem_of_mem_addTo hp with hp | rfl
    · exact h.named p hp
    · exact (Naming.variableName_grants name t ids).spelled

/-- One input of a checked node. -/
theorem connectInput_ok {i : NodeInput} {ids : IdentifierMap} {published : VariableBlock} (node : Text)
    (hcheck : g.checkBinding earlier i = .ok ())
    (hearlier : List.Forall₂ (StandsFor registry) earlier scope.earlier)
    (hstock : Stock start outputs scope.interfaces ids published) :
    ∃ connection ids' published',
      connectInput .fragment scope node i ids published = .ok (connection, ids', published') ∧
      Stock start outputs scope.interfaces ids' published' ∧ published.ports ⊆ published'.ports ∧
      ∀ p ∈ connection, p ∈ published'.ports ++ scope.earlier.flatMap ShaderNode.outputs := by
  rw [connectInput]
  by_cases hinterface : i.interface = []
  · rw [if_neg (not_not_intro hinterface)]
    by_cases hnode : i.node = []
    · rw [if_neg (not_not_intro hnode)]
      -- Only a file name publishes a uniform; a value without a connection stays with the input.
      split
      · refine ⟨_, _, _, rfl, hstock.publish _ _ _, ?_, fun p hp => ?_⟩
        · rw [hstock.block, VariableBlock.add_ofPorts]; exact Port.subset_addTo
        · refine List.mem_append_left _ ?_
          obtain rfl := Option.some.inj hp
          rw [hstock.block, VariableBlock.add_ofPorts, VariableBlock.resolve_ofPorts]
          exact Port.standIn_mem
      · exact ⟨_, _, _, rfl, hstock, List.Subset.refl _, fun p hp => by cases hp⟩
    · rw [if_pos hnode]
      obtain ⟨p, hp, hmem⟩ := exists_output hcheck hinterface hnode hearlier
      rw [hp]
      refine ⟨_, _, _, rfl, hstock, List.Subset.refl _, fun q hq => ?_⟩
      obtain rfl := Option.some.inj hq
      exact List.mem_append_right _ hmem
  · rw [if_pos hinterface]
    refine ⟨_, _, _, rfl, hstock, List.Subset.refl _, fun p hp => ?_⟩
    exact List.mem_append_left _ (hstock.interfaces (VariableBlock.mem_of_find? hp))

/-- All inputs of a checked node. -/
theorem connectInputs_ok (scope : Scope) {node : Text}
    (hearlier : List.Forall₂ (StandsFor registry) earlier scope.earlier) :
    ∀ (inputs : List NodeInput) {ids : IdentifierMap} {published : VariableBlock},
      g.checkInputs earlier node inputs = .ok () →
      Stock start outputs scope.interfaces ids published →
      ∃ made ids' published',
        connectInputs .fragment scope node inputs ids published = .ok (made, ids', published') ∧
        Stock start outputs scope.interfaces ids' published' ∧ published.ports ⊆ published'.ports ∧
        ∀ p ∈ made.filterMap ShaderInput.connection,
          p ∈ published'.ports ++ scope.earlier.flatMap ShaderNode.outputs := by
  intro inputs
  induction inputs with
  | nil =>
    intro ids published _ hstock
    exact ⟨[], ids, published, rfl, hstock, List.Subset.refl _, fun p hp => by cases hp⟩
  | cons i rest ih =>
    intro ids published hcheck hstock
    obtain ⟨hbinding, hcheck⟩ := Graph.checkInputs_cons.mp hcheck
    obtain ⟨connection, ids₁, published₁, hfirst, hstock₁, hsub₁, hconnection⟩ :=
      connectInput_ok node hbinding hearlier hstock
    obtain ⟨made, ids₂, published₂, hrest, hstock₂, hsub₂, hmade⟩ := ih hcheck hstock₁
    refine ⟨⟨i.name, i.type, i.value, connection⟩ :: made, ids₂, published₂, ?_, hstock₂,
      List.Subset.trans hsub₁ hsub₂, fun p hp => ?_⟩
    · simp only [connectInputs, hfirst, hrest, bind, Except.bind, pure, Except.pure]
    · rw [List.filterMap_cons] at hp
      cases connection with
      | none => exact hmade p hp
      | some q =>
        rcases List.mem_cons.mp hp with rfl | hp
        -- Uniforms that were published for this input are still there after the others.
        · rcases List.mem_append.mp (hconnection p rfl) with hp | hp
          · exact List.mem_append_left _ (hsub₂ hp)
          · exact List.mem_append_right _ hp
        · exact hmade p hp

end

/-! ## Adding nodes -/

/-- What holds of the draft when the nodes in `done` have been added. -/
structure DraftOf (registry : Registry) (start : IdentifierMap) (interfaces : VariableBlock)
    (done : List Node) (d : Draft) : Prop where
  nodes : List.Forall₂ (StandsFor registry) done d.nodes
  stock : Stock start (d.nodes.flatMap ShaderNode.outputs) interfaces d.identifiers d.published
  supplied : Supplied d.published.ports d.nodes

section

variable {registry : Registry} {g : Graph} {start : IdentifierMap} {interfaces : VariableBlock}

/-- One more node whose inputs are checked and whose definition is implemented. -/
theorem addNode_ok {done : List Node} {d : Draft} {n : Node} {i : Implementation}
    (hcheck : g.checkInputs done n.name n.inputs = .ok ())
    (hlookup : registry.lookup n.definition = some i)
    (h : DraftOf registry start interfaces done d) :
    ∃ d', addNode registry .fragment interfaces d n = .ok d' ∧
      DraftOf registry start interfaces (done ++ [n]) d' := by
  have hnamed := ledger_nameOutputs n.name n.allOutputs h.stock.ledger
  have hstock : Stock start
      ((nameOutputs .fragment n.name n.allOutputs d.identifiers).1 ++
        d.nodes.flatMap ShaderNode.outputs) interfaces
      (nameOutputs .fragment n.name n.allOutputs d.identifiers).2 d.published :=
    ⟨h.stock.block, hnamed.subperm (by
      rw [← List.append_assoc, ← List.append_assoc]
      exact (List.perm_append_comm.append_right _).subperm), h.stock.interfaces, h.stock.named⟩
  obtain ⟨inputs, ids, published, hinputs, hstock', hsub, hsources⟩ :=
    connectInputs_ok ⟨interfaces, d.nodes⟩ h.nodes n.inputs hcheck hstock
  have houtputs : List.Forall₂ Port.OutputOf n.allOutputs
      (nameOutputs .fragment n.name n.allOutputs d.identifiers).1 := outputOf_nameOutputs _ _
  obtain ⟨classification, hclassify⟩ := exists_classifyNode (Port.ne_nil_of_outputOf houtputs) i
  refine ⟨_, by rw [addNode, hlookup]; simp only [hclassify, hinputs]; rfl, ?_, ?_, ?_⟩
  · exact List.rel_append h.nodes (.cons ⟨rfl, hlookup, houtputs, hclassify⟩ .nil)
  · refine ⟨hstock'.block, hstock'.ledger.subperm (List.Perm.subperm ?_), hstock'.interfaces,
      hstock'.named⟩
    rw [List.flatMap_append, List.flatMap_singleton]
    exact List.perm_append_comm.append_left _
  · refine (h.supplied.mono hsub).concat fun p hp => hsources p ?_
    rwa [ShaderNode.sources, Option.toList_none, List.append_nil] at hp

/-- **The run over all nodes**: it ends with a draft of all of them, or at a node whose definition nobody
implements. -/
theorem addNodes_cases : ∀ (rest : List Node) {done : List Node} {d : Draft},
    g.checkNodes done rest = .ok () → DraftOf registry start interfaces done d →
    ((∀ n ∈ rest, (registry.lookup n.definition).isSome = true) ∧
      ∃ d', rest.foldlM (addNode registry .fragment interfaces) d = .ok d' ∧
        DraftOf registry start interfaces (done ++ rest) d') ∨
    ∃ n ∈ rest, registry.lookup n.definition = none ∧
      rest.foldlM (addNode registry .fragment interfaces) d =
        .error (.noImplementation n.name n.definition) := by
  intro rest
  induction rest with
  | nil =>
    intro done d _ h
    rw [List.append_nil]
    exact Or.inl ⟨fun n hn => (by cases hn), d, rfl, h⟩
  | cons n rest ih =>
    intro done d hcheck h
    obtain ⟨_, _, hinputs, hcheck⟩ := Graph.checkNodes_cons.mp hcheck
    cases hlookup : registry.lookup n.definition with
    -- The fold stops at the first node without an implementation, and names it.
    | none =>
      exact Or.inr ⟨n, List.mem_cons_self, hlookup, by rw [List.foldlM_cons, addNode, hlookup]; rfl⟩
    | some i =>
      obtain ⟨d₁, hd₁, h₁⟩ := addNode_ok hinputs hlookup h
      have hfold : (n :: rest).foldlM (addNode registry .fragment interfaces) d =
          rest.foldlM (addNode registry .fragment interfaces) d₁ := by
        rw [List.foldlM_cons, hd₁]; rfl
      rw [hfold]
      rcases ih hcheck h₁ with ⟨hall, d', hd', h'⟩ | ⟨m, hm, hnone, herror⟩
      · rw [List.append_assoc] at h'
        refine Or.inl ⟨fun m hm => ?_, d', hd', h'⟩
        rcases List.mem_cons.mp hm with rfl | hm
        · rw [hlookup]; rfl
        · exact hall m hm
      · exact Or.inr ⟨m, List.mem_cons_of_mem n hm, hnone, herror⟩

end

end Shader

/-! ## Graphs that become shaders -/

/-- The socket can show an output: as it is, or through its channels. -/
def Socket.Fits (s : Socket) (o : NodeOutput) : Prop :=
  if s.channels = [] then o.type = s.type else Swizzle.check o.type s.channels s.type = .ok ()

/-- The output that the socket of a graph shows, if it is connected to one. -/
def Graph.shown? (g : Graph) : Option NodeOutput :=
  (g.node? g.output.node).bind fun n => n.output? g.output.nodeOutput

/-- The socket of a graph is not connected, or fits what it shows. -/
def Graph.SocketFits (g : Graph) : Prop :=
  g.output.isConnected = true → ∃ o, g.shown? = some o ∧ g.output.Fits o

/-- What the socket of a shader shows, and how the graph is classified by that: nothing but a value of its own
type, or the port for an output that fits. -/
inductive Graph.Shows (registry : Registry) (g : Graph) (socket : ShaderSocket) (c : Classification) : Prop
  | nothing (hconnected : g.output.isConnected = false) (hport : socket.connection = none)
      (hvalue : ∀ v ∈ socket.port.value, v.type = socket.port.type) (hclass : c = .texture)
  | output {n : Node} {o : NodeOutput} {m : ShaderNode} {p : Port}
      (hconnected : g.output.isConnected = true) (hn : g.node? g.output.node = some n)
      (ho : n.output? g.output.nodeOutput = some o) (hm : ShaderNode.StandsFor registry n m)
      (hport : socket.connection = some p) (htype : p.type = o.type) (hfits : g.output.Fits o)
      (hclass : c = m.classification)

/-- A graph that becomes a shader: it passes the check, every definition is implemented, and the socket
fits what it shows. -/
structure Graph.Accepted (registry : Registry) (g : Graph) : Prop where
  checked : g.check = .ok ()
  implemented : ∀ n ∈ g.nodes, (registry.lookup n.definition).isSome = true
  socket : g.SocketFits

/-- The errors that say what is wrong with a graph. -/
def ShaderError.concernsGraph : ShaderError → Bool
  | .invalidGraph _ | .noImplementation _ _ | .badSwizzle _ _ | .outputType _ _ _ => true
  | _ => false

/-- The value of a socket that is not connected has the type of the socket. -/
theorem Graph.value_type {g : Graph} (hcheck : g.checkOutput = .ok ())
    (hconnected : g.output.isConnected = false) : ∀ v ∈ g.output.value, v.type = g.output.type := by
  intro v hv
  rw [Graph.checkOutput] at hcheck
  simp only [hconnected, Graph.checkValue, show g.output.value = some v from hv] at hcheck
  split at hcheck
  · cases hcheck
  · rw [if_neg Bool.false_ne_true] at hcheck
    split at hcheck
    · next htype => exact htype
    · cases hcheck

/-- The socket of a checked graph is not connected, or what it shows is there. -/
theorem Graph.exists_shown {g : Graph} (hcheck : g.checkOutput = .ok ())
    (hconnected : g.output.isConnected = true) :
    ∃ n o, g.node? g.output.node = some n ∧ n.output? g.output.nodeOutput = some o := by
  rw [Graph.checkOutput] at hcheck
  split at hcheck
  · cases hcheck
  · split at hcheck
    · cases hcheck
    · next n hn =>
      split at hcheck
      · cases hcheck
      · next o ho => exact ⟨n, o, hn, ho⟩

namespace Shader

open ShaderNode (StandsFor)

/-- A socket that shows a port, and the error of one that cannot. -/
theorem checkSocket_cases (name : Text) (s : Socket) {p : Port} {o : NodeOutput}
    (htype : p.type = o.type) :
    (s.Fits o ∧ checkSocket name s p = .ok ()) ∨
      (¬ s.Fits o ∧ ∃ e, checkSocket name s p = .error e ∧ e.concernsGraph = true) := by
  rw [Socket.Fits, checkSocket, htype]
  by_cases hchannels : s.channels = []
  · rw [if_pos hchannels, if_neg (not_not_intro hchannels)]
    split
    · next heq => exact Or.inl ⟨heq, rfl⟩
    · next hne => exact Or.inr ⟨hne, _, rfl, rfl⟩
  · rw [if_neg hchannels, if_pos hchannels]
    cases Swizzle.check o.type s.channels s.type with
    | ok u => exact Or.inl ⟨rfl, rfl⟩
    | error e => exact Or.inr ⟨fun h => (by cases h), _, rfl, rfl⟩

/-- The socket of a checked graph: it is connected to an output of a node that was made, or to nothing, or
it does not fit. -/
theorem connectSocket_cases {registry : Registry} {g : Graph} {nodes : List ShaderNode}
    (h : List.Forall₂ (StandsFor registry) g.nodes nodes) (hcheck : g.checkOutput = .ok ())
    (ident : Text) :
    (g.SocketFits ∧ ∃ connection classification,
      (∀ p ∈ connection, p ∈ nodes.flatMap ShaderNode.outputs) ∧
      g.Shows registry ⟨⟨socketName g.output, g.output.type, ident, g.output.value⟩, connection,
        g.output.channels⟩ classification ∧
      connectSocket nodes g.output ident =
        .ok (⟨⟨socketName g.output, g.output.type, ident, g.output.value⟩, connection,
          g.output.channels⟩, classification)) ∨
    (¬ g.SocketFits ∧ ∃ e, connectSocket nodes g.output ident = .error e ∧
      e.concernsGraph = true) := by
  rw [connectSocket]
  by_cases hconnected : g.output.isConnected = true
  · obtain ⟨n, o, hn, ho⟩ := Graph.exists_shown hcheck hconnected
    obtain ⟨m, hm, hmem, hstands, p, hp, hpmem, htype⟩ := StandsFor.exists_output h hn ho
    have hshown : g.shown? = some o := by rw [Graph.shown?, hn]; exact ho
    have hsource : socketSource nodes g.output = .ok (m, p) := by
      rw [socketSource, hm]; simp only [hp]
    rw [if_pos hconnected, hsource]
    simp only [bind, Except.bind]
    -- The type of the output decides, and it is that of the node in the graph.
    rcases checkSocket_cases (socketName g.output) g.output htype with ⟨hfits, hok⟩ | ⟨hnot, e, he, hc⟩
    · rw [hok]
      refine Or.inl ⟨fun _ => ⟨o, hshown, hfits⟩, some p, m.classification, fun q hq => ?_,
        .output hconnected hn ho hstands rfl htype hfits rfl, rfl⟩
      obtain rfl := Option.some.inj hq
      exact List.mem_flatMap.mpr ⟨m, hmem, hpmem⟩
    · rw [he]
      refine Or.inr ⟨fun hfits => ?_, e, rfl, hc⟩
      obtain ⟨o', ho', hfits'⟩ := hfits hconnected
      rw [hshown] at ho'
      exact hnot (Option.some.inj ho' ▸ hfits')
  · rw [if_neg hconnected]
    have hunconnected := Bool.eq_false_iff.mpr hconnected
    exact Or.inl ⟨fun hc => absurd hc hconnected, none, _, fun p hp => (by cases hp),
      .nothing hunconnected rfl (Graph.value_type hcheck hunconnected) rfl, rfl⟩

/-- What is known of the graph of a shader and of its ports before light is added. -/
structure Created (registry : Registry) (start : IdentifierMap) (g : Graph) (graph : ShaderGraph)
    (v : Inventory) : Prop where
  nodes : List.Forall₂ (StandsFor registry) g.nodes graph.nodes
  accounted : v.Accounted start (graph.nodes.flatMap ShaderNode.outputs)
  hosted : v.Hosted
  supplied : Supplied (v.constants ++ v.published) graph.nodes
  socket : ∀ p ∈ graph.socket.connection, p ∈ graph.nodes.flatMap ShaderNode.outputs
  channels : graph.socket.channels = g.output.channels
  type : graph.socket.port.type = g.output.type
  spelled : ∃ name, Naming.VariableOf name g.output.type graph.socket.port.ident
  named : ∀ p ∈ v.published, Naming.VariableOf p.name p.type p.ident
  furnished : ∃ nodes before, before.vertex = [] ∧ before.hidden = [] ∧
    Inventory.furnishAll nodes before = (graph.nodes, v)
  shows : g.Shows registry graph.socket graph.classification

/-- The names that are taken before any port is named. -/
def startOf (c : Context) : IdentifierMap := c.reserved.foldl IdentifierMap.reserve .reserved

/-- The public uniforms for the interface inputs of a graph. -/
def interfacesOf (g : Graph) (c : Context) : VariableBlock :=
  (namePorts .fragment g.inputs (startOf c)).1.foldl VariableBlock.add
    (.empty BlockName.publicUniforms publicInstance)

/-- The draft before the first node. -/
def firstDraft (g : Graph) (c : Context) : Draft :=
  ⟨(namePorts .fragment g.inputs (startOf c)).2, interfacesOf g c, []⟩

/-- The first draft has the ports of the interface and no node. -/
theorem draftOf_firstDraft (registry : Registry) (g : Graph) (c : Context) :
    DraftOf registry (startOf c) (interfacesOf g c) [] (firstDraft g c) := by
  have hnamed := ledger_namePorts g.inputs (Ledger.nil (startOf c))
  have hblock : interfacesOf g c = .ofPorts BlockName.publicUniforms publicInstance
      ((namePorts .fragment g.inputs (startOf c)).1.foldl Port.addTo []) :=
    VariableBlock.foldl_add_ofPorts _ _ _ _
  refine ⟨.nil, ⟨by rw [firstDraft, hblock]; rfl, ?_, List.Subset.refl _, ?_⟩, trivial⟩
  · rw [firstDraft, hblock, List.flatMap_nil, List.append_nil]
    rw [List.append_nil] at hnamed
    have hsub := Port.foldl_addTo_subperm (namePorts .fragment g.inputs (startOf c)).1 []
    rw [List.append_nil] at hsub
    exact hnamed.subperm hsub
  · rw [firstDraft, hblock]
    exact Port.forall_foldl_addTo (fun p hp => by cases hp) (named_namePorts g.inputs (startOf c))

/-- The names and ports of a draft when the output socket has been named. -/
def draftInventory (g : Graph) (d : Draft) : Inventory :=
  { identifiers :=
      (Naming.fragment.variableName (socketName g.output) g.output.type d.identifiers).2
    constants := [], hidden := [], published := d.published.ports, vertex := [] }

/-- The variable of the output socket. -/
def socketIdent (g : Graph) (d : Draft) : Text :=
  (Naming.fragment.variableName (socketName g.output) g.output.type d.identifiers).1

/-- The graph of a shader as it is when the output socket has been connected. -/
def draftGraph (g : Graph) (c : Context) (d : Draft) (socket : ShaderSocket)
    (classification : Classification) : ShaderGraph :=
  { name := g.name, inputs := (namePorts .fragment g.inputs (startOf c)).1, nodes := d.nodes, socket
    classification, identifiers := (draftInventory g d).identifiers }

/-- The steps of making a shader, with the intermediate results named. -/
theorem ofGraph_steps (registry : Registry) (name : Text) (g : Graph) (c : Context) :
    ofGraph registry .fragment name g c = (do
      let d ← g.nodes.foldlM (addNode registry .fragment (interfacesOf g c)) (firstDraft g c)
      let (socket, classification) ← connectSocket d.nodes g.output (socketIdent g d)
      let graph := draftGraph g c d socket classification
      let (nodes, shader) ← createAllVariables .fragment d.nodes ⟨name, graph, [newPixelStage d.published]⟩
      let shader := { shader with graph := { shader.graph with nodes } }
      if graph.requiresLighting then
        shader.addUniforms BlockName.privateUniforms (lightingUniforms c.options)
      else .ok shader) := rfl

/-- Uniforms are added to a block that the pixel stage has. -/
theorem addUniforms_ok {s s' : Shader} {block : Text} {ports : List Port}
    (h : s.addUniforms block ports = .ok s') :
    ∃ ps, s.stage? pixelStage = some ps ∧
      s' = s.setStage (ports.foldl (fun ps p => ps.addUniform block p) ps) := by
  rw [addUniforms] at h
  split at h
  · cases h
  · next ps hps =>
    split at h
    · cases h
    · exact ⟨ps, hps, (Except.ok.inj h).symm⟩

/-- The graph of a shader has no part in its uniforms. -/
theorem graph_addUniforms {s s' : Shader} {block : Text} {ports : List Port}
    (h : s.addUniforms block ports = .ok s') : s'.graph = s.graph := by
  obtain ⟨ps, _, rfl⟩ := addUniforms_ok h
  rfl

/-- Another stage leaves the graph alone. -/
theorem graph_createStage (s : Shader) (name : Text) : (s.createStage name).graph = s.graph := by
  rw [createStage]
  split <;> rfl

/-- The uniforms of the environment, for a graph that takes light. -/
def withEnvironment (o : Options) (graph : ShaderGraph) (v : Inventory) : Inventory :=
  if graph.requiresLighting then v.withHidden (lightingUniforms o) else v

/-- The shader that is made once the nodes and the socket are. -/
theorem ofGraph_eq {registry : Registry} {name : Text} {g : Graph} {c : Context} {d : Draft}
    {socket : ShaderSocket} {classification : Classification}
    (hdraft : g.nodes.foldlM (addNode registry .fragment (interfacesOf g c)) (firstDraft g c) = .ok d)
    (hblock : d.published = .ofPorts BlockName.publicUniforms publicInstance d.published.ports)
    (hsocket : connectSocket d.nodes g.output (socketIdent g d) = .ok (socket, classification))
    {nodes : List ShaderNode} {v : Inventory}
    (hfurnish : Inventory.furnishAll d.nodes (draftInventory g d) = (nodes, v)) :
    ofGraph registry .fragment name g c =
      .ok ((withEnvironment c.options (draftGraph g c d socket classification) v).shader name
        { draftGraph g c d socket classification with nodes }) := by
  have hstart : (⟨name, draftGraph g c d socket classification, [newPixelStage d.published]⟩ : Shader) =
      (draftInventory g d).shader name (draftGraph g c d socket classification) := by
    rw [hblock]; rfl
  have hrun := Inventory.createAllVariables_shader name (draftGraph g c d socket classification) d.nodes
    (draftInventory g d)
  rw [hfurnish] at hrun
  rw [ofGraph_steps, hdraft]
  simp only [bind, Except.bind, hsocket, hstart, hrun, withEnvironment]
  split
  · exact Inventory.addUniforms_hidden v name { draftGraph g c d socket classification with nodes } _
  · rfl

/-- Nodes that got inputs and constants stand for the same nodes of the graph. -/
theorem standsFor_furnished {registry : Registry} {ns : List Node} {ms : List ShaderNode}
    (h : List.Forall₂ (StandsFor registry) ns ms) :
    ∀ {ks : List ShaderNode}, List.Forall₂ ShaderNode.Furnished ms ks →
      List.Forall₂ (StandsFor registry) ns ks := by
  induction h with
  | nil => intro ks hk; cases hk; exact .nil
  | cons hnm _ ih =>
    intro ks hk
    cases hk with
    | cons hmk hrest => exact .cons (hnm.furnished hmk) (ih hrest)

/-- They have the same outputs. -/
theorem outputs_furnished {ms ks : List ShaderNode} (h : List.Forall₂ ShaderNode.Furnished ms ks) :
    ks.flatMap ShaderNode.outputs = ms.flatMap ShaderNode.outputs := by
  induction h with
  | nil => rfl
  | cons hmk _ ih => rw [List.flatMap_cons, List.flatMap_cons, ih, hmk]

/-- What is known of a draft is known of the shader that is made from it. -/
theorem created_of_draft {registry : Registry} {g : Graph} {c : Context} {d : Draft}
    (h : DraftOf registry (startOf c) (interfacesOf g c) g.nodes d) {connection : Option Port}
    (hconnection : ∀ p ∈ connection, p ∈ d.nodes.flatMap ShaderNode.outputs)
    {classification : Classification} (hshows : g.Shows registry
      ⟨⟨socketName g.output, g.output.type, socketIdent g d, g.output.value⟩, connection,
        g.output.channels⟩ classification) :
    Created registry (startOf c) g
      { draftGraph g c d
          ⟨⟨socketName g.output, g.output.type, socketIdent g d, g.output.value⟩, connection,
            g.output.channels⟩ classification with
        nodes := (Inventory.furnishAll d.nodes (draftInventory g d)).1 }
      (Inventory.furnishAll d.nodes (draftInventory g d)).2 := by
  have hfurnished := Inventory.furnished_furnishAll d.nodes (draftInventory g d)
  have houtputs := outputs_furnished hfurnished
  have hgrants := Naming.variableName_grants (socketName g.output) g.output.type d.identifiers
  -- Furnishing keeps outputs, so what holds of the draft is carried along node by node.
  refine ⟨standsFor_furnished h.nodes hfurnished, ?_, ?_, ?_, ?_, rfl, rfl, ⟨_, hgrants.spelled⟩, ?_,
    ⟨d.nodes, draftInventory g d, rfl, rfl, rfl⟩, hshows⟩
  · rw [houtputs]
    exact Inventory.furnishAll_induction
      (P := Inventory.Accounted (startOf c) (d.nodes.flatMap ShaderNode.outputs))
      (fun n v hv => Inventory.accounted_furnish hv n) d.nodes (h.stock.ledger.mono hgrants.grows)
  · exact Inventory.furnishAll_induction (P := Inventory.Hosted)
      (fun n v hv => Inventory.hosted_furnish hv n) d.nodes
      ⟨fun p hp => (by cases hp), List.nodup_nil, fun p hp => (by cases hp)⟩
  · have hsupplied := Inventory.supplied_furnishAll d.nodes (draftInventory g d) []
    rw [List.append_nil, List.append_nil] at hsupplied
    exact hsupplied h.supplied
  · intro p hp
    rw [houtputs]
    exact hconnection p hp
  · exact Inventory.furnishAll_induction
      (P := fun v => ∀ p ∈ v.published, Naming.VariableOf p.name p.type p.ident)
      (fun n v hv => Inventory.named_furnish hv n) d.nodes h.stock.named

/-- **A checked graph becomes a shader exactly if it is accepted**; otherwise the error says what is wrong
with the graph. -/
theorem ofGraph_cases (registry : Registry) (name : Text) {g : Graph} (c : Context)
    (hcheck : g.check = .ok ()) :
    (g.Accepted registry ∧ ∃ graph v, Created registry (startOf c) g graph v ∧
      ofGraph registry .fragment name g c =
        .ok ((withEnvironment c.options graph v).shader name graph)) ∨
    (¬ g.Accepted registry ∧ ∃ e, ofGraph registry .fragment name g c = .error e ∧
      e.concernsGraph = true) := by
  obtain ⟨_, hnodes, houtput⟩ := Graph.check_eq_ok.mp hcheck
  rcases addNodes_cases g.nodes hnodes (draftOf_firstDraft registry g c) with
    ⟨hall, d, hd, hdraft⟩ | ⟨n, hn, hnone, herror⟩
  · rcases connectSocket_cases hdraft.nodes houtput (socketIdent g d) with
      ⟨hfits, connection, classification, hconnection, hshows, hsocket⟩ | ⟨hnot, e, he, hconcerns⟩
    · exact Or.inl ⟨⟨hcheck, hall, hfits⟩, _, _, created_of_draft hdraft hconnection hshows,
        ofGraph_eq hd hdraft.stock.block hsocket rfl⟩
    · refine Or.inr ⟨fun haccepted => hnot haccepted.socket, e, ?_, hconcerns⟩
      rw [ofGraph_steps, hd]
      simp only [bind, Except.bind, he]
  · refine Or.inr ⟨fun haccepted => ?_, _, by rw [ofGraph_steps, herror]; rfl, rfl⟩
    have hsome := haccepted.implemented n hn
    rw [hnone] at hsome
    cases hsome

end Shader

/-! ## The shader of a fragment -/

namespace FragmentGenerator

/-- A context for one fragment in which the caller may have asked for a number of samples. -/
def contextWith (g : FragmentGenerator) (o : Options) (samples : SampleSetting) : Context :=
  { g.context o with samples := samples }

/-- The names that are taken before any port of a fragment is named. -/
def start : IdentifierMap := IdentifierMap.reserved.reserve transparencyArgument

/-- The uniforms that light needs, for a graph that takes light. -/
def lit (g : FragmentGenerator) (o : Options) (graph : ShaderGraph) (v : Inventory) : Inventory :=
  if graph.requiresLighting && g.api.isLegacy then
    (Shader.withEnvironment o graph v).withPublished lightRigPorts
  else Shader.withEnvironment o graph v

/-- The shader of a fragment as it is before code is written. -/
def blank (g : FragmentGenerator) (o : Options) (name : Text) (graph : ShaderGraph) (v : Inventory) :
    Shader :=
  { (g.lit o graph v).shader name graph with
    stages := [(g.lit o graph v).pixel, .empty uniformsStage] }

/-- With a graph and a context there, making a plain shader checks the graph and goes on with it. -/
theorem create_eq (g : FragmentGenerator) (name : Text) (gr : Graph) (o : Options)
    (samples : SampleSetting) :
    Shader.create g.registry name (some gr) (some (g.contextWith o samples)) =
      match gr.check with
      | .error e => .error (.invalidGraph e)
      | .ok _ => Shader.ofGraph g.registry .fragment name gr (g.contextWith o samples) := by
  rw [Shader.create]
  simp only [contextWith, context, Graph.checkGiven]
  cases gr.check <;> rfl

/-- What makes the plain shader fail makes that of a fragment fail. -/
theorem createShader_error {g : FragmentGenerator} {name : Text} {graph : Option Graph}
    {c : Option Context} {e : ShaderError} (h : Shader.create g.registry name graph c = .error e) :
    g.createShader name graph c = .error e := by
  rw [createShader, h]

/-- What comes after a shader was made: the arguments for light, if it takes some, and the second stage. -/
theorem createShader_steps {g : FragmentGenerator} {name : Text} {graph : Option Graph}
    {c : Option Context} {s : Shader} (h : g.createShader name graph c = .ok s) :
    ∃ made lit, Shader.create g.registry name graph c = .ok made ∧
      (lit = made ∨ made.addUniforms BlockName.publicUniforms lightRigPorts = .ok lit) ∧
      s = lit.createStage uniformsStage := by
  rw [createShader] at h
  split at h
  · cases h
  · next made hmade =>
    simp only at h
    split at h
    · obtain ⟨lit, hlit, h⟩ := bind_eq_ok.mp h
      exact ⟨made, lit, hmade, Or.inr hlit, (Except.ok.inj h).symm⟩
    · exact ⟨made, made, hmade, Or.inl rfl, (Except.ok.inj h).symm⟩

/-- Light and the second stage are added to a shader that could be made. -/
theorem createShader_ok {g : FragmentGenerator} {name : Text} {gr : Option Graph} {c : Option Context}
    {o : Options} {graph : ShaderGraph} {v : Inventory}
    (h : Shader.create g.registry name gr c =
      .ok ((Shader.withEnvironment o graph v).shader name graph)) :
    g.createShader name gr c = .ok (g.blank o name graph v) := by
  have hlight : ((Shader.withEnvironment o graph v).shader name graph).graph.requiresLighting =
      graph.requiresLighting := rfl
  rw [createShader, h]
  simp only [hlight, blank, lit]
  split
  · rw [Inventory.addUniforms_published]; rfl
  · rfl

/-- **A fragment gets a shader exactly if its graph is accepted**; otherwise the error says what is wrong
with the graph. -/
theorem createShader_cases (g : FragmentGenerator) (name : Text) (graph : Option Graph) (o : Options)
    (samples : SampleSetting) :
    (∃ gr ∈ graph, gr.Accepted g.registry ∧ ∃ made v, Shader.Created g.registry start gr made v ∧
      g.createShader name graph (some (g.contextWith o samples)) = .ok (g.blank o name made v)) ∨
    ((∀ gr ∈ graph, ¬ gr.Accepted g.registry) ∧
      ∃ e, g.createShader name graph (some (g.contextWith o samples)) = .error e ∧
        e.concernsGraph = true) := by
  cases graph with
  | none => exact Or.inr ⟨fun gr hgr => (by cases hgr), _, rfl, rfl⟩
  | some gr =>
    have hcreate := create_eq g name gr o samples
    cases hcheck : gr.check with
    | error e =>
      rw [hcheck] at hcreate
      refine Or.inr ⟨fun gr' hgr' haccepted => ?_, .invalidGraph e, createShader_error hcreate, rfl⟩
      obtain rfl := Option.some.inj hgr'
      rw [haccepted.checked] at hcheck
      cases hcheck
    | ok u =>
      rw [hcheck] at hcreate
      rcases Shader.ofGraph_cases g.registry name (g.contextWith o samples) hcheck with
        ⟨haccepted, made, v, hcreated, hof⟩ | ⟨hnot, e, he, hconcerns⟩
      · exact Or.inl ⟨gr, rfl, haccepted, made, v, hcreated, createShader_ok (hcreate.trans hof)⟩
      · exact Or.inr ⟨fun gr' hgr' => Option.some.inj hgr' ▸ hnot, e,
          createShader_error (hcreate.trans he), hconcerns⟩

end FragmentGenerator
end ShadeGraph
