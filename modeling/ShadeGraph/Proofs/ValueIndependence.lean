/-
  What code does not show.

  Graphs with the same mask become shaders with the same mask (`Shader.ofGraph_masked`).  The code of such
  shaders is the same.

  1. Everything in front of the root function is written without a look at uniforms (`Stage.unseen_masked`).
  2. The root function reads ports by their identifiers and types, and literals only where no port is read
     (`root_masked`).
  3. So the name of a graph, the values of its interface inputs and the files of its textures come out as
     values of parameters only (`generate_of_masked_eq`).
-/
import ShadeGraph.Proofs.MaskedShader
import ShadeGraph.Proofs.ParameterTable
import ShadeGraph.Proofs.StageFrame

namespace ShadeGraph

/-- The parameter without its value. -/
def FragmentParameter.bare (p : FragmentParameter) : FragmentParameter := { p with value := none }

/-- The stage without the values of uniforms. -/
def Stage.masked (s : Stage) : Stage := { s with uniforms := s.uniforms.map VariableBlock.bare }

/-- Writing does not look at the values of uniforms. -/
theorem Stage.unseen_masked : Unseen masked where
  write _ _ := rfl
  depth _ := rfl
  scopes _ := rfl
  setScopes _ _ _ := rfl
  includes _ := rfl
  setIncludes _ _ := rfl
  vertex _ _ _ := rfl
  constants _ _ _ := rfl

/-! ## Uniforms of light -/

namespace Inventory

variable (v : Inventory) (ports : List Port)

/-- The stage of an inventory without values is its stage without values. -/
theorem pixel_masked : v.masked.pixel = v.pixel.masked := by
  have hbare (name instanceName : Text) (ports : List Port) :
      VariableBlock.ofPorts name instanceName (ports.map Port.bare) =
        (VariableBlock.ofPorts name instanceName ports).bare :=
    (VariableBlock.mapPorts_ofPorts Port.name_bare name instanceName ports).symm
  rw [pixel, masked, hbare, hbare]
  rfl

theorem withHidden_masked : (v.withHidden ports).masked = v.masked.withHidden (ports.map Port.bare) := by
  rw [withHidden, withHidden, masked, masked]
  simp only [Port.foldl_addTo_map Port.name_bare]

theorem withPublished_masked :
    (v.withPublished ports).masked = v.masked.withPublished (ports.map Port.bare) := by
  rw [withPublished, withPublished, masked, masked]
  simp only [Port.foldl_addTo_map Port.name_bare]

end Inventory

namespace FragmentGenerator

/-- Shaders that look alike take the same light. -/
theorem lit_masked (g : FragmentGenerator) (o : Options) {graph graph' : ShaderGraph}
    (hgraph : graph.masked = graph'.masked) {v v' : Inventory} (hv : v.masked = v'.masked) :
    (g.lit o graph v).masked = (g.lit o graph' v').masked := by
  obtain ⟨_, _, _, _, hclassification, _⟩ := ShaderGraph.mk.inj hgraph
  have hlight : graph.requiresLighting = graph'.requiresLighting := by
    rw [ShaderGraph.requiresLighting, ShaderGraph.requiresLighting, hclassification]
  have henvironment : (Shader.withEnvironment o graph v).masked = (Shader.withEnvironment o graph' v').masked := by
    rw [Shader.withEnvironment, Shader.withEnvironment, hlight]
    split
    · rw [Inventory.withHidden_masked, Inventory.withHidden_masked, hv]
    · exact hv
  rw [lit, lit, hlight]
  split
  · rw [Inventory.withPublished_masked, Inventory.withPublished_masked, henvironment]
  · exact henvironment

end FragmentGenerator

/-! ## The root function -/

/-- The statements of a node are written as before. -/
theorem ShaderNode.statements_masked (n : ShaderNode) (stage : Stage) :
    (n.masked.statements stage).map Statement.text = (n.statements stage).map Statement.text := by
  have houtput : n.masked.outputs.head? = n.outputs.head?.map Port.bare := List.head?_map
  have himplementation : n.masked.implementation = n.implementation := rfl
  rw [statements, statements, houtput, himplementation]
  cases n.outputs.head? with
  | none => rfl
  | some out =>
    cases n.implementation.sourcePath? with
    | none =>
      -- a line that declares the output with the expression
      have htext : Operand.renderAll .fixed (n.masked.phrase stage) = Operand.renderAll .fixed (n.phrase stage) := by
        rw [← expression_eq, ← expression_eq, expression_masked]
      exact congrArg (fun e => [out.type.glslName ++ " " ++ out.ident ++ " = " ++ e]) htext
    | some path =>
      -- the output with a zero, and the call
      have htext := n.callText_masked .fixed (Implementation.functionIn path) out
      rw [callText_eq, callText_eq] at htext
      exact congrArg (fun e => [(zeroStatement out).text, e]) htext

namespace FragmentGenerator

/-- The result is put together without the values. -/
theorem returnStatements_masked (format : FloatFormat) (graph : ShaderGraph) (transparent : Bool) :
    returnStatements format graph.masked transparent = returnStatements format graph transparent := by
  have hsocket : graph.masked.socket.connection = graph.socket.connection.map Port.bare := rfl
  rw [returnStatements, returnStatements, hsocket]
  cases graph.socket.connection <;> rfl

/-- Arguments are bound without the values. -/
theorem bindings_masked (v : Inventory) (lightRig : Bool) :
    bindings (publicPorts v.masked.pixel) (vertexPorts v.masked.pixel) lightRig =
      bindings (publicPorts v.pixel) (vertexPorts v.pixel) lightRig := by
  have hpublic : publicPorts v.masked.pixel = (publicPorts v.pixel).map Port.bare := rfl
  rw [bindings, bindings, hpublic, List.filter_map, List.map_map]
  rfl

/-- **The root function of a shader is that of every shader with its mask.** -/
theorem root_masked (g : FragmentGenerator) (transparent : Bool) (graph : ShaderGraph) (name : Text)
    (v : Inventory) :
    (g.root transparent graph.masked name v.masked.pixel).text =
      (g.root transparent graph name v.pixel).text := by
  have harguments : rootArguments v.masked.pixel transparent = rootArguments v.pixel transparent := by
    have hpublic : publicPorts v.masked.pixel = (publicPorts v.pixel).map Port.bare := rfl
    rw [rootArguments, rootArguments, hpublic, List.map_append, List.map_append, List.map_map]
    rfl
  have hnodes : (graph.masked.nodes.flatMap fun n => n.statements v.masked.pixel).map Statement.text =
      (graph.nodes.flatMap fun n => n.statements v.pixel).map Statement.text := by
    rw [ShaderGraph.masked, List.flatMap_map, List.map_flatMap, List.map_flatMap]
    exact congrArg (graph.nodes.flatMap ·) (funext fun n => n.statements_masked v.pixel)
  -- The mask keeps the classification, so the body is put together from the same parts.
  have hbody : (g.rootBody transparent graph.masked v.masked.pixel).map Statement.text =
      (g.rootBody transparent graph v.pixel).map Statement.text := by
    have hclosure : graph.masked.bareClosure = graph.bareClosure := rfl
    have hlight : graph.masked.requiresLighting = graph.requiresLighting := rfl
    rw [rootBody, rootBody, hclosure, hlight]
    split
    · rfl
    · simp only [List.map_append, ← bindings_eq, ← returnStatements_eq, hnodes, bindings_masked,
        returnStatements_masked]
  rw [RootFunction.text, RootFunction.text, bodyLines, bodyLines]
  show _ ++ argumentLines ((rootArguments v.masked.pixel transparent).map _) ++ _ ++
    statementLines ((g.rootBody transparent graph.masked v.masked.pixel).map Statement.text) ++ _ = _
  rw [harguments, hbody]
  rfl

/-! ## Generating fragments -/

variable {g : FragmentGenerator} {name : Text} {o : Options} {samples : SampleSetting} {gr gr' : Graph}
  {made made' : ShaderGraph} {v v' : Inventory}

/-- **Shaders that look alike get the same code in front of their root functions.** -/
theorem Fronts.eq_of_masked {front front' : Text} {includes includes' : List Text}
    (hgraph : made.masked = made'.masked) (hv : v.masked = v'.masked)
    (h : g.Fronts o samples made v front includes) (h' : g.Fronts o samples made' v' front' includes') :
    front = front' ∧ includes = includes' := by
  obtain ⟨s, hpreamble, hfunctions⟩ := h
  obtain ⟨s', hpreamble', hfunctions'⟩ := h'
  have hpixel : (g.lit o made v).pixel.masked = (g.lit o made' v').pixel.masked := by
    rw [← Inventory.pixel_masked, ← Inventory.pixel_masked, g.lit_masked o hgraph hv]
  obtain ⟨_, _, hnodes, _⟩ := ShaderGraph.mk.inj hgraph
  have hnames : made.nodes.map (fun n => (n.name, n.implementation)) =
      made'.nodes.map fun n => (n.name, n.implementation) := by
    have hmasked := congrArg (List.map fun n : ShaderNode => (n.name, n.implementation)) hnodes
    rwa [List.map_map, List.map_map] at hmasked
  have hstage := Stage.unseen_masked.eq_of_writePreamble hpixel hpreamble hpreamble'
  have hdone := Stage.unseen_masked.eq_of_defineFunctions hnames hstage hfunctions hfunctions'
  exact ⟨List.append_cancel_right (congrArg Stage.code hdone), congrArg Stage.includes hdone⟩

/-- **Shaders that look alike end with pixel stages that show the same**: code, root function and vertex data. -/
theorem finalPixel_masked (hgraph : made.masked = made'.masked) (hv : v.masked = v'.masked) (front : Text)
    (includes : List Text) {ps ps' : Stage}
    (hps : ps = g.finalPixel o made (g.lit o made v) ((g.lit o made v).identifiers.makeIdentifier name).1 front
      includes)
    (hps' : ps' = g.finalPixel o made' (g.lit o made' v') ((g.lit o made' v').identifiers.makeIdentifier name).1
      front includes) :
    ps'.code = ps.code ∧ ps'.functionName = ps.functionName ∧
      ps'.inputBlock? BlockName.vertexData = ps.inputBlock? BlockName.vertexData := by
  have hlit := g.lit_masked o hgraph hv
  obtain ⟨hids, _, _, _, hvertex⟩ := Inventory.mk.inj hlit
  have hroot (root : Text) : (g.root o.transparency made' root (g.lit o made' v').pixel).text =
      (g.root o.transparency made root (g.lit o made v).pixel).text := by
    rw [← g.root_masked _ made', ← g.root_masked _ made, hgraph, hlit]
  refine ⟨?_, ?_, ?_⟩
  · rw [hps, hps', finalPixel, finalPixel, hids]
    simp only [hroot]
  · rw [hps, hps', hids]
    rfl
  · -- the block of vertex data has a fixed name, so its ports decide
    rw [hps, hps']
    exact congrArg (fun ports => some (VariableBlock.ofPorts BlockName.vertexData Token.vertexData ports)) hvertex.symm

/-- Ports that look alike make parameters that do. -/
theorem parameters_bare (c : Context) (hostBound : Bool) {ports ports' : List Port}
    (h : ports.map Port.bare = ports'.map Port.bare) :
    (ports.map (Fragment.parameterOf c hostBound)).map FragmentParameter.bare =
      (ports'.map (Fragment.parameterOf c hostBound)).map FragmentParameter.bare := by
  have hbare (ports : List Port) : (ports.map (Fragment.parameterOf c hostBound)).map FragmentParameter.bare =
      (ports.map Port.bare).map (Fragment.parameterOf c hostBound) := by
    rw [List.map_map, List.map_map]
    rfl
  rw [hbare, hbare, h]

/-- **Code does not show names of graphs, values of interface inputs and files of textures.**  Two checked
graphs that differ in these alone fail with the same error; or both become fragments whose code, root function
and vertex data are the same, and whose parameters differ in their values alone. -/
theorem generate_of_masked_eq (hmask : gr.masked = gr'.masked) (hcheck : gr.check = .ok ())
    (hcheck' : gr'.check = .ok ()) (g : FragmentGenerator) (name : Text) (o : Options) (samples : SampleSetting) :
    (∃ e, (g.generate name (some gr) (g.contextWith o samples)).1 = .error e ∧
      (g.generate name (some gr') (g.contextWith o samples)).1 = .error e) ∨
    ∃ s s' c ps ps' f f', g.generate name (some gr) (g.contextWith o samples) = (.ok s, c) ∧
      g.generate name (some gr') (g.contextWith o samples) = (.ok s', c) ∧
      s.stage? pixelStage = some ps ∧ s'.stage? pixelStage = some ps' ∧
      ps'.code = ps.code ∧ ps'.functionName = ps.functionName ∧
      ps'.inputBlock? BlockName.vertexData = ps.inputBlock? BlockName.vertexData ∧
      Fragment.ofShader g s c = .ok f ∧ Fragment.ofShader g s' c = .ok f' ∧
      f'.parameters.map FragmentParameter.bare = f.parameters.map FragmentParameter.bare := by
  have hcreate := create_eq g name gr o samples
  have hcreate' := create_eq g name gr' o samples
  rw [hcheck] at hcreate
  rw [hcheck'] at hcreate'
  rcases Shader.ofGraph_masked hmask hcheck hcheck' g.registry name (g.contextWith o samples) with
    ⟨e, he, he'⟩ | ⟨made, v, made', v', hcreated, hcreated', hof, hof', hgraph, hv⟩
  · -- neither graph becomes a shader
    refine .inl ⟨e, ?_, ?_⟩
    · exact generate_of_createShader_error (createShader_error (hcreate.trans he))
    · exact generate_of_createShader_error (createShader_error (hcreate'.trans he'))
  have hmade := createShader_ok (hcreate.trans hof)
  have hmade' := createShader_ok (hcreate'.trans hof')
  by_cases hmethod : o.specular ∈ litMethods
  · obtain ⟨front, includes, htidy, hfronts⟩ := exists_fronts hcreated hmethod samples
    obtain ⟨front', includes', _, hfronts'⟩ := exists_fronts hcreated' hmethod samples
    obtain ⟨rfl, rfl⟩ := hfronts.eq_of_masked hgraph hv hfronts'
    have hok := generate_of_fronts hcreated hmade hfronts
    have hok' := generate_of_fronts hcreated' hmade' hfronts'
    have hfinished := g.finished_of_created o name hcreated htidy includes
    have hfinished' := g.finished_of_created o name hcreated' htidy includes
    have hname := functionName_of_generate hok hfinished.pixel
    have hname' := functionName_of_generate hok' hfinished'.pixel
    obtain ⟨hcode, hroot, hvertex⟩ := finalPixel_masked hgraph hv front includes rfl rfl
    obtain ⟨_, _, hhidden, hpublished, _⟩ := Inventory.mk.inj (g.lit_masked o hgraph hv)
    -- the context is the same behind both runs
    have hcontext := context_of_generate (eq_of_fst_eq hok)
    have hcontext' := context_of_generate (eq_of_fst_eq hok')
    have hrun' := eq_of_fst_eq hok'
    rw [hcontext', ← hcontext] at hrun'
    refine .inr ⟨_, _, _, _, _, _, _, eq_of_fst_eq hok, hrun', hfinished.pixel, hfinished'.pixel, hcode, hroot,
      hvertex, hfinished.ofShader_eq rfl hname.ne_nil, hfinished'.ofShader_eq rfl hname'.ne_nil, ?_⟩
    rw [List.map_append, List.map_append]
    exact congrArg₂ _ (parameters_bare _ true hhidden.symm) (parameters_bare _ false hpublished.symm)
  · -- there is no lighting code, for either shader
    exact .inl ⟨_, generate_error hcreated hmade hmethod, generate_error hcreated' hmade' hmethod⟩

/-- A graph that tints a texture. -/
def tintedGraph (name : Text) (tint file : Option Value) : Graph :=
  ⟨name, [⟨"tint", .color3, tint⟩],
    [⟨"i", "ND_image_color3", .color3, [⟨"file", .filename, file, [], [], []⟩], []⟩,
      ⟨"m", "ND_multiply_color3", .color3,
        [⟨"in1", .color3, none, "i", [], []⟩, ⟨"in2", .color3, none, [], [], "tint"⟩], []⟩],
    ⟨"out", .color3, "m", [], [], none⟩⟩

/-- Another name, another tint and another file do not change the code. -/
theorem generate_of_masked_eq_tinted : ∃ s s' c ps ps' f f',
    standard.generate "S" (some (tintedGraph "G" (some (.zero .color3)) (some (.filename "a.png"))))
      (standard.contextWith .standard .absent) = (.ok s, c) ∧
    standard.generate "S" (some (tintedGraph "H" none (some (.filename "b.png"))))
      (standard.contextWith .standard .absent) = (.ok s', c) ∧
    s.stage? pixelStage = some ps ∧ s'.stage? pixelStage = some ps' ∧
    ps'.code = ps.code ∧ ps'.functionName = ps.functionName ∧
    ps'.inputBlock? BlockName.vertexData = ps.inputBlock? BlockName.vertexData ∧
    Fragment.ofShader standard s c = .ok f ∧ Fragment.ofShader standard s' c = .ok f' ∧
    f'.parameters.map FragmentParameter.bare = f.parameters.map FragmentParameter.bare := by
  let gr := tintedGraph "G" (some (.zero .color3)) (some (.filename "a.png"))
  let gr' := tintedGraph "H" none (some (.filename "b.png"))
  have hmask : gr.masked = gr'.masked := by decide
  have haccepted : gr.Accepted standard.registry :=
    ⟨by decide, by decide, fun _ => ⟨⟨"out", .color3⟩, by decide, rfl⟩⟩
  obtain ⟨_, _, _, _, _, hok⟩ := exists_finalShader haccepted "S" (o := .standard) (by decide) .absent
  rcases generate_of_masked_eq hmask haccepted.checked (by decide) standard "S" .standard .absent with
    ⟨e, he, _⟩ | h
  · cases hok.symm.trans he
  · exact h

end FragmentGenerator
end ShadeGraph
