/-
  Graphs that are written, read and generated again.

  1. Settling commutes with every piece of code that a fragment consists of, so a settled graph gives the
     same texts (`generate_settled`).
  2. Bytes that are a graph are one again after decoding and encoding, and what comes back is the settled
     graph.  It generates the same code, unless a node takes the index of its texture coordinates from a
     boolean that holds another number than zero: that number is not written.
-/
import ShadeGraph.Proofs.DecodedGraph
import ShadeGraph.Proofs.Generation
import ShadeGraph.Proofs.SettledShader

namespace ShadeGraph

open Failed (carry)

/-! ## Making the shader -/

/-- No node takes the index of its texture coordinates from a boolean with another number than zero. -/
def Graph.PlainIndices (g : Graph) : Prop :=
  ∀ n ∈ g.nodes, n.definition = Implementation.texcoord.definition →
    ∀ v ∈ n.indexValue?, v.type = .boolean → v.asInt = 0

instance (g : Graph) : Decidable g.PlainIndices :=
  inferInstanceAs (Decidable (∀ n ∈ g.nodes, n.definition = Implementation.texcoord.definition →
    ∀ v ∈ n.indexValue?, v.type = .boolean → v.asInt = 0))

namespace Registry

/-- Every implementation is registered under its own definition. -/
def OwnNames (r : Registry) : Prop := ∀ e ∈ r.entries, e.1 = e.2.definition

theorem ownNames_standard : standard.OwnNames := by
  intro e he
  obtain ⟨i, _, rfl⟩ := List.mem_map.mp he
  rfl

/-- Registering an implementation under its own definition keeps the registry so. -/
theorem OwnNames.register {r : Registry} (h : r.OwnNames) (i : Implementation) :
    (r.register i.definition i).OwnNames := by
  have hset : ∀ {es : List (Text × Implementation)}, (∀ e ∈ es, e.1 = e.2.definition) →
      ∀ e ∈ setEntry i.definition i es, e.1 = e.2.definition := by
    intro es
    induction es with
    | nil => intro _; exact List.forall_mem_singleton.mpr rfl
    | cons e rest ih =>
      intro hes
      obtain ⟨he, hrest⟩ := List.forall_mem_cons.mp hes
      rw [setEntry]
      split
      · exact List.forall_mem_cons.mpr ⟨rfl, hrest⟩
      · exact List.forall_mem_cons.mpr ⟨he, ih hrest⟩
  exact hset h

/-- What is found under a definition has that definition. -/
theorem OwnNames.of_lookup {r : Registry} (h : r.OwnNames) {definition : Text} {i : Implementation}
    (hlookup : r.lookup definition = some i) : definition = i.definition := by
  have hmem : ∀ {es : List (Text × Implementation)}, es.lookup definition = some i → (definition, i) ∈ es := by
    intro es
    induction es with
    | nil => intro h; cases h
    | cons e rest ih =>
      intro h
      rw [List.lookup_cons] at h
      split at h
      · next heq => rw [eq_of_beq heq]; cases h; exact List.mem_cons_self
      · exact List.mem_cons_of_mem e (ih h)
  exact h _ (hmem hlookup)

end Registry

namespace FragmentGenerator

variable (gen : FragmentGenerator)

/-- The registry of every generator is so, the one with the host's surfaces included. -/
theorem ownNames_registry : gen.registry.OwnNames := by
  rw [registry]
  split
  · exact Registry.ownNames_standard
  · exact Registry.ownNames_standard.register (.surface .host)

/-- The ports that light adds have no values to settle. -/
theorem lightRigPorts_settled : ∀ p ∈ lightRigPorts, p.settled = p := by decide

/-- The condition on indices, as it is asked for each implementation. -/
theorem plainIndices_lookup {g : Graph} (hindex : g.PlainIndices) :
    ∀ n ∈ g.nodes, gen.registry.lookup n.definition = some .texcoord →
      ∀ v ∈ n.indexValue?, v.type = .boolean → v.asInt = 0 :=
  fun n hn hlookup => hindex n hn (gen.ownNames_registry.of_lookup hlookup)

/-- Making a plain shader checks the graph first, and a settled graph passes like the graph. -/
theorem create_settled {g : Graph} (hindex : g.PlainIndices) (name : Text) (c : Option Context) :
    Shader.create gen.registry name (some g.settled) c =
      (Shader.create gen.registry name (some g) c).map Shader.settled := by
  have hgiven : Graph.checkGiven (some g.settled) = (Graph.checkGiven (some g)).map Graph.settled := by
    show (g.settled.check >>= fun _ => pure g.settled) = _
    rw [Graph.check_settled]
    show _ = Except.map _ (g.check >>= fun _ => pure g)
    cases g.check <;> rfl
  have hsame : ∀ g', Graph.checkGiven (some g) = .ok g' → g' = g := by
    intro g' h
    obtain ⟨_, _, rfl⟩ := bind_pure_eq_ok.mp h
    rfl
  -- Settling changes none of the checks in front, so the same one fails on both sides.
  unfold Shader.create
  rw [hgiven]
  cases c with
  | none => rfl
  | some c =>
    dsimp only
    cases c.dialect with
    | none => rfl
    | some d =>
      cases c.declarations with
      | none => rfl
      | some style =>
        cases hcheck : Graph.checkGiven (some g) with
        | error e => rfl
        | ok g' =>
          obtain rfl := hsame g' hcheck
          exact Shader.ofGraph_settled (gen.plainIndices_lookup hindex) name c

/-- The nodes of a plain shader have plain indices. -/
theorem plainIndex_create {g : Graph} (hindex : g.PlainIndices) {name : Text} {c : Option Context} {s : Shader}
    (h : Shader.create gen.registry name (some g) c = .ok s) : ∀ n ∈ s.graph.nodes, n.PlainIndex := by
  unfold Shader.create at h
  split at h
  · cases h
  · split at h
    · split at h
      · cases h
      · next g' hg' =>
        obtain ⟨_, _, rfl⟩ := bind_pure_eq_ok.mp hg'
        exact Shader.plainIndex_ofGraph (gen.plainIndices_lookup hindex) h
    · cases h

/-- **Making the shader of a fragment commutes with settling**: what it adds to a plain shader is settled
already. -/
theorem createShader_settled {g : Graph} (hindex : g.PlainIndices) (name : Text) (c : Option Context) :
    gen.createShader name (some g.settled) c = (gen.createShader name (some g) c).map Shader.settled := by
  rw [createShader, createShader, create_settled gen hindex]
  cases Shader.create gen.registry name (some g) c with
  | error e => rfl
  | ok s =>
    show (if s.graph.requiresLighting && gen.api.isLegacy then
        s.settled.addUniforms BlockName.publicUniforms lightRigPorts >>= fun s => pure (s.createStage uniformsStage)
      else pure (s.settled.createStage uniformsStage)) =
      Except.map Shader.settled (if s.graph.requiresLighting && gen.api.isLegacy then
        s.addUniforms BlockName.publicUniforms lightRigPorts >>= fun s => pure (s.createStage uniformsStage)
      else pure (s.createStage uniformsStage))
    split
    · rw [Shader.addUniforms_settled _ _ lightRigPorts_settled]
      exact map_bind_eq fun t _ => congrArg Except.ok (t.createStage_settled uniformsStage)
    · exact congrArg Except.ok (s.createStage_settled uniformsStage)

/-- The nodes of a fragment's shader have plain indices. -/
theorem plainIndex_createShader {g : Graph} (hindex : g.PlainIndices) {name : Text} {c : Option Context}
    {s : Shader} (h : gen.createShader name (some g) c = .ok s) : ∀ n ∈ s.graph.nodes, n.PlainIndex := by
  obtain ⟨made, lit, hmade, hlit, rfl⟩ := createShader_steps h
  have hgraph : lit.graph = made.graph := by
    rcases hlit with rfl | hadd
    · rfl
    · exact Shader.graph_addUniforms hadd
  rw [Shader.graph_createStage, hgraph]
  exact gen.plainIndex_create hindex hmade

/-! ## Writing code -/

section

variable (s : Stage)

/-! ## The root function -/

/-- An argument is declared without its value. -/
theorem arguments_settled (format : FloatFormat) (ports : List Port) (transparent : Bool) :
    arguments format (ports.map Port.settled) transparent = arguments format ports transparent := by
  rw [arguments, arguments, List.map_map]
  rfl

/-- Arguments are texts, and texts are written without a look at values. -/
theorem writeArguments_settled (texts : List Text) :
    writeArguments texts s.settled = (writeArguments texts s).settled := by
  fun_induction writeArguments texts s with
  | case1 s => rfl
  | case2 s a => rfl
  | case3 s a rest hrest ih => rw [writeArguments]; exact ih; exact hrest

theorem writeStatements_settled (statements : List Text) :
    writeStatements statements s.settled = (writeStatements statements s).settled := by
  induction statements generalizing s with
  | nil => rfl
  | cons t rest ih => exact ih (s.line t true)

/-- What makes arguments available names identifiers and types. -/
theorem bindings_settled (published vertex : List Port) (lightRig : Bool) :
    bindings (published.map Port.settled) (vertex.map Port.settled) lightRig =
      bindings published vertex lightRig := by
  simp only [bindings, List.map_map, List.filter_map]
  rfl

/-- What is returned names the identifier of a port, or the literal of a value. -/
theorem returnStatements_settled (format : FloatFormat) (graph : ShaderGraph) (transparent : Bool) :
    returnStatements format graph.settled transparent = returnStatements format graph transparent := by
  have hconnection : graph.settled.socket.connection = graph.socket.connection.map Port.settled := rfl
  have hvalue : graph.settled.socket.port.value = graph.socket.port.value.map Value.settled := rfl
  rw [returnStatements, returnStatements, hconnection]
  cases graph.socket.connection with
  | some p => rfl
  | none =>
    simp only [Option.map_none, hvalue]
    cases graph.socket.port.value with
    | none => rfl
    | some v => simp only [Option.map_some, Value.literal_settled]; rfl

/-- The functions of the nodes come from files and have nothing to do with values. -/
theorem defineFunctions_settled (c : Context) (nodes : List ShaderNode) (defined : List Text) :
    Shader.defineFunctions c (nodes.map ShaderNode.settled) defined s.settled =
      carry Stage.settled (Shader.defineFunctions c nodes defined s) := by
  have hsame : (nodes.map ShaderNode.settled).map (fun n => (n.name, n.implementation)) =
      nodes.map fun n => (n.name, n.implementation) := List.map_map
  rw [Shader.defineFunctions_congr c hsame, Stage.unseen_settled.defineFunctions]

/-- The calls of all nodes, by what the call of one does. -/
theorem callFunctions_settled (c : Context) {nodes : List ShaderNode} (h : ∀ n ∈ nodes, n.PlainIndex) :
    Shader.callFunctions c (nodes.map ShaderNode.settled) s.settled =
      carry Stage.settled (Shader.callFunctions c nodes s) := by
  induction nodes generalizing s with
  | nil => rfl
  | cons n rest ih =>
    obtain ⟨hn, hrest⟩ := List.forall_mem_cons.mp h
    rw [List.map_cons, Shader.callFunctions, Shader.callFunctions, ShaderNode.emitCall_settled hn]
    cases n.emitCall c s with
    | error e => rfl
    | ok t => exact ih t hrest

/-- **The body of the root function**: arguments are bound, nodes are called, and the color is returned. -/
theorem writeBody_settled (c : Context) (format : FloatFormat) {graph : ShaderGraph}
    (h : ∀ n ∈ graph.nodes, n.PlainIndex) (published vertex : List Port) :
    gen.writeBody c format graph.settled (published.map Port.settled) (vertex.map Port.settled) s.settled =
      (gen.writeBody c format graph published vertex s).map Stage.settled := by
  unfold writeBody
  have hclassification : graph.settled.classification = graph.classification := rfl
  have hlighting : graph.settled.requiresLighting = graph.requiresLighting := rfl
  have hnodes : graph.settled.nodes = graph.nodes.map ShaderNode.settled := rfl
  simp only [hclassification, hlighting, hnodes, bindings_settled, writeStatements_settled,
    callFunctions_settled _ c h, returnStatements_settled]
  split
  · rfl
  · cases Shader.callFunctions c graph.nodes
      (writeStatements (bindings published vertex (graph.requiresLighting && gen.api.isLegacy)) s) with
    | error e => rfl
    | ok t => exact congrArg Except.ok (writeStatements_settled t _)

/-- The root function: its signature, and a body in a scope that is closed again. -/
theorem writeRoot_settled (c : Context) {graph : ShaderGraph} (h : ∀ n ∈ graph.nodes, n.PlainIndex)
    (name : Text) : gen.writeRoot c graph.settled name s.settled =
      (gen.writeRoot c graph name s).map Stage.settled := by
  unfold writeRoot
  cases readFormat c with
  | error e => rfl
  | ok format =>
    show (readPublic s.settled >>= _) = Except.map Stage.settled (readPublic s >>= _)
    rw [s.readPublic_settled]
    refine map_bind_eq fun published _ => ?_
    rw [s.readVertex_settled]
    refine map_bind_eq fun vertex _ => ?_
    have hopened : ((s.settled.setFunctionName name).line (returnType c.options.transparency ++ " " ++ name)
        false).beginScope .parenthesis = (((s.setFunctionName name).line
          (returnType c.options.transparency ++ " " ++ name) false).beginScope .parenthesis).settled := rfl
    simp only [hopened, ← List.map_append, arguments_settled, writeArguments_settled,
      Stage.unseen_settled.closeScope]
    refine map_bind_eq fun t _ => ?_
    have hbody := gen.writeBody_settled (t.beginScope .brace) c format h published vertex
    rw [show t.settled.beginScope .brace = (t.beginScope .brace).settled from rfl, hbody]
    exact map_bind_eq fun u _ => Stage.unseen_settled.closeScope u true

/-! ## The fragment -/

/-- Uniforms are declared with their literals, which do not change. -/
theorem writeUniforms_settled (format : FloatFormat) (ports : List Port) :
    writeUniforms format s.settled (ports.map Port.settled) = (writeUniforms format s ports).settled := by
  have hone : ∀ (s : Stage) (p : Port),
      writeUniform format s.settled p.settled = (writeUniform format s p).settled := by
    intro s p
    simp only [writeUniform, Port.declaration_settled]
    show Stage.line (if Sampler.texture p.ident = [] then _ else _) _ true = _
    split <;> rfl
  have hfold : ∀ (ports : List Port) (s : Stage),
      (ports.map Port.settled).foldl (writeUniform format) s.settled =
        (ports.foldl (writeUniform format) s).settled := by
    intro ports
    induction ports with
    | nil => intro s; rfl
    | cons p ports ih =>
      intro s
      rw [List.map_cons, List.foldl_cons, List.foldl_cons, hone]
      exact ih _
  rw [writeUniforms, writeUniforms, hfold]
  simp only [List.map_eq_nil_iff]
  split <;> rfl

theorem finish_settled (ts : TokenTable) : finish s.settled ts = (finish s ts).map Stage.settled := by
  rw [finish, finish, Stage.replaceTokens_settled]
  cases s.replaceTokens ts <;> rfl

theorem requireStage_settled (shader : Shader) (name : Text) :
    requireStage shader.settled name = (requireStage shader name).map Stage.settled := by
  rw [requireStage, requireStage, Shader.stage?_settled]
  cases shader.stage? name <;> rfl

/-- The pixel stage with the preamble in it. -/
theorem openPixel_settled (c : Context) (shader : Shader) :
    gen.openPixel c shader.settled = (gen.openPixel c shader).map Stage.settled := by
  rw [openPixel, openPixel, requireStage_settled]
  exact map_bind_eq fun ps _ => Stage.unseen_settled.writePreamble ps gen c

/-- The functions of the nodes, a name for the root function, and the root function. -/
theorem writeFunctions_settled (c : Context) {shader : Shader} (h : ∀ n ∈ shader.graph.nodes, n.PlainIndex) :
    gen.writeFunctions c shader.settled s.settled =
      (gen.writeFunctions c shader s).map fun r => (r.1.settled, r.2.settled) := by
  have hnodes : shader.settled.graph.nodes = shader.graph.nodes.map ShaderNode.settled := rfl
  unfold writeFunctions
  rw [hnodes, defineFunctions_settled]
  cases Shader.defineFunctions c shader.graph.nodes [] s with
  | error e => rfl
  | ok s =>
    show (gen.writeRoot c shader.graph.settled
      (shader.graph.identifiers.makeIdentifier shader.name).1 s.settled >>= _) = Except.map _ (_ >>= _)
    rw [writeRoot_settled gen s c h]
    exact map_bind_eq fun s _ => rfl

/-- Completing the shader: tokens are replaced, and the uniforms are written to a stage of their own. -/
theorem complete_settled (c : Context) (ts : TokenTable) (shader : Shader) :
    complete c ts shader.settled s.settled = (complete c ts shader s).map Shader.settled := by
  unfold complete
  rw [finish_settled]
  refine map_bind_eq fun s _ => ?_
  rw [requireStage_settled]
  refine map_bind_eq fun us _ => ?_
  cases readFormat c with
  | error e => rfl
  | ok format =>
    show (readPrivate s.settled >>= _) = Except.map Shader.settled (readPrivate s >>= _)
    rw [s.readPrivate_settled]
    refine map_bind_eq fun hidden _ => ?_
    rw [s.readPublic_settled]
    refine map_bind_eq fun published _ => ?_
    simp only [writeUniforms_settled, finish_settled]
    refine map_bind_eq fun us _ => ?_
    simp only [Shader.setStage_settled]
    rfl

end

/-- **A settled graph generates the settled shader**, or fails as the graph does. -/
theorem generate_settled {g : Graph} (hindex : g.PlainIndices) (name : Text) (c : Context) :
    gen.generate name (some g.settled) c =
      ((gen.generate name (some g) c).1.map Shader.settled, (gen.generate name (some g) c).2) := by
  rw [generate_eq, generate_eq, createShader_settled gen hindex]
  cases hcreate : gen.createShader name (some g) (some c) with
  | error e => rfl
  | ok shader =>
    have hplain := gen.plainIndex_createShader hindex hcreate
    simp only [Except.map, openPixel_settled]
    cases gen.openPixel ((({ c with tokens := some (gen.tokensIn c) } : Context)).withFormat .fixed) shader with
    | error e => rfl
    | ok ps =>
      simp only [gen.writeFunctions_settled ps _ hplain]
      refine Prod.ext ?_ rfl
      exact map_bind_eq fun r _ => complete_settled r.2 _ _ r.1

end FragmentGenerator

/-! ## Graphs that were decoded -/

namespace FragmentGenerator

/-- The texts of a fragment, or the error in their place. -/
def textsOf (outcome : Except ShaderError Shader) : Except ShaderError (Text × Text) :=
  outcome.map fun s => (s.sourceCode pixelStage, s.sourceCode uniformsStage)

/-- The texts of a settled shader are the texts of the shader. -/
theorem textsOf_settled (outcome : Except ShaderError Shader) :
    textsOf (outcome.map Shader.settled) = textsOf outcome := by
  cases outcome with
  | error e => rfl
  | ok s => simp only [textsOf, Except.map, Shader.sourceCode_settled]

/-- The root function of a shader, as it is known before any code is written. -/
def rootText (gen : FragmentGenerator) (o : Options) (s : Shader) : Text :=
  (gen.finalRoot o s.graph { (s.stage? pixelStage).getD (.empty pixelStage) with
    functionName := (s.graph.identifiers.makeIdentifier s.name).1 }).text

/-- The code of a fragment ends with its root function. -/
theorem exists_textsOf {gen : FragmentGenerator} {g : Graph} (h : g.Accepted gen.registry) (name : Text)
    {o : Options} (hmethod : o.specular ∈ litMethods) (samples : SampleSetting) :
    ∃ made front uniforms,
      gen.createShader name (some g) (some (gen.contextWith o samples)) = .ok made ∧
      textsOf (gen.generate name (some g) (gen.contextWith o samples)).1 =
        .ok (front ++ gen.rootText o made, uniforms) := by
  obtain ⟨graph, v, f, includes, hcreate, hs⟩ := exists_finalShader h name hmethod samples
  obtain ⟨_, _, _, ps, hfinished⟩ := finished_of_generate hs
  obtain rfl := Option.some.inj hfinished.pixel
  obtain ⟨front, hcode⟩ := hfinished.exists_front
  refine ⟨_, front, (gen.finalShader o name graph v f includes).sourceCode uniformsStage, hcreate, ?_⟩
  rw [hs]
  exact congrArg (fun code => Except.ok (code, _)) hcode

end FragmentGenerator

namespace Graph

open FragmentGenerator (textsOf standard)

/-- A decoded graph comes back settled. -/
theorem decode_encode_of_decode {bytes : Text} {g : Graph} (hsize : bytes.length < 2 ^ 64)
    (h : decode bytes = .ok g) : decode g.encode = .ok g.settled := by
  rw [decode] at h
  split at h
  · cases h
  · next g' hparse =>
    split at h
    · cases h
    · next hcheck =>
      cases h
      rw [decode, parse_encode (storable_of_parse hsize hparse)]
      simp only [check_settled, hcheck]

/-- **Bytes that are a graph are one again after decoding and encoding.**  What comes back generates the same
texts, or fails in the same way, unless a boolean with another number than zero is an index of texture
coordinates. -/
theorem decode_encode_generates {bytes : Text} {g : Graph} (hsize : bytes.length < 2 ^ 64)
    (h : decode bytes = .ok g) :
    ∃ g', decode g.encode = .ok g' ∧ (g.PlainIndices →
      ∀ (gen : FragmentGenerator) (name : Text) (c : Context),
        textsOf (gen.generate name (some g') c).1 = textsOf (gen.generate name (some g) c).1) := by
  refine ⟨g.settled, decode_encode_of_decode hsize h, fun hindex gen name c => ?_⟩
  rw [FragmentGenerator.generate_settled gen hindex]
  exact FragmentGenerator.textsOf_settled _

/-- The bytes of a graph with a boolean that holds a number, a NaN with a payload, a name in two chunks and a
list that is ended by a break. -/
def looseBytes : Text := [
    164, 100, 110, 97, 109, 101, 127, 97, 71, 97, 48, 255, 102, 105, 110, 112, 117, 116, 115, 159, 163, 100,
    110, 97, 109, 101, 98, 111, 110, 100, 116, 121, 112, 101, 1, 101, 118, 97, 108, 117, 101, 162, 97, 102,
    129, 249, 66, 0, 100, 116, 121, 112, 101, 1, 163, 100, 110, 97, 109, 101, 97, 119, 100, 116, 121, 112,
    101, 3, 101, 118, 97, 108, 117, 101, 162, 100, 116, 121, 112, 101, 3, 97, 102, 129, 250, 127, 192, 0,
    1, 255, 101, 110, 111, 100, 101, 115, 129, 164, 100, 110, 97, 109, 101, 97, 116, 99, 100, 101, 102, 115,
    78, 68, 95, 116, 101, 120, 99, 111, 111, 114, 100, 95, 118, 101, 99, 116, 111, 114, 50, 100, 116, 121,
    112, 101, 4, 102, 105, 110, 112, 117, 116, 115, 129, 163, 100, 110, 97, 109, 101, 101, 105, 110, 100, 101,
    120, 100, 116, 121, 112, 101, 2, 101, 118, 97, 108, 117, 101, 162, 100, 116, 121, 112, 101, 2, 97, 102,
    129, 249, 66, 0, 102, 111, 117, 116, 112, 117, 116, 163, 100, 110, 97, 109, 101, 99, 111, 117, 116, 100,
    116, 121, 112, 101, 4, 100, 110, 111, 100, 101, 97, 116]

/-- The graph of these bytes. -/
def looseGraph : Graph :=
  ⟨"G0", [⟨"on", .boolean, some ⟨.boolean, [⟨0x40400000⟩], [], false, fun h => absurd rfl h⟩⟩,
      ⟨"w", .float, some (.float ⟨0x7FC00001⟩)⟩],
    [⟨"t", "ND_texcoord_vector2", .vector2,
      [⟨"index", .integer, some (.ofNumbers .integer [⟨0x40400000⟩]), [], [], []⟩], []⟩],
    ⟨"out", .vector2, "t", [], [], none⟩⟩

theorem decode_encode_generates_loose : looseBytes.length < 2 ^ 64 ∧ decode looseBytes = .ok looseGraph ∧
    looseGraph.PlainIndices ∧ ∃ g', decode looseGraph.encode = .ok g' ∧
      ∀ (gen : FragmentGenerator) (name : Text) (c : Context),
        textsOf (gen.generate name (some g') c).1 = textsOf (gen.generate name (some looseGraph) c).1 := by
  have hsize : looseBytes.length < 2 ^ 64 := by decide +kernel
  have hdecode : decode looseBytes = .ok looseGraph := by decide +kernel
  have hindices : looseGraph.PlainIndices := by decide
  obtain ⟨g', hg', hsame⟩ := decode_encode_generates hsize hdecode
  exact ⟨hsize, hdecode, hindices, g', hg', hsame hindices⟩

/-- The bytes of a graph whose texture coordinates have their index from a boolean with the number three. -/
def hiddenIndexBytes : Text := [
    163, 100, 110, 97, 109, 101, 97, 71, 101, 110, 111, 100, 101, 115, 129, 164, 100, 110, 97, 109, 101, 97,
    116, 99, 100, 101, 102, 115, 78, 68, 95, 116, 101, 120, 99, 111, 111, 114, 100, 95, 118, 101, 99, 116,
    111, 114, 50, 100, 116, 121, 112, 101, 4, 102, 105, 110, 112, 117, 116, 115, 129, 163, 100, 110, 97, 109,
    101, 101, 105, 110, 100, 101, 120, 100, 116, 121, 112, 101, 1, 101, 118, 97, 108, 117, 101, 162, 100, 116,
    121, 112, 101, 1, 97, 102, 129, 249, 66, 0, 102, 111, 117, 116, 112, 117, 116, 163, 100, 110, 97, 109,
    101, 99, 111, 117, 116, 100, 116, 121, 112, 101, 4, 100, 110, 111, 100, 101, 97, 116]

/-- The graph of these bytes. -/
def hiddenIndexGraph : Graph :=
  ⟨"G", [], [⟨"t", "ND_texcoord_vector2", .vector2,
      [⟨"index", .boolean, some ⟨.boolean, [⟨0x40400000⟩], [], false, fun h => absurd rfl h⟩, [], [], []⟩], []⟩],
    ⟨"out", .vector2, "t", [], [], none⟩⟩

/-- A boolean forgets the number behind it when it is written, and so the texture coordinates change. -/
theorem texture_coordinates_forgotten : ∃ g', decode hiddenIndexBytes = .ok hiddenIndexGraph ∧
    decode hiddenIndexGraph.encode = .ok g' ∧
    textsOf (standard.generate "S" (some g') (standard.context .standard)).1 ≠
      textsOf (standard.generate "S" (some hiddenIndexGraph) (standard.context .standard)).1 := by
  have hdecode : decode hiddenIndexBytes = .ok hiddenIndexGraph := by decide +kernel
  refine ⟨hiddenIndexGraph.settled, hdecode, decode_encode_of_decode (by decide +kernel) hdecode, ?_⟩
  have hsettled : hiddenIndexGraph.settled.Accepted standard.registry :=
    ⟨by decide, by decide, fun _ => ⟨⟨"out", .vector2⟩, by decide, rfl⟩⟩
  have hgraph : hiddenIndexGraph.Accepted standard.registry :=
    ⟨by decide, by decide, fun _ => ⟨⟨"out", .vector2⟩, by decide, rfl⟩⟩
  obtain ⟨made', front', uniforms', hmade', htexts'⟩ :=
    FragmentGenerator.exists_textsOf hsettled "S" (o := .standard) (by decide) .absent
  obtain ⟨made, front, uniforms, hmade, htexts⟩ :=
    FragmentGenerator.exists_textsOf hgraph "S" (o := .standard) (by decide) .absent
  -- The root functions have one length and differ, whatever stands in front of them.
  have hroots : (standard.createShader "S" (some hiddenIndexGraph.settled)
        (some (standard.contextWith .standard .absent))).toOption.all (fun a =>
      (standard.createShader "S" (some hiddenIndexGraph)
        (some (standard.contextWith .standard .absent))).toOption.all fun b =>
          decide ((standard.rootText .standard a).length = (standard.rootText .standard b).length ∧
            standard.rootText .standard a ≠ standard.rootText .standard b)) = true := by decide +kernel
  rw [hmade', hmade] at hroots
  obtain ⟨hlength, hne⟩ := of_decide_eq_true hroots
  intro heq
  have heq := htexts'.symm.trans (Eq.trans heq htexts)
  simp only [Except.ok.injEq, Prod.mk.injEq] at heq
  exact hne (List.append_inj_right' heq.1 hlength)

end Graph

end ShadeGraph
