/-
  What becomes of a graph, from the check to the finished text.

  1. The names that get into code are sound (`Inventory.Clean`): the naming of ports makes words of letters,
     digits and underscores, and the host's own names are tokens.
  2. Everything in front of the root function only grows the pixel stage by tidy code (`Stage.Grown`).  Each
     piece of the preamble does, and so do the functions of the nodes, which all find their files.
  3. Only the choice of the lighting code can fail (`writePreamble_error`), and it does so exactly for a
     specular method without code.
  4. Tokens are replaced once in each stage.  A shader that is `Finished` has the root function of its graph
     at the end of its pixel stage, and the declarations of its uniforms in the other stage.
-/
import ShadeGraph.Proofs.Creation
import ShadeGraph.Proofs.RootFunction
import ShadeGraph.Proofs.Spelling

namespace ShadeGraph

/-! ## Sound names -/

/-- The tokens that the generator itself writes into the pixel stage. -/
def Token.spoken : List Text := [vertexData, texcoord, time, frame] ++ Inventory.geometricTokens

theorem Token.spoken_subset : spoken ⊆ standard.tokens := by decide

/-- The identifiers of an inventory are sober.  Those that the generator chooses are even calm, and those of
the host's uniforms are tokens. -/
structure Inventory.Clean (v : Inventory) : Prop where
  constants : ∀ p ∈ v.constants, p.ident.Calm
  hidden : ∀ p ∈ v.hidden, p.ident ∈ Token.standard.tokens
  published : ∀ p ∈ v.published, p.ident.Calm
  vertex : ∀ p ∈ v.vertex, p.ident.Sober Token.spoken

/-- The variable of a port is a word, and words have neither marks nor brackets. -/
theorem Naming.VariableOf.calm {name ident : Text} {t : DataType} (h : VariableOf name t ident) :
    ident.Calm :=
  Text.calm_of_isWordByte fun _ => h.isWordByte

/-- So are the identifiers of all ports on the ledger. -/
theorem Ledger.calm {start ids : IdentifierMap} {ports : List Port} (h : Ledger start ids ports)
    {p : Port} (hp : p ∈ ports) : p.ident.Calm := by
  obtain ⟨name, hname, _⟩ := h.spelled p hp
  exact hname.calm

/-- The name of vertex data is a token, with a number behind it for texture coordinates. -/
theorem Inventory.VertexToken.sober {token : Text} (h : VertexToken token) : token.Sober Token.spoken := by
  rcases h with h | ⟨i, rfl⟩
  · have hgeometric : ∀ token ∈ geometricTokens, token.Sober Token.spoken := by decide
    exact hgeometric token h
  · have htexcoord : Text.Sober Token.spoken (Token.texcoord ++ "_") := by decide
    exact htexcoord.append (Text.calm_ofInt i).sober

/-- The names of a shader that was made from a graph are sober. -/
theorem Shader.Created.clean {registry : Registry} {start : IdentifierMap} {g : Graph}
    {graph : ShaderGraph} {v : Inventory} (h : Created registry start g graph v) : v.Clean where
  constants p hp := h.accounted.calm (List.mem_append_left _ (List.mem_append_left _ hp))
  published p hp := h.accounted.calm (List.mem_append_left _ (List.mem_append_right _ hp))
  hidden p hp := by
    obtain ⟨hname, hident, _⟩ := h.hosted.hidden p hp
    exact hident ▸ hname
  vertex p hp := by
    obtain ⟨hname, hident, _⟩ := h.hosted.vertex p hp
    exact hident ▸ hname.sober

namespace Inventory.Clean

variable {v : Inventory} {ports : List Port}

/-- More uniforms of the host keep an inventory clean if tokens name them. -/
theorem withHidden (h : v.Clean) (hports : ∀ p ∈ ports, p.ident ∈ Token.standard.tokens) :
    (v.withHidden ports).Clean :=
  ⟨h.constants, Port.forall_foldl_addTo h.hidden hports, h.published, h.vertex⟩

/-- More published ports keep an inventory clean if their identifiers are calm. -/
theorem withPublished (h : v.Clean) (hports : ∀ p ∈ ports, p.ident.Calm) : (v.withPublished ports).Clean :=
  ⟨h.constants, h.hidden, Port.forall_foldl_addTo h.published hports, h.vertex⟩

end Inventory.Clean

/-- The stage that an inventory describes has all blocks. -/
theorem Inventory.equipped_pixel (v : Inventory) : v.pixel.Equipped := ⟨rfl, rfl, rfl⟩

/-- What light adds is sound. -/
theorem FragmentGenerator.clean_lit (g : FragmentGenerator) (o : Options) (graph : ShaderGraph)
    {v : Inventory} (h : v.Clean) : (g.lit o graph v).Clean := by
  have henvironment : (Shader.withEnvironment o graph v).Clean := by
    rw [Shader.withEnvironment]
    split
    · refine h.withHidden ?_
      rw [Shader.lightingUniforms]
      split <;> decide
    · exact h
  rw [lit]
  split
  · exact henvironment.withPublished (by decide)
  · exact henvironment

/-- Light asks nothing more of the vertices. -/
theorem FragmentGenerator.lit_vertex (g : FragmentGenerator) (o : Options) (graph : ShaderGraph)
    (v : Inventory) : (g.lit o graph v).vertex = v.vertex := by
  rw [lit, Shader.withEnvironment]
  split <;> split <;> rfl

/-- Light adds no constants. -/
theorem FragmentGenerator.lit_constants (g : FragmentGenerator) (o : Options) (graph : ShaderGraph)
    (v : Inventory) : (g.lit o graph v).constants = v.constants := by
  rw [lit, Shader.withEnvironment]
  split <;> split <;> rfl

/-! ## Growing a stage -/

namespace Stage

/-- `t` is `s` with tidy code written and include paths noted, and nothing else is changed. -/
def Grown (s t : Stage) : Prop :=
  ∃ (written : Text) (includes : List Text), written.tidy = true ∧
    t = { s with code := s.code ++ written, includes := includes }

variable {s t u : Stage}

/-- Writing tidy code grows a stage. -/
theorem grown_write {written : Text} (h : written.tidy = true) (s : Stage) : Grown s (s.write written) :=
  ⟨written, s.includes, h, rfl⟩

theorem Grown.refl (s : Stage) : Grown s s := ⟨[], s.includes, rfl, by rw [List.append_nil]⟩

/-- Growing twice is growing: tidy code behind tidy code is tidy. -/
theorem Grown.trans (hst : Grown s t) (htu : Grown t u) : Grown s u := by
  obtain ⟨first, includes, hfirst, rfl⟩ := hst
  obtain ⟨second, includes', hsecond, rfl⟩ := htu
  exact ⟨first ++ second, includes', Text.tidy_append hfirst hsecond, by simp only [List.append_assoc]⟩

/-- No scope is opened by growing. -/
theorem Grown.closed (h : Grown s t) (hs : s.Closed) : t.Closed := by
  obtain ⟨_, _, _, rfl⟩ := h
  exact ⟨hs.depth, hs.scopes⟩

theorem Grown.constants (h : Grown s t) : t.constants = s.constants := by
  obtain ⟨_, _, _, rfl⟩ := h
  rfl

theorem grown_newline (s : Stage) : Grown s s.newline := grown_write (by decide) s

/-- An expansion of the built-in library is tidy. -/
theorem Expanded.grown (h : Expanded SearchPath.standard.codeLines s t) : Grown s t := by
  obtain ⟨lines, includes, hlines, rfl⟩ := h
  refine ⟨_, includes, Text.tidy_flatMap fun line hline => ?_, rfl⟩
  exact Text.tidy_append (SearchPath.tidy_codeLines line (hlines line hline)) (by decide)

/-- The declarations of ports, each on a line with its indentation. -/
def declarationLines (indent qualifier : Text) (assign : Bool) (ports : List Port) : Text :=
  ports.flatMap fun p =>
    indent ++ p.declaration .fragment .fixed qualifier assign ++ ";" ++ lineEnd false

/-- Declaring ports one after the other writes one text.  The indentation does not change on the way. -/
theorem declareAll_eq (qualifier : Text) (assign : Bool) (ports : List Port) : ∀ s : Stage,
    s.declareAll .fragment .fixed ports qualifier ";" assign =
      s.write (declarationLines s.indent qualifier assign ports) := by
  induction ports with
  | nil => intro s; exact (write_nil s).symm
  | cons p ports ih =>
    intro s
    show Stage.declareAll (((s.beginLine.write _).write ";").endLine false) .fragment .fixed ports
      qualifier ";" assign = _
    rw [ih, beginLine, endLine, write_write, write_write, write_write, write_write]
    simp only [write_indent, declarationLines, List.flatMap_cons, List.append_assoc]

/-- Declarations of ports with sober identifiers are sober. -/
theorem sober_declarationLines {words : List Text} {indent qualifier : Text} (hindent : indent.Calm)
    (hqualifier : qualifier.Calm) (assign : Bool) {ports : List Port}
    (h : ∀ p ∈ ports, p.ident.Sober words) :
    (declarationLines indent qualifier assign ports).Sober words := by
  have hsemicolon : Text.Calm ";" := by decide
  have hend : (lineEnd false).Calm := by decide
  refine Text.Sober.flatMap fun p hp => ?_
  have hdeclaration := Port.sober_declaration (h p hp) hqualifier assign
  exact ((hindent.sober.append hdeclaration).append hsemicolon.sober).append hend.sober

end Stage

/-! ## The preamble -/

namespace FragmentGenerator

/-- The structure for vertex data; nothing without vertex data. -/
def vertexStructure (ports : List Port) : Text :=
  if ports = [] then []
  else "struct\n\x7b\n" ++ Stage.declarationLines Stage.indentation [] false ports ++ "\x7d $vd;\n\n"

/-- The structure is written with its scope opened and closed again, and comes to one text. -/
theorem writeVertexData_eq (ports : List Port) {s : Stage} (hclosed : s.Closed) :
    writeVertexData .fragment .fixed ports s = .ok (s.write (vertexStructure ports)) := by
  rw [writeVertexData, vertexStructure]
  split
  · rw [Stage.write_nil]
  · have hdeclare : ∀ t : Text, ((s.write t).inside .brace).declareAll .fragment .fixed ports [] ";" false =
        (s.write (t ++ Stage.declarationLines Stage.indentation [] false ports)).inside .brace := by
      intro t
      rw [Stage.declareAll_eq, ← Stage.write_write]
      rfl
    rw [hclosed.line, Stage.beginScope_write hclosed]
    simp only [hdeclare, Stage.closeScope_inside hclosed, bind, Except.bind, pure, Except.pure,
      Stage.endLine, Stage.newline, Stage.write_write, List.append_assoc]
    rfl

/-- The braces around the declarations are a pair, and the name behind them is a token that is spoken. -/
theorem sober_vertexStructure {ports : List Port} (h : ∀ p ∈ ports, p.ident.Sober Token.spoken) :
    (vertexStructure ports).Sober Token.spoken := by
  have hindentation : Stage.indentation.Calm := by decide
  have hinstance : Text.Sober Token.spoken " $vd;\n\n" := by decide
  rw [vertexStructure]
  split
  · exact Text.Sober.nil
  · have hlines : (Stage.declarationLines Stage.indentation [] false ports).Sober Token.spoken :=
      Stage.sober_declarationLines hindentation (by decide) false h
    have hbraces := hlines.enclose "struct\n\x7b\n" "\x7d" (by decide) (by decide) (by decide)
    have hall := hbraces.append hinstance
    rwa [List.append_assoc] at hall

/-- A definition of a number, and an empty line. -/
def definitionText (name : Text) (n : Int64) : Text :=
  "#define " ++ name ++ " " ++ Text.ofInt n.toInt ++ "\n\n"

/-- A definition is a line and an empty one. -/
theorem writeDefine_eq (name : Text) (n : Int64) {s : Stage} (hclosed : s.Closed) :
    writeDefine name n s = s.write (definitionText name n) := by
  rw [writeDefine, hclosed.line, Stage.newline, Stage.write_write, definitionText]
  simp only [List.append_assoc]
  rfl

/-- The number sign of a definition starts a directive. -/
theorem sound_definitionText {words : List Text} {name : Text} (hname : name.Calm) (n : Int64) :
    (definitionText name n).Sound words := by
  have hdefine : Text.Sound words "#define " := ⟨rfl, by decide, by decide⟩
  have hspace : Text.Calm " " := by decide
  have hlines : Text.Calm "\n\n" := by decide
  exact (((hdefine.append hname.sound).append hspace.sound).append (Text.calm_ofInt _).sound).append
    hlines.sound

/-- So writing a definition grows the stage. -/
theorem writeDefine_grown (name : Text) (hname : name.Calm) (n : Int64) {s : Stage}
    (hclosed : s.Closed) : Stage.Grown s (writeDefine name n s) := by
  rw [writeDefine_eq name n hclosed]
  exact Stage.grown_write ((sound_definitionText hname n).tidy Token.spoken_subset) s

theorem sound_typeDefinitions : Stage.typeDefinitions.Sound Token.spoken := by decide +kernel

/-- The definitions of types are tidy too. -/
theorem defineTypes_grown (s : Stage) : Stage.Grown s s.defineTypes :=
  (Stage.grown_write (sound_typeDefinitions.tidy Token.spoken_subset) s).trans (Stage.grown_newline _)

/-- The declarations of constants, and an empty line; nothing without constants. -/
def constantLines (ports : List Port) : Text :=
  if ports = [] then [] else Stage.declarationLines [] Glsl.constantQualifier true ports ++ [10]

/-- Constants are declared on lines of their own, which are indented by nothing. -/
theorem writeConstants_eq {s : Stage} (hclosed : s.Closed) :
    writeConstants .fragment .fixed s = s.write (constantLines s.constants.ports) := by
  have hindent : s.indent = [] := hclosed.indent
  rw [writeConstants, constantLines]
  split
  · exact (Stage.write_nil s).symm
  · rw [Stage.declareAll_eq, hindent, Stage.newline, Stage.write_write]

theorem sober_constantLines {words : List Text} {ports : List Port} (h : ∀ p ∈ ports, p.ident.Calm) :
    (constantLines ports).Sober words := by
  have hline : Text.Calm [10] := by decide
  rw [constantLines]
  split
  · exact Text.Sober.nil
  · exact (Stage.sober_declarationLines (by decide) (by decide) true fun p hp => (h p hp).sober).append
      hline.sober

/-- Constants have calm identifiers, so declaring them grows the stage. -/
theorem writeConstants_grown {s : Stage} (hclosed : s.Closed)
    (hconstants : ∀ p ∈ s.constants.ports, p.ident.Calm) :
    Stage.Grown s (writeConstants .fragment .fixed s) := by
  rw [writeConstants_eq hclosed]
  exact Stage.grown_write ((sober_constantLines hconstants).sound.tidy Token.spoken_subset) s

/-- The context in which code is written, with a table of tokens. -/
def writingContext (g : FragmentGenerator) (o : Options) (samples : SampleSetting) (ts : TokenTable) :
    Context :=
  { g.contextWith o samples with dialect := some ⟨.fragment, .fixed⟩, tokens := some ts }

/-- The specular methods that there is lighting code for. -/
def litMethods : List SpecularMethod := [.off, .sampled, .prefiltered]

section

variable (g : FragmentGenerator) (o : Options) (samples : SampleSetting)

/-- **A file that the generator includes by itself is found**, and what it expands to grows the stage. -/
theorem includeCode_grown {path : Text} (hpath : path ∈ sharedPaths) (s : Stage) :
    ∃ t, includeCode (g.writingContext o samples g.tokens) path s = .ok t ∧ Stage.Grown s t := by
  have hexpandable := g.expandable_shared hpath
  obtain ⟨t, ht, hexpanded⟩ := Context.expandInclude_succeeds
    (c := g.writingContext o samples g.tokens) rfl rfl rfl hexpandable s
  exact ⟨t, by rw [includeCode, ht], hexpanded.grown⟩

/-- **For every method there is code for, the lighting code is written.**  The method decides on the file, and
the sampled one needs two definitions in front of it. -/
theorem writeLighting_grown (hmethod : o.specular ∈ litMethods) {s : Stage} (hclosed : s.Closed) :
    ∃ t, g.writeLighting (g.writingContext o samples g.tokens) s = .ok t ∧ Stage.Grown s t := by
  have hoptions : (g.writingContext o samples g.tokens).options = o := rfl
  simp only [writeLighting, hoptions]
  rcases (by simpa [litMethods] using hmethod :
    o.specular = .off ∨ o.specular = .sampled ∨ o.specular = .prefiltered) with hoff | hsampled | hpre
  · rw [if_neg (by rw [hoff]; decide), if_neg (by rw [hoff]; decide), if_pos hoff]
    exact g.includeCode_grown o samples (by decide) s
  · rw [if_pos hsampled]
    have hfirst := writeDefine_grown "DIRECTIONAL_ALBEDO_METHOD" (by decide) o.albedo.code hclosed
    have hsecond := writeDefine_grown "MX_NUM_FIS_SAMPLES" (by decide)
      (samples.count?.getD defaultSamples) (hfirst.closed hclosed)
    have hpath : Path.lightingSampled ∈ sharedPaths := by decide
    obtain ⟨t, ht, hgrown⟩ := g.includeCode_grown o samples hpath
      (writeDefine "MX_NUM_FIS_SAMPLES" (samples.count?.getD defaultSamples)
        (writeDefine "DIRECTIONAL_ALBEDO_METHOD" o.albedo.code s))
    exact ⟨t, ht, (hfirst.trans hsecond).trans hgrown⟩
  · rw [if_neg (by rw [hpre]; decide), if_pos hpre]
    split
    · exact g.includeCode_grown o samples (by decide) s
    · exact g.includeCode_grown o samples (by decide) s

/-- Other methods are an error that names the method, whatever was written so far. -/
theorem writeLighting_error (hmethod : o.specular ∉ litMethods) (s : Stage) :
    g.writeLighting (g.writingContext o samples g.tokens) s =
      .error (.specularMethod o.specular.code) := by
  obtain ⟨hoff, hsampled, hpre⟩ : o.specular ≠ .off ∧ o.specular ≠ .sampled ∧
      o.specular ≠ .prefiltered := by simpa [litMethods] using hmethod
  have hoptions : (g.writingContext o samples g.tokens).options = o := rfl
  simp only [writeLighting, hoptions, if_neg hoff, if_neg hsampled, if_neg hpre]

/-- Everything in front of the lighting code. -/
theorem writePreamble_start {s : Stage} (hclosed : s.Closed) (hequipped : s.Equipped)
    (hvertex : ∀ p ∈ vertexPorts s, p.ident.Sober Token.spoken)
    (hconstants : ∀ p ∈ s.constants.ports, p.ident.Calm) :
    ∃ t, Stage.Grown s t ∧ g.writePreamble (g.writingContext o samples g.tokens) s =
      (g.writeLighting (g.writingContext o samples g.tokens) t).map Stage.newline := by
  have hstructure := Stage.grown_write ((sober_vertexStructure hvertex).sound.tidy Token.spoken_subset) s
  have hlights := hstructure.trans (writeDefine_grown "MAX_LIGHT_SOURCES" (by decide)
    o.activeLights.toInt64 (hstructure.closed hclosed))
  have htypes := hlights.trans (defineTypes_grown _)
  have hdone := htypes.trans (writeConstants_grown (htypes.closed hclosed)
    (by rw [htypes.constants]; exact hconstants))
  have hpath : Path.mathematics ∈ sharedPaths := by decide
  obtain ⟨t, ht, hincluded⟩ := g.includeCode_grown o samples hpath
    (writeConstants .fragment .fixed (writeDefine "MAX_LIGHT_SOURCES" o.activeLights.toInt64
      (s.write (vertexStructure (vertexPorts s)))).defineTypes)
  refine ⟨t.newline, (hdone.trans hincluded).trans (Stage.grown_newline t), ?_⟩
  have hsteps : g.writePreamble (g.writingContext o samples g.tokens) s =
      (readVertex s).bind fun ports => (writeVertexData .fragment .fixed ports s).bind fun s =>
        (includeCode (g.writingContext o samples g.tokens) Path.mathematics
          (writeConstants .fragment .fixed
            (writeDefine "MAX_LIGHT_SOURCES" o.activeLights.toInt64 s).defineTypes)).bind fun s =>
        (g.writeLighting (g.writingContext o samples g.tokens) s.newline).bind fun s =>
          .ok s.newline := rfl
  rw [hsteps, readVertex_eq hequipped, Except.bind, writeVertexData_eq _ hclosed, Except.bind, ht, Except.bind]
  cases g.writeLighting (g.writingContext o samples g.tokens) t.newline <;> rfl

/-- The preamble is written if there is lighting code for the method. -/
theorem writePreamble_grown (hmethod : o.specular ∈ litMethods) {s : Stage} (hclosed : s.Closed)
    (hequipped : s.Equipped) (hvertex : ∀ p ∈ vertexPorts s, p.ident.Sober Token.spoken)
    (hconstants : ∀ p ∈ s.constants.ports, p.ident.Calm) :
    ∃ t, Stage.Grown s t ∧
      g.writePreamble (g.writingContext o samples g.tokens) s = .ok t.newline := by
  obtain ⟨t, ht, hstart⟩ := g.writePreamble_start o samples hclosed hequipped hvertex hconstants
  obtain ⟨u, hu, hgrown⟩ := g.writeLighting_grown o samples hmethod (ht.closed hclosed)
  exact ⟨u, ht.trans hgrown, by rw [hstart, hu]; rfl⟩

/-- The preamble fails for the method and for no other reason: everything in front of the lighting code can be
written. -/
theorem writePreamble_error (hmethod : o.specular ∉ litMethods) {s : Stage} (hclosed : s.Closed)
    (hequipped : s.Equipped) (hvertex : ∀ p ∈ vertexPorts s, p.ident.Sober Token.spoken)
    (hconstants : ∀ p ∈ s.constants.ports, p.ident.Calm) :
    g.writePreamble (g.writingContext o samples g.tokens) s =
      .error (.specularMethod o.specular.code) := by
  obtain ⟨t, _, hstart⟩ := g.writePreamble_start o samples hclosed hequipped hvertex hconstants
  rw [hstart, g.writeLighting_error o samples hmethod]
  rfl

/-! ## The functions of the nodes -/

/-- The function of a known node: its file is in the library, or it needs none. -/
theorem emitDefinition_grown {n : ShaderNode} (hn : n.implementation ∈ Implementation.known)
    (s : Stage) : ∃ t, Stage.Grown s t ∧
      n.emitDefinition (g.writingContext o samples (g.finalTokens o)) s.newline = .ok t.newline := by
  rw [ShaderNode.emitDefinition]
  cases hpath : n.implementation.sourcePath? with
  | none => exact ⟨s, Stage.Grown.refl s, rfl⟩
  | some path =>
    have hexpandable := g.expandable_sourcePath o hn hpath
    obtain ⟨t, ht, hexpanded⟩ := Context.expandInclude_succeeds
      (c := g.writingContext o samples (g.finalTokens o)) rfl rfl rfl hexpandable s.newline
    refine ⟨t, (Stage.grown_newline s).trans hexpanded.grown, ?_⟩
    simp only [ht]
    rfl

/-- Defining the functions of known nodes grows the stage. -/
theorem defineFunctions_grown : ∀ (nodes : List ShaderNode),
    (∀ n ∈ nodes, n.implementation ∈ Implementation.known) → ∀ (defined : List Text) (s : Stage),
    ∃ t, Stage.Grown s t ∧ Shader.defineFunctions (g.writingContext o samples (g.finalTokens o)) nodes
      defined s.newline = .ok t.newline := by
  intro nodes
  induction nodes with
  | nil => intro _ defined s; exact ⟨s, Stage.Grown.refl s, rfl⟩
  | cons n rest ih =>
    intro hknown defined s
    have hrest := ih fun m hm => hknown m (List.mem_cons_of_mem n hm)
    rw [Shader.defineFunctions]
    split
    · exact hrest defined s
    · obtain ⟨t, ht, hdefine⟩ := g.emitDefinition_grown o samples (hknown n List.mem_cons_self) s
      obtain ⟨u, hu, hothers⟩ := hrest (n.implementation.name :: defined) t
      exact ⟨u, ht.trans hu, by simp only [hdefine]; exact hothers⟩

/-- The call of a known node can be written, because its file defines a function. -/
theorem callable_of_known {n : ShaderNode} (hn : n.implementation ∈ Implementation.known)
    (houtputs : n.outputs ≠ []) : n.Callable (g.writingContext o samples (g.finalTokens o)) := by
  refine ⟨houtputs, fun path hpath => ?_⟩
  obtain ⟨source, hread, hname⟩ := Implementation.read_sourcePath hn hpath
  have hresolve : (g.writingContext o samples (g.finalTokens o)).resolve path = path :=
    (g.finalTokens_hosted o).replace_of_quiet (Implementation.quiet_sourcePath hn hpath)
  have hincluder : (g.writingContext o samples (g.finalTokens o)).includer = some .standard := rfl
  simp only [ShaderNode.functionName, hincluder, hresolve, hread, hname]

end

/-! ## Uniforms -/

/-- The declaration of a uniform, behind the name of its texture if it is a sampler. -/
def uniformLine (p : Port) : Text :=
  (if Sampler.texture p.ident = [] then [] else Glsl.define p.ident (Sampler.texture p.ident)) ++
    p.declaration .fragment .fixed Glsl.uniformQualifier true ++ Stage.lineEnd true

/-- The declarations of uniforms; nothing without uniforms. -/
def uniformLines (ports : List Port) : Text :=
  if ports = [] then [] else ports.flatMap uniformLine ++ [10]

/-- One uniform: a texture is named on a line of its own, in front of its sampler. -/
theorem writeUniform_eq {s : Stage} (hclosed : s.Closed) (p : Port) :
    writeUniform .fixed s p = s.write (uniformLine p) := by
  have hindent : s.indent = [] := hclosed.indent
  rw [writeUniform, uniformLine]
  split
  · rw [hclosed.line]
    rfl
  · rw [Stage.beginLine, Stage.line_eq, hindent, Stage.write_nil, Stage.write_indent, hindent,
      Stage.write_write, List.nil_append, List.append_assoc]

/-- All uniforms, by what is written for one of them. -/
theorem writeUniforms_eq (ports : List Port) {s : Stage} (hclosed : s.Closed) :
    writeUniforms .fixed s ports = s.write (uniformLines ports) := by
  have hfold : ∀ (ports : List Port) (s : Stage), s.Closed →
      ports.foldl (writeUniform .fixed) s = s.write (ports.flatMap uniformLine) := by
    intro ports
    induction ports with
    | nil => intro s _; exact (Stage.write_nil s).symm
    | cons p ports ih =>
      intro s hs
      have hnext : (s.write (uniformLine p)).Closed := hs.write _
      rw [List.foldl_cons, writeUniform_eq hs, ih _ hnext, Stage.write_write, List.flatMap_cons]
  rw [writeUniforms, uniformLines]
  split
  · exact (Stage.write_nil s).symm
  · rw [hfold ports s hclosed, Stage.newline, Stage.write_write]

/-! ## The finished shader -/

/-- Tokens that have not been replaced yet are replaced, also where there are none. -/
theorem finish_eq (g : FragmentGenerator) (o : Options) {s : Stage} (h : s.replaced = false) :
    finish s (g.finalTokens o) =
      .ok { s with replaced := true, code := (g.finalTokens o).replace s.code } := by
  have hentries : (g.finalTokens o).entries.isEmpty = false :=
    forall_finalTokens (P := fun ts => ts.entries.isEmpty = false) (by decide)
      (by decide) g o
  rw [finish, Stage.replaceTokens, h, hentries]
  cases hmark : s.holdsToken with
  | true => rfl
  | false =>
    have hnone : Library.tokenMark ∉ s.code := by
      intro hmem
      have hholds : s.holdsToken = true := List.contains_iff_mem.mpr hmem
      rw [hmark] at hholds
      cases hholds
    have hkept : (g.finalTokens o).replace s.code = s.code :=
      TokenTable.substitute_of_not_mem (g.finalTokens_hosted o).mark hnone
    rw [hkept]
    rfl

/-- The pixel stage behind the root function, with `front` in front of it, before tokens are replaced. -/
def rootedPixel (g : FragmentGenerator) (o : Options) (graph : ShaderGraph) (v : Inventory)
    (name front : Text) (includes : List Text) : Stage :=
  { v.pixel with
    code := front ++ 10 :: (g.root o.transparency graph name v.pixel).text
    functionName := name, includes := includes }

/-- The pixel stage with all code, of which `front` stands in front of the root function. -/
def finalPixel (g : FragmentGenerator) (o : Options) (graph : ShaderGraph) (v : Inventory)
    (name front : Text) (includes : List Text) : Stage :=
  { v.pixel with
    code := (g.finalTokens o).replace
      (front ++ 10 :: (g.root o.transparency graph name v.pixel).text)
    functionName := name, includes := includes, replaced := true }

/-- The stage with the declarations of all uniforms. -/
def finalUniforms (g : FragmentGenerator) (o : Options) (v : Inventory) : Stage :=
  { Stage.empty uniformsStage with
    code := (g.finalTokens o).replace (uniformLines v.hidden ++ uniformLines v.published)
    replaced := true }

/-- The shader with all code. -/
def finalShader (g : FragmentGenerator) (o : Options) (name : Text) (graph : ShaderGraph) (v : Inventory)
    (front : Text) (includes : List Text) : Shader :=
  ⟨name, { graph with identifiers := ((g.lit o graph v).identifiers.makeIdentifier name).2 },
    [g.finalPixel o graph (g.lit o graph v)
        ((g.lit o graph v).identifiers.makeIdentifier name).1 front includes,
      g.finalUniforms o (g.lit o graph v)]⟩

section

variable (g : FragmentGenerator) (o : Options) (samples : SampleSetting)

/-- Both stages of a shader without code are put back by their names. -/
theorem setStages_blank (name : Text) (graph : ShaderGraph) (v : Inventory) {ps us : Stage}
    (hps : ps.name = pixelStage) (hus : us.name = uniformsStage) :
    ((g.blank o name graph v).setStage ps).setStage us =
      { g.blank o name graph v with stages := [ps, us] } := by
  have hpixel : (g.lit o graph v).pixel.name = ps.name := hps.symm
  have hother : ps.name ≠ us.name := by rw [hps, hus]; decide
  have huniforms : (Stage.empty uniformsStage).name = us.name := hus.symm
  rw [Shader.setStage, Shader.setStage, blank]
  simp only [Shader.replaceStage, if_pos hpixel, if_neg hother, if_pos huniforms]

/-- The preamble and the functions of the nodes are the code `front`, and include the files `includes`. -/
def Fronts (graph : ShaderGraph) (v : Inventory) (front : Text) (includes : List Text) : Prop :=
  ∃ s, g.writePreamble (g.writingContext o samples g.tokens) (g.lit o graph v).pixel = .ok s ∧
    Shader.defineFunctions (g.writingContext o samples (g.finalTokens o)) graph.nodes [] s =
      .ok ({ (g.lit o graph v).pixel with code := front, includes := includes } : Stage).newline

/-- The shader whose root function has its name. -/
def namedShader (name : Text) (graph : ShaderGraph) (v : Inventory) : Shader :=
  (g.blank o name graph v).setIdentifiers ((g.lit o graph v).identifiers.makeIdentifier name).2

/-- Behind the functions of the nodes the root function is written. -/
theorem writeFunctions_eq (name : Text) {graph : ShaderGraph} (v : Inventory)
    (hknown : ∀ n ∈ graph.nodes, n.implementation ∈ Implementation.known)
    (houtputs : ∀ n ∈ graph.nodes, n.outputs ≠ []) {s : Stage} {front : Text} {includes : List Text}
    (hfunctions : Shader.defineFunctions (g.writingContext o samples (g.finalTokens o)) graph.nodes [] s =
      .ok ({ (g.lit o graph v).pixel with code := front, includes := includes } : Stage).newline) :
    g.writeFunctions (g.writingContext o samples (g.finalTokens o)) (g.blank o name graph v) s =
      .ok (g.namedShader o name graph v, g.rootedPixel o graph (g.lit o graph v)
        ((g.lit o graph v).identifiers.makeIdentifier name).1 front includes) := by
  have hcallable := fun n hn => g.callable_of_known o samples (hknown n hn) (houtputs n hn)
  have hgraph : (g.blank o name graph v).graph =
      { graph with identifiers := (g.lit o graph v).identifiers } := rfl
  have hroot : g.writeRoot (g.writingContext o samples (g.finalTokens o))
      { graph with identifiers := (g.lit o graph v).identifiers }
      ((g.lit o graph v).identifiers.makeIdentifier name).1
      ({ (g.lit o graph v).pixel with code := front, includes := includes } : Stage).newline = _ :=
    g.writeRoot_eq rfl hcallable _ ⟨rfl, rfl⟩ ⟨rfl, rfl, rfl⟩
  rw [writeFunctions, hgraph]
  simp only [hfunctions, bind, Except.bind]
  rw [show (g.blank o name graph v).name = name from rfl, hroot, rootedPixel, List.append_cons]
  rfl

/-- When all code of the pixel stage is written, nothing fails any more. -/
theorem complete_eq (name : Text) (graph : ShaderGraph) (v : Inventory) (front : Text) (includes : List Text) :
    complete (g.writingContext o samples (g.finalTokens o)) (g.finalTokens o) (g.namedShader o name graph v)
      (g.rootedPixel o graph (g.lit o graph v) ((g.lit o graph v).identifiers.makeIdentifier name).1 front
        includes) = .ok (g.finalShader o name graph v front includes) := by
  rw [finalShader, namedShader]
  generalize (g.lit o graph v).identifiers.makeIdentifier name = named
  have hpixel : finish (g.rootedPixel o graph (g.lit o graph v) named.1 front includes) (g.finalTokens o) =
      .ok (g.finalPixel o graph (g.lit o graph v) named.1 front includes) := g.finish_eq o rfl
  have hequipped : (g.finalPixel o graph (g.lit o graph v) named.1 front includes).Equipped :=
    ⟨rfl, rfl, rfl⟩
  have hstage : requireStage ((g.blank o name graph v).setIdentifiers named.2) uniformsStage =
      .ok (.empty uniformsStage) := rfl
  have hformat : readFormat (g.writingContext o samples (g.finalTokens o)) = .ok .fixed := rfl
  have huniforms : finish (writeUniforms .fixed (writeUniforms .fixed (.empty uniformsStage)
      (privatePorts (g.finalPixel o graph (g.lit o graph v) named.1 front includes)))
      (publicPorts (g.finalPixel o graph (g.lit o graph v) named.1 front includes)))
      (g.finalTokens o) = .ok (g.finalUniforms o (g.lit o graph v)) := by
    rw [writeUniforms_eq (s := .empty uniformsStage) _ ⟨rfl, rfl⟩,
      writeUniforms_eq _ ⟨rfl, rfl⟩, Stage.write_write, g.finish_eq o rfl]
    rfl
  rw [complete, hpixel, hstage, hformat]
  simp only [bind, Except.bind, readPrivate_eq hequipped, readPublic_eq hequipped, huniforms]
  have hps : (g.finalPixel o graph (g.lit o graph v) named.1 front includes).name = pixelStage := rfl
  have hus : (g.finalUniforms o (g.lit o graph v)).name = uniformsStage := rfl
  exact congrArg (fun s => Except.ok (Shader.setIdentifiers s named.2)) (g.setStages_blank o name graph v hps hus)

end

/-- The root function at the end of a finished pixel stage. -/
def finalRoot (g : FragmentGenerator) (o : Options) (graph : ShaderGraph) (ps : Stage) : RootFunction :=
  (g.root o.transparency graph ps.functionName ps).resolve (g.finalTokens o)

/-- What was made of a graph: a shader whose pixel stage has the ports of an inventory and ends with the
root function, and whose other stage declares the uniforms. -/
structure Finished (g : FragmentGenerator) (o : Options) (gr : Graph) (v : Inventory) (ps : Stage)
    (s : Shader) : Prop where
  created : Shader.Created g.registry start gr s.graph v
  pixel : s.stage? pixelStage = some ps
  ports : ps = { (g.lit o s.graph v).pixel with
    code := ps.code, functionName := ps.functionName, includes := ps.includes, replaced := true }
  named : ps.functionName.Calm
  code : ∃ front : Text, front.tidy = true ∧
    ps.code = (g.finalTokens o).replace front ++ 10 :: (g.finalRoot o s.graph ps).text
  uniforms : ∃ us, s.stage? uniformsStage = some us ∧ us.code = (g.finalTokens o).replace
    (uniformLines (g.lit o s.graph v).hidden ++ uniformLines (g.lit o s.graph v).published)
  closed : ∀ stage ∈ s.stages, stage.Closed

namespace Finished

variable {g : FragmentGenerator} {o : Options} {gr : Graph} {v : Inventory} {ps : Stage} {s : Shader}

theorem name (h : g.Finished o gr v ps s) : ps.functionName.Quiet := h.named.quiet

/-- A finished pixel stage has the published ports of the inventory, with those that light adds. -/
theorem publicPorts_eq (h : g.Finished o gr v ps s) : publicPorts ps = (g.lit o s.graph v).published := by
  rw [h.ports]; rfl

/-- The vertex data is that of the inventory, because light asks for none. -/
theorem vertexPorts_eq (h : g.Finished o gr v ps s) : vertexPorts ps = v.vertex := by
  rw [h.ports]
  exact g.lit_vertex o s.graph v

theorem constants_eq (h : g.Finished o gr v ps s) : ps.constants.ports = v.constants := by
  rw [h.ports]
  exact g.lit_constants o s.graph v

/-- The names of a finished shader are sober. -/
theorem clean (h : g.Finished o gr v ps s) : (g.lit o s.graph v).Clean :=
  g.clean_lit o s.graph h.created.clean

/-- The pixel stage ends with the root function. -/
theorem exists_front (h : g.Finished o gr v ps s) :
    ∃ front : Text, ps.code = front ++ (g.finalRoot o s.graph ps).text := by
  obtain ⟨front, _, hcode⟩ := h.code
  refine ⟨(g.finalTokens o).replace front ++ [10], ?_⟩
  rw [hcode, List.append_assoc]
  rfl

end Finished

/-- Every node stands for one whose definition is implemented, and has an output. -/
theorem known_of_standsFor {g : FragmentGenerator} {ns : List Node} {ms : List ShaderNode}
    (h : List.Forall₂ (ShaderNode.StandsFor g.registry) ns ms) :
    ∀ m ∈ ms, m.implementation ∈ Implementation.known ∧ m.outputs ≠ [] := by
  induction h with
  | nil => intro m hm; cases hm
  | cons hnm _ ih =>
    intro m hm
    rcases List.mem_cons.mp hm with rfl | hm
    · exact ⟨known_of_lookup hnm.implementation, hnm.outputs_ne_nil⟩
    · exact ih m hm

/-- The shader that is made behind the preamble is finished. -/
theorem finished_of_created (g : FragmentGenerator) (o : Options) (name : Text) {gr : Graph}
    {made : ShaderGraph} {v : Inventory} (h : Shader.Created g.registry start gr made v) {front : Text}
    (hfront : front.tidy = true) (includes : List Text) :
    g.Finished o gr v
      (g.finalPixel o made (g.lit o made v)
        ((g.lit o made v).identifiers.makeIdentifier name).1 front includes)
      (g.finalShader o name made v front includes) where
  created := ⟨h.nodes, h.accounted, h.hosted, h.supplied, h.socket, h.channels, h.type, h.spelled,
    h.named, h.furnished, h.shows⟩
  pixel := rfl
  ports := rfl
  named := (Naming.grants_identifier (t := .float) (by decide) (by decide)).spelled.calm
  code := by
    have hosted := g.finalTokens_hosted o
    refine ⟨front, hfront, ?_⟩
    rw [finalPixel, hosted.replace_wall (by decide) (by decide), hosted.replace_text]
    rfl
  uniforms := ⟨_, rfl, rfl⟩
  closed := List.forall_mem_cons.mpr ⟨⟨rfl, rfl⟩, List.forall_mem_singleton.mpr ⟨rfl, rfl⟩⟩

section

variable {g : FragmentGenerator} {name : Text} {graph : Option Graph} {o : Options}
  {samples : SampleSetting} {gr : Graph} {made : ShaderGraph} {v : Inventory}

/-- Code is written for a shader that was made. -/
theorem writePixel_of_create
    (hcreate : g.createShader name graph (some (g.contextWith o samples)) =
      .ok (g.blank o name made v)) :
    (g.writePixel name graph (g.contextWith o samples)).1 =
      (g.writePreamble (g.writingContext o samples g.tokens) (g.lit o made v).pixel).bind
        (g.writeFunctions (g.writingContext o samples (g.finalTokens o)) (g.blank o name made v)) := by
  rw [writePixel, hcreate]
  dsimp only
  split
  · next e he =>
    rw [show g.writePreamble (g.writingContext o samples g.tokens) (g.lit o made v).pixel = .error e from he]
    rfl
  · next ps hps =>
    rw [show g.writePreamble (g.writingContext o samples g.tokens) (g.lit o made v).pixel = .ok ps from hps]
    rfl

/-- What is written is completed with the tokens that it was written with. -/
theorem generate_of_writePixel {shader : Shader} {ps : Stage}
    (h : (g.writePixel name graph (g.contextWith o samples)).1 = .ok (shader, ps)) :
    (g.generate name graph (g.contextWith o samples)).1 =
      complete (g.writingContext o samples (g.finalTokens o)) (g.finalTokens o) shader ps := by
  have hafter : (g.writePixel name graph (g.contextWith o samples)).2 =
      { g.contextWith o samples with tokens := some (g.finalTokens o) } := by
    unfold writePixel at h ⊢
    split at h
    · cases h
    · dsimp only at h ⊢
      split at h
      · cases h
      · rfl
  unfold generate
  rw [show g.writePixel name graph (g.contextWith o samples) =
    (.ok (shader, ps), { g.contextWith o samples with tokens := some (g.finalTokens o) }) from Prod.ext h hafter]
  rfl

/-- Nothing is completed that was not written. -/
theorem generate_of_writePixel_error {e : ShaderError} {c : Context}
    (h : (g.writePixel name graph c).1 = .error e) : (g.generate name graph c).1 = .error e := by
  unfold generate
  rcases hwritten : g.writePixel name graph c with ⟨written, after⟩
  rw [hwritten] at h
  obtain rfl : written = .error e := h
  rfl

/-- Without a shader nothing is generated. -/
theorem generate_of_createShader_error {e : ShaderError} {c : Context}
    (h : g.createShader name graph (some c) = .error e) : (g.generate name graph c).1 = .error e :=
  generate_of_writePixel_error (by rw [writePixel, h])

/-- With lighting code for the specular method, nothing in front of the root function fails. -/
theorem exists_fronts (hcreated : Shader.Created g.registry start gr made v) (hmethod : o.specular ∈ litMethods)
    (samples : SampleSetting) : ∃ (front : Text) (includes : List Text), front.tidy = true ∧
      g.Fronts o samples made v front includes := by
  have hclean := g.clean_lit o made hcreated.clean
  have hnodes := known_of_standsFor hcreated.nodes
  obtain ⟨t, ht, hpreamble⟩ := g.writePreamble_grown o samples hmethod
    (s := (g.lit o made v).pixel) ⟨rfl, rfl⟩ (g.lit o made v).equipped_pixel hclean.vertex hclean.constants
  obtain ⟨u, hu, hfunctions⟩ := g.defineFunctions_grown o samples made.nodes (fun n hn => (hnodes n hn).1) [] t
  obtain ⟨front, includes, hfront, rfl⟩ := ht.trans hu
  exact ⟨front, includes, hfront, t.newline, hpreamble, hfunctions⟩

/-- **The pixel stage is written** if its front can be: making the shader, opening the stage and writing the
root function do not fail. -/
theorem writePixel_of_fronts (hcreated : Shader.Created g.registry start gr made v)
    (hcreate : g.createShader name graph (some (g.contextWith o samples)) =
      .ok (g.blank o name made v)) {front : Text} {includes : List Text}
    (h : g.Fronts o samples made v front includes) :
    (g.writePixel name graph (g.contextWith o samples)).1 =
      .ok (g.namedShader o name made v, g.rootedPixel o made (g.lit o made v)
        ((g.lit o made v).identifiers.makeIdentifier name).1 front includes) := by
  obtain ⟨s, hpreamble, hfunctions⟩ := h
  have hnodes := known_of_standsFor hcreated.nodes
  rw [writePixel_of_create hcreate, hpreamble]
  exact g.writeFunctions_eq o samples name v (fun n hn => (hnodes n hn).1) (fun n hn => (hnodes n hn).2) hfunctions

/-- **Generating gives the final shader** if the front of the pixel stage can be written. -/
theorem generate_of_fronts (hcreated : Shader.Created g.registry start gr made v)
    (hcreate : g.createShader name graph (some (g.contextWith o samples)) =
      .ok (g.blank o name made v)) {front : Text} {includes : List Text}
    (h : g.Fronts o samples made v front includes) :
    (g.generate name graph (g.contextWith o samples)).1 = .ok (g.finalShader o name made v front includes) := by
  rw [generate_of_writePixel (writePixel_of_fronts hcreated hcreate h), g.complete_eq]

/-- With lighting code for the specular method, all code is written. -/
theorem generate_ok (hcreated : Shader.Created g.registry start gr made v)
    (hcreate : g.createShader name graph (some (g.contextWith o samples)) =
      .ok (g.blank o name made v)) (hmethod : o.specular ∈ litMethods) :
    ∃ (front : Text) (includes : List Text), front.tidy = true ∧
      (g.generate name graph (g.contextWith o samples)).1 =
        .ok (g.finalShader o name made v front includes) := by
  obtain ⟨front, includes, hfront, hfronts⟩ := exists_fronts hcreated hmethod samples
  exact ⟨front, includes, hfront, generate_of_fronts hcreated hcreate hfronts⟩

/-- Without it, that is what the error says. -/
theorem generate_error (hcreated : Shader.Created g.registry start gr made v)
    (hcreate : g.createShader name graph (some (g.contextWith o samples)) =
      .ok (g.blank o name made v)) (hmethod : o.specular ∉ litMethods) :
    (g.generate name graph (g.contextWith o samples)).1 =
      .error (.specularMethod o.specular.code) := by
  have hclean := g.clean_lit o made hcreated.clean
  refine generate_of_writePixel_error ?_
  rw [writePixel_of_create hcreate, g.writePreamble_error o samples hmethod
    (s := (g.lit o made v).pixel) ⟨rfl, rfl⟩ (g.lit o made v).equipped_pixel hclean.vertex hclean.constants]
  rfl

/-- An accepted graph becomes a shader with all code, if there is lighting code for the specular method. -/
theorem exists_finalShader (h : gr.Accepted g.registry) (name : Text)
    (hmethod : o.specular ∈ litMethods) (samples : SampleSetting) :
    ∃ made v front includes,
      g.createShader name (some gr) (some (g.contextWith o samples)) = .ok (g.blank o name made v) ∧
      (g.generate name (some gr) (g.contextWith o samples)).1 =
        .ok (g.finalShader o name made v front includes) := by
  rcases g.createShader_cases name (some gr) o samples with
    ⟨_, _, _, made, v, hcreated, hcreate⟩ | ⟨hnone, _⟩
  · obtain ⟨front, includes, _, hok⟩ := generate_ok hcreated hcreate hmethod
    exact ⟨made, v, front, includes, hcreate, hok⟩
  · exact absurd h (hnone gr rfl)

end

/-- **The outcomes of generating a fragment.** -/
theorem generate_cases (g : FragmentGenerator) (name : Text) (graph : Option Graph) (o : Options)
    (samples : SampleSetting) :
    (∃ gr ∈ graph, gr.Accepted g.registry ∧ o.specular ∈ litMethods ∧ ∃ v ps s,
      (g.generate name graph (g.contextWith o samples)).1 = .ok s ∧ g.Finished o gr v ps s) ∨
    ((∃ gr ∈ graph, gr.Accepted g.registry) ∧ o.specular ∉ litMethods ∧
      (g.generate name graph (g.contextWith o samples)).1 =
        .error (.specularMethod o.specular.code)) ∨
    ((∀ gr ∈ graph, ¬ gr.Accepted g.registry) ∧ ∃ e,
      (g.generate name graph (g.contextWith o samples)).1 = .error e ∧ e.concernsGraph = true) := by
  rcases g.createShader_cases name graph o samples with
    ⟨gr, hgr, haccepted, made, v, hcreated, hcreate⟩ | ⟨hnone, e, hcreate, hconcerns⟩
  · by_cases hmethod : o.specular ∈ litMethods
    · obtain ⟨front, includes, hfront, hok⟩ := generate_ok hcreated hcreate hmethod
      exact Or.inl ⟨gr, hgr, haccepted, hmethod, v, _, _, hok,
        g.finished_of_created o name hcreated hfront includes⟩
    · exact Or.inr (Or.inl ⟨⟨gr, hgr, haccepted⟩, hmethod, generate_error hcreated hcreate hmethod⟩)
  · exact Or.inr (Or.inr ⟨hnone, e, generate_of_createShader_error hcreate, hconcerns⟩)

/-- Whatever is generated is finished. -/
theorem finished_of_generate {g : FragmentGenerator} {name : Text} {graph : Option Graph} {o : Options}
    {samples : SampleSetting} {s : Shader}
    (h : (g.generate name graph (g.contextWith o samples)).1 = .ok s) :
    ∃ gr ∈ graph, ∃ v ps, g.Finished o gr v ps s := by
  rcases g.generate_cases name graph o samples with
    ⟨gr, hgr, _, _, v, ps, s', hok, hfinished⟩ | ⟨_, _, herror⟩ | ⟨_, e, herror, _⟩
  · rw [hok] at h
    exact ⟨gr, hgr, v, ps, Except.ok.inj h ▸ hfinished⟩
  · rw [herror] at h
    cases h
  · rw [herror] at h
    cases h

/-- **When a fragment is generated**: exactly if its graph is accepted and there is lighting code for the
specular method.  A graph that is accepted can fail by its specular method alone, and every other error
says what is wrong with the graph: no include, no function, no variable, no scope and no lookup fails. -/
theorem generate_succeeds_iff_accepted (g : FragmentGenerator) (name : Text) (graph : Option Graph)
    (o : Options) (samples : SampleSetting) :
    ((∃ s, (g.generate name graph (g.contextWith o samples)).1 = .ok s) ↔
      (∃ gr ∈ graph, gr.Accepted g.registry) ∧ o.specular ∈ litMethods) ∧
    (∀ number, (g.generate name graph (g.contextWith o samples)).1 = .error (.specularMethod number) ↔
      (∃ gr ∈ graph, gr.Accepted g.registry) ∧ o.specular ∉ litMethods ∧
        number = o.specular.code) ∧
    (∀ e, (g.generate name graph (g.contextWith o samples)).1 = .error e →
      e.concernsGraph = true ∨ ∃ number, e = .specularMethod number) := by
  rcases g.generate_cases name graph o samples with
    ⟨gr, hgr, haccepted, hmethod, _, _, s, hok, _⟩ | ⟨haccepted, hmethod, herror⟩ |
      ⟨hnone, e, herror, hconcerns⟩
  · rw [hok]
    refine ⟨⟨fun _ => ⟨⟨gr, hgr, haccepted⟩, hmethod⟩, fun _ => ⟨s, rfl⟩⟩, fun number => ⟨fun h => ?_,
      fun h => absurd hmethod h.2.1⟩, fun e h => ?_⟩
    · cases h
    · cases h
  · rw [herror]
    refine ⟨⟨fun ⟨_, h⟩ => ?_, fun h => absurd h.2 hmethod⟩, fun number => ⟨fun h => ?_, fun h => ?_⟩,
      fun e h => Or.inr ⟨_, (Except.error.inj h).symm⟩⟩
    · cases h
    · exact ⟨haccepted, hmethod, (ShaderError.specularMethod.inj (Except.error.inj h)).symm⟩
    · rw [h.2.2]
  · have hno : ¬ ∃ gr ∈ graph, gr.Accepted g.registry := fun ⟨gr, hgr, haccepted⟩ =>
      hnone gr hgr haccepted
    rw [herror]
    refine ⟨⟨fun ⟨_, h⟩ => ?_, fun h => absurd h.1 hno⟩, fun number => ⟨fun h => ?_,
      fun h => absurd h.1 hno⟩, fun e' h => Or.inl (Except.error.inj h ▸ hconcerns)⟩
    · cases h
    · rw [Except.error.inj h] at hconcerns
      cases hconcerns

end FragmentGenerator
end ShadeGraph
