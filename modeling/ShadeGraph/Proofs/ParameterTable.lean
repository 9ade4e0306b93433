/-
  What the parameters of a fragment say about its texts.

  The host binds a fragment by its list of parameters, and the code was written from the ports of a stage,
  with tokens replaced in the whole text at the end.  Both tell the same:

  1. A parameter has the type of its port and the identifier of its argument, tokens replaced
     (`Fragment.argumentText_parameterOf`).
  2. Replacing the tokens of a uniform's lines gives the lines that its parameter asks for
     (`TokenTable.Hosted.replace_uniformLine`).  The crux is the name of the texture: it is read off the
     variable before tokens are replaced, and a token never becomes the name of a sampler.
  3. So the uniforms of a fragment are the text of its parameters (`uniforms_eq_uniformsText`), and the
     signature of its root function lists the public ones (`signature_eq_signatureLines`).
-/
import ShadeGraph.Fragment.Basic
import ShadeGraph.Proofs.CleanText
import ShadeGraph.Proofs.RootNames

namespace ShadeGraph

/-! ## Texts of parameters -/

namespace FragmentParameter

/-- The identifier without the suffix of a matrix that is passed as a larger one. -/
def portIdent (p : FragmentParameter) : Text :=
  if p.type = .matrix33 then p.ident.take (p.ident.length - wideSuffix.length) else p.ident

/-- The parameter as an argument: a type and the identifier. -/
def argumentText (p : FragmentParameter) : Text :=
  (if p.type = .matrix33 then Text.ofString "mat4" else p.type.glslName) ++ " " ++ p.ident

/-- What a uniform is initialised with: the value, or the zero of the type; nothing for a texture. -/
def initialText (p : FragmentParameter) : Text :=
  if p.type = .filename then []
  else
    match p.value with
    | some v => v.literal .fixed
    | none => p.type.glslDefault

/-- The line that gives a sampler the name of its texture; nothing for any other parameter. -/
def aliasText (p : FragmentParameter) : Text :=
  if Sampler.isName p.portIdent then
    "#define " ++ p.portIdent ++ " " ++ Sampler.texture p.portIdent ++ "\n"
  else []

/-- The lines of a uniform.  A 3 by 3 matrix is declared as a 4 by 4 one, and without a value. -/
def uniformText (p : FragmentParameter) : Text :=
  let assignment : Text :=
    if p.type = .matrix33 ∨ p.initialText = [] then [] else " = " ++ p.initialText
  p.aliasText ++ "uniform " ++ p.argumentText ++ assignment ++ ";\n"

/-- The lines of uniforms and an empty line; nothing without uniforms. -/
def groupText (ps : List FragmentParameter) : Text :=
  if ps = [] then [] else ps.flatMap uniformText ++ "\n"

/-- The uniforms of a list of parameters: those of the host, then those of the user. -/
def uniformsText (ps : List FragmentParameter) : Text :=
  groupText (ps.filter (·.hostBound)) ++ groupText (ps.filter (!·.hostBound))

end FragmentParameter

/-! ## Parameters of ports -/

/-- Quiet text starts no token. -/
theorem Text.Quiet.tokenMark_not_mem {t : Text} (h : t.Quiet) : Library.tokenMark ∉ t := fun hmem =>
  (h _ hmem).2 rfl

namespace TokenTable.Hosted

variable {ts : TokenTable}

/-- A text in front that holds no dollar sign stays as it is. -/
theorem replace_append (h : ts.Hosted) {s : Text} (hs : Library.tokenMark ∉ s) (t : Text) :
    ts.replace (s ++ t) = s ++ ts.replace t :=
  substitute_append_of_not_mem h.mark hs t

end TokenTable.Hosted

/-- Only a sampler's name has a texture in it. -/
theorem Sampler.texture_eq_nil_iff {name : Text} : texture name = [] ↔ isName name = false := by
  rw [texture]
  cases hname : isName name with
  | false => simp
  | true =>
    -- a sampler's name is longer than what stands around the texture
    have hlength : front.length + back.length < name.length := by
      rw [isName, Bool.and_eq_true, Bool.and_eq_true] at hname
      exact of_decide_eq_true hname.1.1
    simp only [if_true, reduceCtorEq, iff_false, ← List.length_eq_zero_iff, List.length_take,
      List.length_drop]
    omega

namespace Fragment

open FragmentGenerator (argumentOf)

variable {ts : TokenTable} {c : Context} (hostBound : Bool) (p : Port)

/-- Without the number that is put behind a matrix, a parameter has the identifier of its port. -/
theorem portIdent_parameterOf : (parameterOf c hostBound p).portIdent = c.resolve p.ident := by
  rw [FragmentParameter.portIdent, parameterOf]
  by_cases htype : p.type = .matrix33
  · simp [htype]
  · simp [htype]

/-- The identifier of a parameter is the one of the argument, with its tokens replaced. -/
theorem ident_parameterOf (hosted : ts.Hosted) (htokens : c.tokens = some ts) :
    (parameterOf c hostBound p).ident = ts.replace (argumentOf p).2 := by
  have hresolve := Context.resolve_of_tokens htokens p.ident
  rw [parameterOf, argumentOf]
  by_cases htype : p.type = .matrix33
  · have hsuffix : Text.Walls wideSuffix := by decide
    have hboth := hosted.replace_walls hsuffix [] p.ident
    rw [List.append_nil, TokenTable.replace_nil, List.append_nil] at hboth
    simp only [if_pos htype, hresolve, hboth]
  · simp only [if_neg htype, hresolve, List.append_nil]

/-- **A parameter is the argument of its port**, with the tokens replaced. -/
theorem argumentText_parameterOf (hosted : ts.Hosted) (htokens : c.tokens = some ts) :
    (parameterOf c hostBound p).argumentText = ts.replace (RootFunction.argumentText (argumentOf p)) := by
  have htype : ts.replace (argumentOf p).1 =
      if p.type = .matrix33 then Text.ofString "mat4" else p.type.glslName := by
    rw [argumentOf]
    have hwide : Port.wideMatrix.Quiet := by decide
    split
    · exact hosted.replace_of_quiet hwide
    · exact hosted.replace_of_quiet p.type.calm_glslName.quiet
  rw [← hosted.argumentText_resolve, RootFunction.argumentText, htype, ← ident_parameterOf hostBound p hosted htokens]
  rfl

theorem initialText_parameterOf : (parameterOf c hostBound p).initialText = p.initializer .fixed := rfl

end Fragment

/-! ## Uniforms -/

/-- Replacing the tokens of a name leaves the texture that it is the sampler of. -/
structure TokenTable.KeepsTexture (ts : TokenTable) (name : Text) : Prop where
  same : Sampler.texture (ts.replace name) = Sampler.texture name
  quiet : (Sampler.texture name).Quiet

/-- A name without tokens is not changed, and neither is its texture. -/
theorem TokenTable.Hosted.keepsTexture {ts : TokenTable} (h : ts.Hosted) {name : Text} (hname : name.Quiet) :
    ts.KeepsTexture name where
  same := by rw [h.replace_of_quiet hname]
  quiet := FragmentGenerator.Finished.quiet_texture hname

/-- A token is no sampler's name, and stands for none. -/
theorem FragmentGenerator.keepsTexture_token (g : FragmentGenerator) (o : Options) {name : Text}
    (hname : name ∈ Token.standard.tokens) : (g.finalTokens o).KeepsTexture name := by
  have hnone : ∀ token ∈ Token.standard.tokens, Sampler.texture token = [] := by decide
  have hreplaced : ∀ token ∈ Token.standard.tokens,
      Sampler.texture ((g.finalTokens o).replace token) = [] :=
    forall_finalTokens (P := fun ts => ∀ token ∈ Token.standard.tokens,
      Sampler.texture (ts.replace token) = []) (by decide) (by decide) g o
  refine ⟨(hreplaced name hname).trans (hnone name hname).symm, ?_⟩
  rw [hnone name hname]
  decide

namespace FragmentGenerator

open Fragment (parameterOf)

/-- What stands behind the declaration of a uniform. -/
def assignment (p : Port) : Text :=
  if p.type = .matrix33 ∨ p.initializer .fixed = [] then [] else " = " ++ p.initializer .fixed

/-- The declaration of a uniform is the one of its argument, with a value behind it. -/
theorem declaration_uniform (p : Port) :
    p.declaration .fragment .fixed Glsl.uniformQualifier true =
      "uniform " ++ RootFunction.argumentText (argumentOf p) ++ assignment p := by
  have hqualifier : Glsl.uniformQualifier ≠ Glsl.constantQualifier := by decide
  have hfront : ∀ type name value : Text, Glsl.declaration Glsl.uniformQualifier type name value =
      "uniform " ++ (type ++ " " ++ name) ++ (if value = [] then [] else " = " ++ value : Text) := by
    intro type name value
    simp only [Glsl.declaration, List.append_assoc]
    rfl
  rw [Port.declaration.eq_def, argumentOf, assignment, RootFunction.argumentText]
  by_cases htype : p.type = .matrix33
  · simp only [htype, hqualifier, ne_eq, not_false_eq_true, and_self, if_true, true_or, hfront]
  · simp only [htype, false_and, if_false, false_or, if_true, Port.plainDeclaration, hfront]

end FragmentGenerator

namespace TokenTable.Hosted

open Fragment (parameterOf)
open FragmentGenerator (argumentOf uniformLine uniformLines)

variable {ts : TokenTable} {c : Context}

/-- The tokens of the line in front of a sampler. -/
theorem replace_aliasText (h : ts.Hosted) (htokens : c.tokens = some ts) (hostBound : Bool) {p : Port}
    (hp : ts.KeepsTexture p.ident) (rest : Text) :
    ts.replace ((if Sampler.texture p.ident = [] then []
        else Glsl.define p.ident (Sampler.texture p.ident)) ++ rest) =
      (parameterOf c hostBound p).aliasText ++ ts.replace rest := by
  have hident : (parameterOf c hostBound p).portIdent = ts.replace p.ident :=
    (Fragment.portIdent_parameterOf hostBound p).trans (Context.resolve_of_tokens htokens p.ident)
  rw [FragmentParameter.aliasText, hident]
  by_cases hname : Sampler.texture p.ident = []
  · have hnone : Sampler.isName (ts.replace p.ident) = false := by
      rw [← Sampler.texture_eq_nil_iff, hp.same, hname]
    rw [if_pos hname, hnone]
    rfl
  · have hsampler : Sampler.isName (ts.replace p.ident) = true := by
      rwa [← Bool.not_eq_false, ← Sampler.texture_eq_nil_iff, hp.same]
    have hspace : Text.Walls " " := by decide
    have hword : Library.tokenMark ∉ Text.ofString "#define " := by decide
    have hend : Library.tokenMark ∉ Text.ofString "\n" := by decide
    rw [if_neg hname, if_pos hsampler, hp.same]
    simp only [Glsl.define, List.append_assoc]
    rw [h.replace_append hword, h.replace_walls hspace,
      h.replace_append hp.quiet.tokenMark_not_mem, h.replace_append hend]

/-- **The lines of a uniform**: with their tokens replaced they are the text of the parameter. -/
theorem replace_uniformLine (h : ts.Hosted) (htokens : c.tokens = some ts) (hostBound : Bool) {p : Port}
    (hp : ts.KeepsTexture p.ident) (rest : Text) :
    ts.replace (uniformLine p ++ rest) = (parameterOf c hostBound p).uniformText ++ ts.replace rest := by
  have hword : Library.tokenMark ∉ Text.ofString "uniform " := by decide
  have hequals : Text.Walls " = " := by decide
  have hend : Text.Walls ";\n" := by decide
  have hlast : Library.tokenMark ∉ Text.ofString ";\n" := by decide
  have hlineEnd : Stage.lineEnd true = Text.ofString ";\n" := by decide
  have htype : (parameterOf c hostBound p).type = p.type := rfl
  rw [uniformLine, FragmentGenerator.declaration_uniform, hlineEnd, FragmentParameter.uniformText,
    Fragment.argumentText_parameterOf hostBound p h htokens, Fragment.initialText_parameterOf, htype]
  simp only [List.append_assoc]
  rw [h.replace_aliasText htokens hostBound hp, h.replace_append hword, FragmentGenerator.assignment]
  split
  · rw [List.nil_append, List.nil_append, h.replace_walls hend]
  · rw [List.append_assoc, List.append_assoc, h.replace_walls hequals,
      h.replace_append p.calm_initializer.quiet.tokenMark_not_mem, h.replace_append hlast]

/-- The lines of all uniforms of a block. -/
theorem replace_uniformLines (h : ts.Hosted) (htokens : c.tokens = some ts) (hostBound : Bool)
    {ports : List Port} (hports : ∀ p ∈ ports, ts.KeepsTexture p.ident) (rest : Text) :
    ts.replace (uniformLines ports ++ rest) =
      FragmentParameter.groupText (ports.map (parameterOf c hostBound)) ++ ts.replace rest := by
  have hlines : ∀ rest : Text, ts.replace (ports.flatMap uniformLine ++ rest) =
      (ports.map (parameterOf c hostBound)).flatMap FragmentParameter.uniformText ++ ts.replace rest := by
    induction ports with
    | nil => intro rest; rfl
    | cons p ports ih =>
      intro rest
      obtain ⟨hp, hports⟩ := List.forall_mem_cons.mp hports
      rw [List.flatMap_cons, List.append_assoc, h.replace_uniformLine htokens hostBound hp, ih hports,
        List.map_cons, List.flatMap_cons, List.append_assoc]
  have hbreak : Library.tokenMark ∉ Text.ofString "\n" := by decide
  rw [uniformLines, FragmentParameter.groupText]
  simp only [List.map_eq_nil_iff]
  split
  · rfl
  · rw [List.append_assoc, hlines]
    show _ ++ ts.replace (Text.ofString "\n" ++ rest) = _
    rw [h.replace_append hbreak, List.append_assoc]

end TokenTable.Hosted

/-! ## The fragment of a shader -/

/-- A mended name has a byte at least. -/
theorem Identifier.legal_ne_nil (name : Text) : legal name ≠ [] := by
  rw [legal]
  cases name with
  | nil => exact List.cons_ne_nil _ _
  | cons b name =>
    have hbody : collapse false ((b :: name).map mendByte) ≠ [] := by
      rw [List.map_cons, collapse]
      split <;> exact List.cons_ne_nil _ _
    rw [if_neg (List.cons_ne_nil b name)]
    simp only
    split
    · exact List.cons_ne_nil _ _
    · exact hbody

theorem Identifier.ne_nil_of_numbered {name u : Text} (h : IdentifierMap.Numbered (legal name) u) : u ≠ [] := by
  rcases h with rfl | ⟨k, rfl⟩
  · exact legal_ne_nil name
  · exact List.append_ne_nil_of_left_ne_nil (legal_ne_nil name) _

/-- So the variable of a port is not empty. -/
theorem Naming.VariableOf.ne_nil {name v : Text} {t : DataType} (h : VariableOf name t v) : v ≠ [] := by
  obtain ⟨u, hu, hv⟩ := h
  have hne : u ≠ [] := Identifier.ne_nil_of_numbered hu
  split at hv
  · rcases hv with ⟨_, rfl⟩ | rfl
    · exact hne
    · exact List.append_ne_nil_of_left_ne_nil (List.append_ne_nil_of_right_ne_nil _ hne) _
  · exact hv ▸ hne

namespace FragmentGenerator

variable {g : FragmentGenerator} {name : Text} {graph : Option Graph} {o : Options} {samples : SampleSetting}
  {s : Shader} {c : Context}

theorem eq_of_fst_eq {run : Except ShaderError Shader × Context} (h : run.1 = .ok s) : run = (.ok s, run.2) :=
  Prod.ext h rfl

/-- A context in which a fragment was generated has the final tokens, and is as it was otherwise. -/
theorem context_of_generate (h : g.generate name graph (g.contextWith o samples) = (.ok s, c)) :
    c = { g.contextWith o samples with tokens := some (g.finalTokens o) } := by
  rw [generate_eq] at h
  split at h
  · cases h
  · simp only at h
    split at h
    · cases h
    · exact (Prod.mk.inj h).2.symm

/-- The name of the root function is made from the name of the shader. -/
theorem functionName_of_generate {ps : Stage} (h : (g.generate name graph (g.contextWith o samples)).1 = .ok s)
    (hps : s.stage? pixelStage = some ps) : Naming.VariableOf name .float ps.functionName := by
  rcases g.createShader_cases name graph o samples with
    ⟨gr, _, _, made, v, hcreated, hcreate⟩ | ⟨_, e, hcreate, _⟩
  · by_cases hmethod : o.specular ∈ litMethods
    · obtain ⟨front, includes, _, hok⟩ := generate_ok hcreated hcreate hmethod
      obtain rfl := Except.ok.inj (hok.symm.trans h)
      obtain rfl := Option.some.inj hps
      exact (Naming.grants_identifier (by decide) (by decide)).spelled
    · rw [generate_error hcreated hcreate hmethod] at h
      cases h
  · rw [generate_of_createShader_error hcreate] at h
    cases h

/-- The finished pixel stage has both blocks of uniforms, with the ports that the shader was made with. -/
theorem Finished.uniformBlocks {gr : Graph} {v : Inventory} {ps : Stage} (h : g.Finished o gr v ps s) :
    ∃ hidden published, ps.uniformBlock? BlockName.privateUniforms = some hidden ∧
      ps.uniformBlock? BlockName.publicUniforms = some published ∧
      hidden.ports = (g.lit o s.graph v).hidden ∧ published.ports = (g.lit o s.graph v).published := by
  rw [h.ports]
  exact ⟨_, _, rfl, rfl, rfl, rfl⟩

/-- **A generated shader makes a fragment**, whose parts are read off the finished stages. -/
theorem Finished.ofShader_eq {gr : Graph} {v : Inventory} {ps us : Stage} (h : g.Finished o gr v ps s)
    (hus : s.stage? uniformsStage = some us) (hname : ps.functionName ≠ []) :
    Fragment.ofShader g s c = .ok
      { name := s.name, functionName := ps.functionName, pixel := ps.code, uniforms := us.code
        parameters := (g.lit o s.graph v).hidden.map (Fragment.parameterOf c true) ++
          (g.lit o s.graph v).published.map (Fragment.parameterOf c false)
        transparent := c.options.transparency, api := g.api } := by
  have hhidden : privatePorts ps = (g.lit o s.graph v).hidden := by
    rw [h.ports]
    rfl
  rw [Fragment.ofShader, h.pixel, hus]
  simp only [if_neg hname, Fragment.parametersOf, h.publicPorts_eq, hhidden]

/-- The parameters of the host, and those of the user. -/
theorem filter_hostBound (c : Context) (hidden published : List Port) :
    (hidden.map (Fragment.parameterOf c true) ++ published.map (Fragment.parameterOf c false)).filter
        (·.hostBound) = hidden.map (Fragment.parameterOf c true) ∧
      (hidden.map (Fragment.parameterOf c true) ++ published.map (Fragment.parameterOf c false)).filter
        (!·.hostBound) = published.map (Fragment.parameterOf c false) := by
  have hhost : ∀ p ∈ hidden.map (Fragment.parameterOf c true), p.hostBound = true := by
    simp [Fragment.parameterOf]
  have huser : ∀ p ∈ published.map (Fragment.parameterOf c false), p.hostBound = false := by
    simp [Fragment.parameterOf]
  constructor
  · rw [List.filter_append, List.filter_eq_self.mpr hhost,
      List.filter_eq_nil_iff.mpr fun p hp => by rw [huser p hp]; exact Bool.false_ne_true,
      List.append_nil]
  · rw [List.filter_append, List.filter_eq_nil_iff.mpr fun p hp => by rw [hhost p hp]; decide,
      List.filter_eq_self.mpr fun p hp => by rw [huser p hp]; rfl, List.nil_append]

/-- **The uniforms of a fragment are the text of its parameters.**  They are the code of the stage for uniforms;
the parameters are those of the ports in the two blocks of the pixel stage, the host's before the user's. -/
theorem uniforms_eq_uniformsText (hs : g.generate name graph (g.contextWith o samples) = (.ok s, c)) :
    ∃ ps us hidden published f, s.stage? pixelStage = some ps ∧ s.stage? uniformsStage = some us ∧
      ps.uniformBlock? BlockName.privateUniforms = some hidden ∧
      ps.uniformBlock? BlockName.publicUniforms = some published ∧
      Fragment.ofShader g s c = .ok f ∧ f.uniforms = us.code ∧
      f.parameters = hidden.ports.map (Fragment.parameterOf c true) ++
        published.ports.map (Fragment.parameterOf c false) ∧
      f.uniforms = FragmentParameter.uniformsText f.parameters := by
  obtain ⟨gr, _, v, ps, hfinished⟩ := finished_of_generate (congrArg Prod.fst hs)
  obtain ⟨us, hus, hcode⟩ := hfinished.uniforms
  obtain ⟨hidden, published, hprivate, hpublic, hhidden, hpublished⟩ := hfinished.uniformBlocks
  have hname := functionName_of_generate (congrArg Prod.fst hs) hfinished.pixel
  refine ⟨ps, us, hidden, published, _, hfinished.pixel, hus, hprivate, hpublic,
    hfinished.ofShader_eq hus hname.ne_nil, rfl, by rw [hhidden, hpublished], ?_⟩
  obtain ⟨hhost, huser⟩ := filter_hostBound c (g.lit o s.graph v).hidden (g.lit o s.graph v).published
  have hosted := g.finalTokens_hosted o
  have htokens : c.tokens = some (g.finalTokens o) := by rw [context_of_generate hs]
  have hhidden : ∀ p ∈ (g.lit o s.graph v).hidden, (g.finalTokens o).KeepsTexture p.ident := fun p hp =>
    g.keepsTexture_token o (hfinished.clean.hidden p hp)
  have hpublished : ∀ p ∈ (g.lit o s.graph v).published, (g.finalTokens o).KeepsTexture p.ident := fun p hp =>
    hosted.keepsTexture (hfinished.clean.published p hp).quiet
  have hlast := hosted.replace_uniformLines htokens false hpublished []
  rw [List.append_nil, TokenTable.replace_nil, List.append_nil] at hlast
  rw [FragmentParameter.uniformsText, hhost, huser, hcode,
    hosted.replace_uniformLines htokens true hhidden, hlast]

/-- A graph with a matrix, a texture and a number of the host. -/
def mixedGraph : Graph :=
  ⟨"G", [⟨"turn", .matrix33, none⟩, ⟨"tint", .color3, none⟩],
    [⟨"i", "ND_image_color3", .color3, [], []⟩, ⟨"t", "ND_time_float", .float, [], []⟩],
    ⟨"out", .color3, "i", [], [], none⟩⟩

/-- The graph is accepted, so a fragment is generated for it. -/
theorem generate_mixedGraph (hmethod : o.specular ∈ litMethods) : ∃ s c,
    standard.generate "S" (some mixedGraph) (standard.contextWith o .absent) = (.ok s, c) := by
  have haccepted : mixedGraph.Accepted standard.registry :=
    ⟨by decide, by decide, fun _ => ⟨⟨"out", .color3⟩, by decide, rfl⟩⟩
  obtain ⟨_, _, _, _, _, hs⟩ := exists_finalShader haccepted "S" hmethod .absent
  exact ⟨_, _, eq_of_fst_eq hs⟩

theorem uniforms_eq_uniformsText_mixed : ∃ s c ps us hidden published f,
    standard.generate "S" (some mixedGraph) (standard.contextWith .standard .absent) = (.ok s, c) ∧
      s.stage? pixelStage = some ps ∧ s.stage? uniformsStage = some us ∧
      ps.uniformBlock? BlockName.privateUniforms = some hidden ∧
      ps.uniformBlock? BlockName.publicUniforms = some published ∧
      Fragment.ofShader standard s c = .ok f ∧ f.uniforms = us.code ∧
      f.parameters = hidden.ports.map (Fragment.parameterOf c true) ++
        published.ports.map (Fragment.parameterOf c false) ∧
      f.uniforms = FragmentParameter.uniformsText f.parameters := by
  obtain ⟨s, c, hs⟩ := generate_mixedGraph (o := .standard) (by decide)
  obtain ⟨ps, us, hidden, published, f, hf⟩ := uniforms_eq_uniformsText hs
  exact ⟨s, c, ps, us, hidden, published, f, hs, hf⟩

/-! ## The signature -/

end FragmentGenerator

/-- Lines, with a line feed behind each. -/
def Text.joinLines (lines : List Text) : Text := lines.flatMap (· ++ [10])

namespace Fragment

/-- The line of an argument. -/
def argumentLine (a : Text) : Text := "    " ++ a

/-- The lines of arguments: a comma is behind each but the last. -/
def listLines (arguments : List Text) : List Text :=
  arguments.dropLast.map (fun a => argumentLine a ++ [44]) ++ arguments.getLast?.toList.map argumentLine

/-- The lines of a signature. -/
def signatureLines (transparent : Bool) (name : Text) (arguments : List Text) : List Text :=
  let returns : Text := if transparent then "vec4" else "vec3"
  (returns ++ " " ++ name) :: "(" :: (listLines arguments ++ [Text.ofString ")"])

/-- The arguments of a fragment: its public parameters, the vertex data under the names of the host, and
what tells that it is transparent. -/
def signatureArguments (c : Context) (parameters : List FragmentParameter) (vertex : List Port)
    (transparent : Bool) : List Text :=
  (parameters.filter (!·.hostBound)).map FragmentParameter.argumentText ++
    vertex.map (fun p => (p.type.glslName ++ " " ++ c.resolve p.ident : Text)) ++
    if transparent then [Text.ofString "float vp2Transparent"] else []

/-- The lines of arguments, each with what ends it. -/
theorem argumentLines_eq_joinLines (arguments : List Text) :
    FragmentGenerator.argumentLines arguments = Text.joinLines (listLines arguments) := by
  have hindentation : Stage.indentation = Text.ofString "    " := by decide
  induction arguments with
  | nil => rfl
  | cons a arguments ih =>
    cases arguments with
    | nil =>
      simp [FragmentGenerator.argumentLines, listLines, argumentLine, Text.joinLines, hindentation]
    | cons b arguments =>
      rw [FragmentGenerator.argumentLines, ih]
      · simp [listLines, argumentLine, Text.joinLines, hindentation]
      · exact fun h => List.cons_ne_nil b arguments h

/-- A root function starts with the lines of its signature. -/
theorem text_eq_signatureLines (r : RootFunction) (transparent : Bool)
    (hreturns : r.returns = FragmentGenerator.returnType transparent) :
    r.text = Text.joinLines (signatureLines transparent r.name (r.arguments.map RootFunction.argumentText)) ++
      "\x7b\n" ++ FragmentGenerator.bodyLines r.body ++ "\x7d\n" := by
  have hopen : Text.ofString "\n(\n" = [10] ++ (Text.ofString "(" ++ [10]) := by decide
  have hclose : Text.ofString ")\n\x7b\n" = Text.ofString ")" ++ ([10] ++ Text.ofString "\x7b\n") := by decide
  rw [RootFunction.text, argumentLines_eq_joinLines, hreturns, hopen, hclose]
  simp only [Text.joinLines, signatureLines, FragmentGenerator.returnType, List.flatMap_append,
    List.flatMap_cons, List.flatMap_nil, List.append_assoc, List.append_nil]

/-- A line of arguments is one of them with blanks and maybe a comma. -/
theorem mem_listLines {arguments : List Text} {line : Text} (h : line ∈ listLines arguments) :
    ∃ a ∈ arguments, line = argumentLine a ++ [44] ∨ line = argumentLine a := by
  rcases List.mem_append.mp h with h | h
  · obtain ⟨a, ha, rfl⟩ := List.mem_map.mp h
    exact ⟨a, List.mem_of_mem_dropLast ha, Or.inl rfl⟩
  · obtain ⟨a, ha, rfl⟩ := List.mem_map.mp h
    exact ⟨a, List.mem_of_getLast? (Option.mem_toList.mp ha), Or.inr rfl⟩

end Fragment

namespace FragmentGenerator

variable {g : FragmentGenerator} {name : Text} {graph : Option Graph} {o : Options} {samples : SampleSetting}
  {s : Shader} {c : Context}

/-- The arguments of the root function are those that the parameters ask for. -/
theorem Finished.arguments_eq {gr : Graph} {v : Inventory} {ps : Stage} (h : g.Finished o gr v ps s)
    (htokens : c.tokens = some (g.finalTokens o)) {parameters : List FragmentParameter}
    (hpublic : parameters.filter (!·.hostBound) =
      (g.lit o s.graph v).published.map (Fragment.parameterOf c false)) :
    (g.finalRoot o s.graph ps).arguments.map RootFunction.argumentText =
      Fragment.signatureArguments c parameters (vertexPorts ps) o.transparency := by
  have hosted := g.finalTokens_hosted o
  have hport : ∀ p : Port, (g.finalTokens o).replace (RootFunction.argumentText (argumentOf p)) =
      (Fragment.parameterOf c false p).argumentText := fun p =>
    (Fragment.argumentText_parameterOf false p hosted htokens).symm
  -- Vertex data are no matrices, so no suffix is added to their names.
  have hvertex : ∀ p ∈ vertexPorts ps, (Fragment.parameterOf c false p).argumentText =
      p.type.glslName ++ " " ++ c.resolve p.ident := by
    intro p hp
    rw [h.vertexPorts_eq] at hp
    have htype := (h.created.hosted.vertex p hp).2.2
    simp only [FragmentParameter.argumentText, Fragment.parameterOf, if_neg htype, List.append_nil]
  have hlast : (if o.transparency then [(Text.ofString "float", transparencyArgument)] else []).map
      (fun a => (g.finalTokens o).replace (RootFunction.argumentText a)) =
      if o.transparency then [Text.ofString "float vp2Transparent"] else [] := by
    have hquiet : (Text.ofString "float vp2Transparent").Quiet := by decide
    cases o.transparency with
    | false => rfl
    | true => exact congrArg (fun t => [t]) (hosted.replace_of_quiet hquiet)
  rw [finalRoot, RootFunction.resolve, root, List.map_map, Fragment.signatureArguments, hpublic]
  simp only [Function.comp_def, hosted.argumentText_resolve]
  rw [rootArguments, List.map_append, hlast, List.map_map, List.map_append, List.map_map, h.publicPorts_eq]
  congr 2
  · exact List.map_congr_left fun p _ => hport p
  · exact List.map_congr_left fun p hp => (hport p).trans (hvertex p hp)

/-! ### Lines are not broken -/

theorem unbroken_of_isWordByte {t : Text} (h : ∀ b ∈ t, Identifier.isWordByte b = true) :
    (10 : UInt8) ∉ t := fun hmem => absurd (h 10 hmem) (by decide)

/-- No token stands for a text with a line feed. -/
theorem unbroken_replace (g : FragmentGenerator) (o : Options) {t : Text} (h : (10 : UInt8) ∉ t) :
    10 ∉ (g.finalTokens o).replace t := by
  have hrules : ∀ r ∈ (g.finalTokens o).rules, (10 : UInt8) ∉ r.2 :=
    forall_finalTokens (P := fun ts => ∀ r ∈ ts.rules, (10 : UInt8) ∉ r.2) (by decide) (by decide) g o
  have hmarked : Text.marked 10 [] t = true := Text.marked_of_not_mem h
  exact TokenTable.not_mem_substitute (fun _ hw => absurd hw List.not_mem_nil) hrules t 0 hmarked

/-- Tokens of vertex data are on one line, with and without a number. -/
theorem unbroken_vertexToken {token : Text} (h : Inventory.VertexToken token) : (10 : UInt8) ∉ token := by
  rcases h with h | ⟨i, rfl⟩
  · have hgeometric : ∀ token ∈ Inventory.geometricTokens, (10 : UInt8) ∉ token := by decide
    exact hgeometric token h
  · have hnumber : ∀ i : Int, (10 : UInt8) ∉ Text.ofInt i
      | .ofNat n => fun h => absurd (Text.isDigit_of_mem_ofNat h) (by decide)
      | .negSucc n => fun h => absurd (Text.isDigit_of_mem_ofNat
          ((List.mem_cons.mp h).resolve_left (by decide))) (by decide)
    have hfront : (10 : UInt8) ∉ Token.texcoord ++ Text.ofString "_" := by decide
    exact fun h => (List.mem_append.mp h).elim hfront (hnumber i)

/-- Public ports are named by words. -/
theorem Finished.isWordByte_published {gr : Graph} {v : Inventory} {ps : Stage}
    (h : g.Finished o gr v ps s) :
    ∀ p ∈ (g.lit o s.graph v).published, ∀ b ∈ p.ident, Identifier.isWordByte b = true := by
  intro p hp b hb
  obtain ⟨added, hadded, hsub, _⟩ := g.lit_published o s.graph v
  rw [hadded] at hp
  rcases List.mem_append.mp hp with hp | hp
  · obtain ⟨_, hspelled, _⟩ := h.created.accounted.spelled p
      (List.mem_append_left _ (List.mem_append_right _ hp))
    exact hspelled.isWordByte hb
  · have hrig : ∀ p ∈ lightRigPorts, p.ident.all Identifier.isWordByte = true := by decide
    exact List.all_eq_true.mp (hrig p (hsub.subset hp)) b hb

/-- The arguments of a root function have a line each. -/
theorem Finished.unbroken_arguments {gr : Graph} {v : Inventory} {ps : Stage} (h : g.Finished o gr v ps s) :
    ∀ a ∈ (g.finalRoot o s.graph ps).arguments, (10 : UInt8) ∉ RootFunction.argumentText a := by
  have htypes : ∀ t : DataType, (10 : UInt8) ∉ t.glslName := by
    intro t
    cases t <;> exact of_decide_eq_true rfl
  have hport : ∀ p : Port, (10 : UInt8) ∉ p.ident → (10 : UInt8) ∉ RootFunction.argumentText (argumentOf p) := by
    intro p hident
    rw [argumentOf]
    have hspace : (10 : UInt8) ∉ Text.ofString " " := by decide
    have hwide : (10 : UInt8) ∉ Port.wideMatrix := by decide
    have hsuffix : (10 : UInt8) ∉ wideSuffix := by decide
    split
    · simp only [RootFunction.argumentText, List.mem_append, not_or]
      exact ⟨⟨hwide, hspace⟩, hident, hsuffix⟩
    · simp only [RootFunction.argumentText, List.mem_append, not_or]
      exact ⟨⟨htypes p.type, hspace⟩, hident⟩
  have hsource : ∀ a ∈ rootArguments ps o.transparency, (10 : UInt8) ∉ RootFunction.argumentText a := by
    intro a ha
    rcases List.mem_append.mp ha with ha | ha
    · obtain ⟨p, hp, rfl⟩ := List.mem_map.mp ha
      refine hport p ?_
      rw [h.publicPorts_eq, h.vertexPorts_eq] at hp
      rcases List.mem_append.mp hp with hp | hp
      · exact unbroken_of_isWordByte (h.isWordByte_published p hp)
      · obtain ⟨htoken, hident, _⟩ := h.created.hosted.vertex p hp
        exact hident ▸ unbroken_vertexToken htoken
    · have hlast : (10 : UInt8) ∉ RootFunction.argumentText (Text.ofString "float", transparencyArgument) := by
        decide
      split at ha
      · exact List.mem_singleton.mp ha ▸ hlast
      · cases ha
  -- Substitution brings in no end of line, so it is enough to look at the arguments as written.
  intro a ha
  obtain ⟨b, hb, rfl⟩ := List.mem_map.mp ha
  rw [(g.finalTokens_hosted o).argumentText_resolve]
  exact g.unbroken_replace o (hsource b hb)

/-- The lines of a signature are lines if its parts are. -/
theorem unbroken_signatureLines {transparent : Bool} {name : Text} {arguments : List Text}
    (hname : (10 : UInt8) ∉ name) (harguments : ∀ a ∈ arguments, (10 : UInt8) ∉ a) :
    ∀ line ∈ Fragment.signatureLines transparent name arguments, (10 : UInt8) ∉ line := by
  have hreturns : (10 : UInt8) ∉ (if transparent then Text.ofString "vec4" else Text.ofString "vec3") ++
      Text.ofString " " := by cases transparent <;> decide
  have hopen : (10 : UInt8) ∉ Text.ofString "(" := by decide
  have hclose : (10 : UInt8) ∉ Text.ofString ")" := by decide
  have hindent : (10 : UInt8) ∉ Text.ofString "    " := by decide
  have hargument : ∀ a ∈ arguments, (10 : UInt8) ∉ Fragment.argumentLine a := fun a ha hmem =>
    (List.mem_append.mp hmem).elim hindent (harguments a ha)
  intro line hline
  rw [Fragment.signatureLines] at hline
  rcases List.mem_cons.mp hline with rfl | hline
  · exact fun hmem => (List.mem_append.mp hmem).elim hreturns hname
  rcases List.mem_cons.mp hline with rfl | hline
  · exact hopen
  rcases List.mem_append.mp hline with hline | hline
  · obtain ⟨a, ha, rfl | rfl⟩ := Fragment.mem_listLines hline
    · exact fun hmem => (List.mem_append.mp hmem).elim (hargument a ha) (by decide)
    · exact hargument a ha
  · exact List.mem_singleton.mp hline ▸ hclose

/-- **The signature of a fragment lists its public parameters**, then the vertex data under the names of the
host, then what tells that the fragment is transparent.  The function that it belongs to ends the code. -/
theorem signature_eq_signatureLines
    (hs : g.generate name graph (g.contextWith o samples) = (.ok s, c)) :
    ∃ f ps front, Fragment.ofShader g s c = .ok f ∧ s.stage? pixelStage = some ps ∧
      f.pixel = front ++ "\n" ++
        Text.joinLines (Fragment.signatureLines o.transparency f.functionName
          (Fragment.signatureArguments c f.parameters (vertexPorts ps) o.transparency)) ++
        "\x7b\n" ++ bodyLines (g.finalRoot o s.graph ps).body ++ "\x7d\n" ∧
      ∀ line ∈ Fragment.signatureLines o.transparency f.functionName
        (Fragment.signatureArguments c f.parameters (vertexPorts ps) o.transparency), (10 : UInt8) ∉ line := by
  obtain ⟨gr, _, v, ps, hfinished⟩ := finished_of_generate (congrArg Prod.fst hs)
  obtain ⟨us, hus, _⟩ := hfinished.uniforms
  obtain ⟨front, _, hcode⟩ := hfinished.code
  have hname := functionName_of_generate (congrArg Prod.fst hs) hfinished.pixel
  have hosted := g.finalTokens_hosted o
  have htokens : c.tokens = some (g.finalTokens o) := by rw [context_of_generate hs]
  have harguments := hfinished.arguments_eq htokens
    (filter_hostBound c (g.lit o s.graph v).hidden (g.lit o s.graph v).published).2
  have hquiet : ∀ transparent, (returnType transparent).Quiet := by decide
  have hreturns : (g.finalRoot o s.graph ps).returns = returnType o.transparency :=
    hosted.replace_of_quiet (hquiet o.transparency)
  have hroot : (g.finalRoot o s.graph ps).name = ps.functionName := hosted.replace_of_quiet hfinished.name
  refine ⟨_, ps, (g.finalTokens o).replace front, hfinished.ofShader_eq hus hname.ne_nil, hfinished.pixel,
    ?_, ?_⟩
  · show ps.code = _
    rw [hcode, Fragment.text_eq_signatureLines _ _ hreturns, hroot, harguments]
    simp only [List.append_assoc]
    rfl
  · rw [← harguments]
    refine unbroken_signatureLines (unbroken_of_isWordByte fun _ => hname.isWordByte) fun a ha => ?_
    obtain ⟨argument, hargument, rfl⟩ := List.mem_map.mp ha
    exact hfinished.unbroken_arguments argument hargument

/-- Options of a transparent fragment. -/
def transparentOptions : Options := { Options.standard with transparency := true }

theorem signature_eq_signatureLines_mixed : ∃ s c f ps front,
    standard.generate "S" (some mixedGraph) (standard.contextWith transparentOptions .absent) = (.ok s, c) ∧
      Fragment.ofShader standard s c = .ok f ∧ s.stage? pixelStage = some ps ∧
      f.pixel = front ++ "\n" ++
        Text.joinLines (Fragment.signatureLines true f.functionName
          (Fragment.signatureArguments c f.parameters (vertexPorts ps) true)) ++
        "\x7b\n" ++ bodyLines (standard.finalRoot transparentOptions s.graph ps).body ++ "\x7d\n" ∧
      ∀ line ∈ Fragment.signatureLines true f.functionName
        (Fragment.signatureArguments c f.parameters (vertexPorts ps) true), (10 : UInt8) ∉ line := by
  obtain ⟨s, c, hs⟩ := generate_mixedGraph (o := transparentOptions) (by decide)
  obtain ⟨f, ps, front, hf⟩ := signature_eq_signatureLines hs
  exact ⟨s, c, f, ps, front, hs, hf⟩

end FragmentGenerator
end ShadeGraph
