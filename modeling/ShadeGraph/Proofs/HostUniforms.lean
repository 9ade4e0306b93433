/-
  The uniforms of the host that code speaks of, and whether they are declared.

  1. The generator itself speaks of vertex data, of the time and of the frame alone (`Token.spoken`).  The
     environment and the view are spoken of by library files only: by the lighting code that samples the
     environment, and by the lit surfaces.
  2. A lit surface is expanded for a node that is one, and such a node asks for the position of the viewer.  So
     whenever the view is spoken of, it is declared.
  3. The lighting code is chosen by the options, whatever the graph, but the uniforms of the environment are
     added for graphs that take light.  So the uniforms that code speaks of are declared exactly if the
     environment is not sampled or the graph takes light (`Written.declares_iff`).
-/
import ShadeGraph.Proofs.ExpandedFiles
import ShadeGraph.Proofs.ParameterTable

namespace ShadeGraph

/-! ## Texts in an expansion -/

namespace Expands

variable {libraries : SearchPath} {ts : TokenTable} {noted : List Text} {steps : List CodeStep}
  {e : Expansion}

/-- What holds of all texts that the steps and the files write holds of the code, if appending keeps it. -/
theorem code_induction {P : Text → Prop} (hnil : P []) (happend : ∀ {s t : Text}, P s → P t → P (s ++ t))
    (h : Expands libraries ts noted steps e) (hsteps : ∀ step ∈ steps, P step.text)
    (hfiles : ∀ file ∈ e.files, ∀ step ∈ Source.steps (libraries.sourceOf file), P step.text) :
    P e.code := by
  induction h with
  | done => exact hnil
  | write _ ih =>
    obtain ⟨hfirst, hrest⟩ := List.forall_mem_cons.mp hsteps
    exact happend hfirst (ih hrest hfiles)
  | known _ _ ih => exact ih (List.forall_mem_cons.mp hsteps).2 hfiles
  | file _ hread _ _ ihcontent ihrest =>
    obtain ⟨hown, hothers⟩ := List.forall_mem_cons.mp hfiles
    rw [SearchPath.sourceOf_eq hread] at hown
    obtain ⟨hinside, hbehind⟩ := List.forall_mem_append.mp hothers
    exact happend (ihcontent hown hinside) (ihrest (List.forall_mem_cons.mp hsteps).2 hbehind)

/-- What a step writes is in the code. -/
theorem text_infix_of_mem (h : Expands libraries ts noted steps e) :
    ∀ step ∈ steps, step.text <:+: e.code := by
  induction h with
  | done => intro step hstep; cases hstep
  | write _ ih =>
    refine List.forall_mem_cons.mpr ⟨(List.prefix_append _ _).isInfix, fun step hstep => ?_⟩
    exact (ih step hstep).trans (List.suffix_append _ _).isInfix
  | known _ _ ih => exact List.forall_mem_cons.mpr ⟨List.nil_infix, ih⟩
  | file _ _ _ _ _ ih =>
    refine List.forall_mem_cons.mpr ⟨List.nil_infix, fun step hstep => ?_⟩
    exact (ih step hstep).trans (List.suffix_append _ _).isInfix

/-- What an expanded file writes is in the code. -/
theorem text_infix (h : Expands libraries ts noted steps e) :
    ∀ file ∈ e.files, ∀ step ∈ Source.steps (libraries.sourceOf file), step.text <:+: e.code := by
  induction h with
  | done => intro file hfile; cases hfile
  | write _ ih =>
    intro file hfile step hstep
    exact (ih file hfile step hstep).trans (List.suffix_append _ _).isInfix
  | known _ _ ih => exact ih
  | @file _ _ _ _ content rest _ hread hcontent _ ihcontent ihrest =>
    have hin : content.code <:+: content.code ++ rest.code := (List.prefix_append _ _).isInfix
    intro file hfile step hstep
    rcases List.mem_cons.mp hfile with rfl | hfile
    · rw [SearchPath.sourceOf_eq hread] at hstep
      exact (hcontent.text_infix_of_mem step hstep).trans hin
    · rcases List.mem_append.mp hfile with hfile | hfile
      · exact (ihcontent file hfile step hstep).trans hin
      · exact (ihrest file hfile step hstep).trans (List.suffix_append _ _).isInfix

end Expands

namespace FragmentGenerator

/-! ## Who speaks of the host -/

/-- The uniforms of the host that are asked about: those of the environment, and the position of the viewer. -/
def hostTokens : List Text := Token.viewPosition :: environmentTokens

/-- The sampling code is included for the sampled method, and for no other. -/
theorem lightingPath_eq_sampled_iff (g : FragmentGenerator) (o : Options) :
    g.lightingPath o = Path.lightingSampled ↔ o.specular = .sampled := by
  have hothers : Path.lightingLegacy ≠ Path.lightingSampled ∧ Path.lightingPrefiltered ≠ Path.lightingSampled ∧
      Path.lightingOff ≠ Path.lightingSampled := by decide
  rw [lightingPath]
  by_cases hsampled : o.specular = .sampled
  · simp only [hsampled, if_true]
  · simp only [hsampled, if_false, iff_false]
    split
    · split
      · exact hothers.1
      · exact hothers.2.1
    · exact hothers.2.2

namespace Written

variable {g : FragmentGenerator} {o : Options} {samples : SampleSetting} {gr : Graph} {v : Inventory}
  {e : Expansion} {w : Stage} {s : Shader}

/-- A token that no expanded file speaks of is not in the code. -/
theorem not_infix_code (h : g.Written o samples gr v e w s) {token : Text} (htoken : token ∈ hostTokens)
    (hsilent : ∀ file ∈ e.files, file ∉ speakers token) : ¬ token <:+: w.code := by
  have hspoken : ∀ token ∈ hostTokens, Token.spoken ⊆ otherTokens token := by decide
  have hstart : ∀ token ∈ hostTokens, token.head? = some Library.tokenMark := by decide
  have hmarked := fun {t : Text} (ht : t.Sound Token.spoken) =>
    Text.marked_mono (hspoken token htoken) ht.tokens
  have hexpansion : Text.marked Library.tokenMark (otherTokens token) e.code = true := by
    refine h.expands.code_induction (P := fun t => Text.marked Library.tokenMark (otherTokens token) t = true)
      rfl Text.marked_append (fun step hstep => ?_) fun file hfile => ?_
    · cases step with
      | write t => exact hmarked (h.sound_writes hstep)
      | ask path => rfl
    · exact SearchPath.standard_texts.2.2.2.1 token htoken file
        (g.reachableFiles_subset o (h.files_subset hfile)) (hsilent file hfile)
  -- tokens that the token does not overlap with are all that is marked in the code
  rw [h.code]
  refine Text.not_infix_of_marked (Text.marked_append hexpansion (hmarked h.sound_root)) (hstart token htoken)
    fun other hother => ?_
  have hdistinct := (List.mem_filter.mp hother).2
  rwa [Bool.not_eq_true', Bool.or_eq_false_iff] at hdistinct

/-- The lighting code that samples the environment is expanded exactly if the options ask for it. -/
theorem lightingSampled_mem_files_iff (h : g.Written o samples gr v e w s) :
    Path.lightingSampled ∈ e.files ↔ o.specular = .sampled := by
  have hgroup : [Path.lightingSampled, Path.lightingLegacy, Path.lightingPrefiltered, Path.lightingOff] ∈
      rivals := by decide
  have hamong : ∀ legacy : Bool, lightingPaths legacy ⊆
      [Path.lightingSampled, Path.lightingLegacy, Path.lightingPrefiltered, Path.lightingOff] := by decide
  have hask : CodeStep.ask (g.lightingPath o) ∈ g.frontSteps o samples w s.graph.nodes :=
    List.mem_append_left _ (by simp [preambleSteps])
  have hchosen : g.lightingPath o ∈ e.files := by
    have hmem := h.expands.asked _ hask
    rw [g.replace_libraryPath o (g.reachableFiles_subset o (by simp [reachableFiles, filesWith]))] at hmem
    exact hmem.resolve_left List.not_mem_nil
  -- one lighting file is always expanded, and then its rivals are not
  rw [← g.lightingPath_eq_sampled_iff o]
  constructor
  · intro hsampled
    exact h.eq_of_rivals hgroup hchosen hsampled (hamong _ (g.lightingPath_mem o)) List.mem_cons_self
  · intro heq
    exact heq ▸ hchosen

/-- A lit surface is expanded for a node that is one. -/
theorem exists_surface (h : g.Written o samples gr v e w s) {file : Text} (hfile : file ∈ e.files)
    (hsurface : file ∈ speakers Token.viewPosition) :
    ∃ n ∈ s.graph.nodes, n.implementation ∈ [.surface .rig, .surface .host] := by
  have hfixed : ∀ legacy : Bool, ∀ path ∈ lightingPaths legacy ++ [Path.mathematics, Path.transform,
      Path.flippedTransform, Path.lightRig, Path.hostLights],
      path ∈ libraryPaths ∧ path ∉ speakers Token.viewPosition := by decide
  have hrequests : ∀ path ∈ libraryPaths,
      requests path ⊆ [Token.fileTransform, Path.lightRig, Path.hostLights] := by decide
  have hown : ∀ i ∈ Implementation.known, ∀ path ∈ i.sourcePath?, path ∈ speakers Token.viewPosition →
      i ∈ [Implementation.surface .rig, .surface .host] := by decide
  have hother : ∀ {path}, path ∈ lightingPaths g.api.isLegacy ++ [Path.mathematics, Path.transform,
      Path.flippedTransform, Path.lightRig, Path.hostLights] →
      (g.finalTokens o).replace path ∉ speakers Token.viewPosition := by
    intro path hpath
    obtain ⟨hlibrary, hsilent⟩ := hfixed _ path hpath
    rwa [g.replace_libraryPath o hlibrary]
  rcases h.expands.origin file hfile with ⟨path, hask, rfl⟩ | ⟨parent, hparent, source, hread, path, hask, rfl⟩
  · rcases ask_cases hask with rfl | rfl | ⟨n, hn, hpath⟩
    · exact absurd hsurface (hother (List.mem_append_right _ (by decide)))
    · exact absurd hsurface (hother (List.mem_append_left _ (g.lightingPath_mem o)))
    · have hknown := (known_of_standsFor h.finished.created.nodes n hn).1
      rw [(g.finalTokens_hosted o).replace_of_quiet (Implementation.quiet_sourcePath hknown hpath)] at hsurface
      exact ⟨n, hn, hown _ hknown path hpath hsurface⟩
  · -- files ask for lights and for the file transform, never for a surface
    have hlibrary := g.reachableFiles_subset o (h.files_subset hparent)
    have hpath : path ∈ SearchPath.standard.askedBy parent := (SearchPath.mem_askedBy_iff hread).mpr hask
    rw [SearchPath.standard_texts.2.2.1 parent hlibrary] at hpath
    rcases List.mem_cons.mp (hrequests parent hlibrary hpath) with rfl | hlights
    · rw [g.replace_fileTransform o] at hsurface
      exact absurd hsurface (hfixed true _ (List.mem_append_right _ (List.mem_cons_of_mem _
        (List.mem_append_left [Path.lightRig, Path.hostLights] (transformPath_mem o))))).2
    · exact absurd hsurface (hother (List.mem_append_right _ (List.mem_cons_of_mem _ (List.mem_cons_of_mem _
        (List.mem_cons_of_mem _ hlights)))))

end Written

/-! ## The uniforms of the host -/

/-- Light adds no hidden uniforms beyond those of the environment. -/
theorem hidden_lit (g : FragmentGenerator) (o : Options) (graph : ShaderGraph) (v : Inventory) :
    (g.lit o graph v).hidden = (Shader.withEnvironment o graph v).hidden := by
  rw [lit]
  split <;> rfl

/-- What holds of the uniforms that nodes ask for and of those of the environment holds of all. -/
theorem forall_hidden_lit {P : Port → Prop} (g : FragmentGenerator) (o : Options) (graph : ShaderGraph)
    {v : Inventory} (hown : ∀ p ∈ v.hidden, P p) (henvironment : ∀ p ∈ Shader.lightingUniforms o, P p) :
    ∀ p ∈ (g.lit o graph v).hidden, P p := by
  rw [hidden_lit, Shader.withEnvironment]
  split
  · rw [Inventory.withHidden]
    exact Port.forall_foldl_addTo hown henvironment
  · exact hown

/-- The names of the uniforms of the environment are added for graphs that take light. -/
theorem names_hidden_lit (g : FragmentGenerator) (o : Options) (graph : ShaderGraph) (v : Inventory)
    (x : Text) : x ∈ (g.lit o graph v).hidden.map Port.name ↔
      x ∈ v.hidden.map Port.name ∨
        graph.requiresLighting = true ∧ x ∈ (Shader.lightingUniforms o).map Port.name := by
  rw [hidden_lit, Shader.withEnvironment]
  split
  · next hlight => simp only [Inventory.withHidden, Port.name_mem_foldl_addTo, hlight, true_and]
  · next hdark => simp only [hdark, false_and, or_false, Bool.false_eq_true]

namespace Finished

variable {g : FragmentGenerator} {o : Options} {gr : Graph} {v : Inventory} {ps : Stage} {s : Shader}

/-- The private uniforms of a finished shader are the hidden ones of its inventory with light. -/
theorem privatePorts_eq (h : g.Finished o gr v ps s) : privatePorts ps = (g.lit o s.graph v).hidden := by
  rw [h.ports]
  rfl

/-- The uniforms of the host are those that nodes ask for, and those of the environment. -/
theorem mem_names_hidden_iff (h : g.Finished o gr v ps s) (x : Text) :
    x ∈ (privatePorts ps).map Port.name ↔
      (∃ n ∈ s.graph.nodes, x ∈ Inventory.hiddenNeeds n) ∨
        s.graph.requiresLighting = true ∧ x ∈ (Shader.lightingUniforms o).map Port.name := by
  obtain ⟨nodes, before, _, hnone, hfurnished⟩ := h.created.furnished
  have hnames := (Inventory.names_furnishAll nodes before x).2
  rw [hfurnished, hnone] at hnames
  rw [h.privatePorts_eq, g.names_hidden_lit, hnames, List.map_nil]
  simp only [List.not_mem_nil, false_or]

/-- A uniform of the host is called by its token, and is no 3 by 3 matrix. -/
theorem hidden_plain (h : g.Finished o gr v ps s) :
    ∀ p ∈ privatePorts ps, p.ident = p.name ∧ p.type ≠ .matrix33 := by
  rw [h.privatePorts_eq]
  refine g.forall_hidden_lit o s.graph (fun p hp => (h.created.hosted.hidden p hp).2) ?_
  rw [Shader.lightingUniforms]
  split <;> decide

/-- **The environment is among the uniforms of the host exactly if the graph takes light.** -/
theorem environment_mem_iff (h : g.Finished o gr v ps s) {token : Text} (htoken : token ∈ environmentTokens) :
    token ∈ (privatePorts ps).map Port.name ↔ s.graph.requiresLighting = true := by
  have hothers : ∀ token ∈ environmentTokens,
      token ∉ [HostNumber.time.token, HostNumber.frame.token, Token.viewPosition] := by decide
  have hneeds : ∀ n : ShaderNode,
      Inventory.hiddenNeeds n ⊆ [HostNumber.time.token, HostNumber.frame.token, Token.viewPosition] := by
    intro n
    rw [Inventory.hiddenNeeds]
    split
    · next k _ => cases k <;> decide
    · decide
    · exact List.nil_subset _
  have hlisted : environmentTokens ⊆ (Shader.lightingUniforms o).map Port.name := by
    rw [Shader.lightingUniforms, List.map_append]
    exact List.subset_append_of_subset_left _ (by decide)
  rw [h.mem_names_hidden_iff]
  constructor
  · rintro (⟨n, _, hn⟩ | ⟨hlight, _⟩)
    · exact absurd (hneeds n hn) (hothers token htoken)
    · exact hlight
  · exact fun hlight => Or.inr ⟨hlight, hlisted htoken⟩

end Finished
end FragmentGenerator

/-! ## Lines of the uniforms -/

/-- A text has a line: nothing, or the end of a line, is in front of it. -/
def Text.HasLine (t line : Text) : Prop :=
  ∃ before after : Text, t = before ++ line ++ "\n" ++ after ∧ (before = [] ∨ before.getLast? = some 10)

namespace FragmentParameter

theorem getLast?_uniformText (p : FragmentParameter) : p.uniformText.getLast? = some 10 := by
  rw [uniformText, List.getLast?_append]
  rfl

/-- The line of one uniform is a line of the text. -/
theorem hasLine_groupText {ps : List FragmentParameter} {p : FragmentParameter} (hp : p ∈ ps) {line : Text}
    (hline : p.uniformText = line ++ "\n") (rest : Text) : (groupText ps ++ rest).HasLine line := by
  obtain ⟨before, after, rfl⟩ := List.append_of_mem hp
  refine ⟨before.flatMap uniformText, after.flatMap uniformText ++ "\n" ++ rest, ?_, ?_⟩
  · rw [groupText, if_neg (List.append_ne_nil_of_right_ne_nil _ (List.cons_ne_nil _ _)), List.flatMap_append,
      List.flatMap_cons, hline]
    simp only [List.append_assoc]
  · rcases List.eq_nil_or_concat before with rfl | ⟨front, q, rfl⟩
    · exact Or.inl rfl
    · rw [List.concat_eq_append, List.flatMap_append, List.getLast?_append, List.flatMap_singleton,
        q.getLast?_uniformText]
      exact Or.inr rfl

end FragmentParameter

namespace FragmentGenerator

/-- The declaration of a uniform under the name that its token stands for. -/
def uniformDeclaration (ts : TokenTable) (p : Port) : Text :=
  "uniform " ++ p.type.glslName ++ " " ++ ts.replace p.ident ++ assignment p ++ ";"

namespace Finished

variable {g : FragmentGenerator} {o : Options} {gr : Graph} {v : Inventory} {ps us : Stage} {s : Shader}

/-- **Every uniform of the host is declared** by a line of the uniforms. -/
theorem hasLine_uniforms (h : g.Finished o gr v ps s) (hus : s.stage? uniformsStage = some us) {p : Port}
    (hp : p ∈ privatePorts ps) : us.code.HasLine (uniformDeclaration (g.finalTokens o) p) := by
  have hosted := g.finalTokens_hosted o
  obtain ⟨c, htokens⟩ : ∃ c : Context, c.tokens = some (g.finalTokens o) :=
    ⟨g.writingContext o .absent (g.finalTokens o), rfl⟩
  have htoken := h.clean.hidden p (h.privatePorts_eq ▸ hp)
  have htype := (h.hidden_plain p hp).2
  have hline : (Fragment.parameterOf c true p).uniformText = uniformDeclaration (g.finalTokens o) p ++ "\n" := by
    -- tokens are no samplers, so no alias of a texture is in the line
    have hnone : ∀ token ∈ Token.standard.tokens, Sampler.texture token = [] := by decide
    have halias : (Fragment.parameterOf c true p).aliasText = [] := by
      rw [FragmentParameter.aliasText, Fragment.portIdent_parameterOf, Context.resolve_of_tokens htokens,
        Sampler.texture_eq_nil_iff.mp (((g.keepsTexture_token o htoken).same).trans (hnone _ htoken))]
      rfl
    have hargument : (Fragment.parameterOf c true p).argumentText =
        p.type.glslName ++ " " ++ (g.finalTokens o).replace p.ident := by
      simp only [FragmentParameter.argumentText, Fragment.parameterOf, if_neg htype, List.append_nil,
        Context.resolve_of_tokens htokens]
    have hend : Text.ofString ";\n" = Text.ofString ";" ++ Text.ofString "\n" := by decide
    rw [FragmentParameter.uniformText, halias, hargument, hend, uniformDeclaration, assignment]
    simp only [List.nil_append, List.append_assoc]
    rfl
  obtain ⟨_, hstage, hcode⟩ := h.uniforms
  obtain rfl := Option.some.inj (hus.symm.trans hstage)
  rw [hcode, hosted.replace_uniformLines htokens true fun p hp => g.keepsTexture_token o (h.clean.hidden p hp)]
  exact FragmentParameter.hasLine_groupText
    (List.mem_map.mpr ⟨p, h.privatePorts_eq ▸ hp, rfl⟩) hline _

end Finished

/-- A token of the host is declared: it is one of the uniforms of the host, and a line declares it. -/
def Declares (ts : TokenTable) (ps us : Stage) (token : Text) : Prop :=
  ∃ p ∈ privatePorts ps, p.name = token ∧ p.ident = token ∧ us.code.HasLine (uniformDeclaration ts p)

namespace Written

variable {g : FragmentGenerator} {o : Options} {samples : SampleSetting} {gr : Graph} {v : Inventory}
  {e : Expansion} {w ps us : Stage} {s : Shader}

/-- The environment is spoken of exactly if it is sampled. -/
theorem environment_infix_iff (h : g.Written o samples gr v e w s) {token : Text}
    (htoken : token ∈ environmentTokens) : token <:+: w.code ↔ o.specular = .sampled := by
  have hspeaker : ∀ token ∈ environmentTokens, speakers token = [Path.lightingSampled] := by decide
  rw [← h.lightingSampled_mem_files_iff]
  constructor
  · intro hin
    by_contra hsilent
    refine h.not_infix_code (List.mem_cons_of_mem _ htoken) (fun file hfile hspeaks => ?_) hin
    rw [hspeaker token htoken, List.mem_singleton] at hspeaks
    exact hsilent (hspeaks ▸ hfile)
  · intro hfile
    obtain ⟨step, hstep, hin⟩ := SearchPath.standard_texts.2.2.2.2.1 token htoken
    rw [h.code]
    exact (hin.trans (h.expands.text_infix _ hfile step hstep)).trans (List.prefix_append _ _).isInfix

/-- Where the view is spoken of, it is among the uniforms of the host. -/
theorem viewPosition_mem (h : g.Written o samples gr v e w s) (hps : s.stage? pixelStage = some ps)
    (hin : Token.viewPosition <:+: w.code) : Token.viewPosition ∈ (privatePorts ps).map Port.name := by
  obtain rfl := Option.some.inj (hps.symm.trans h.finished.pixel)
  by_cases hspeaks : ∃ file ∈ e.files, file ∈ speakers Token.viewPosition
  · obtain ⟨file, hfile, hsurface⟩ := hspeaks
    obtain ⟨n, hn, hlit⟩ := h.exists_surface hfile hsurface
    refine (h.finished.mem_names_hidden_iff _).mpr (Or.inl ⟨n, hn, ?_⟩)
    rw [Inventory.hiddenNeeds]
    rcases List.mem_cons.mp hlit with hrig | hlit
    · rw [hrig]; exact List.mem_singleton_self _
    · rw [List.mem_singleton.mp hlit]; exact List.mem_singleton_self _
  · exact absurd hin (h.not_infix_code List.mem_cons_self fun file hfile hsurface =>
      hspeaks ⟨file, hfile, hsurface⟩)

/-- What is among the uniforms of the host is declared. -/
theorem declares_iff_mem (h : g.Written o samples gr v e w s) (hps : s.stage? pixelStage = some ps)
    (hus : s.stage? uniformsStage = some us) (token : Text) :
    Declares (g.finalTokens o) ps us token ↔ token ∈ (privatePorts ps).map Port.name := by
  obtain rfl := Option.some.inj (hps.symm.trans h.finished.pixel)
  constructor
  · rintro ⟨p, hp, hname, _⟩
    exact List.mem_map.mpr ⟨p, hp, hname⟩
  · intro hmem
    obtain ⟨p, hp, rfl⟩ := List.mem_map.mp hmem
    exact ⟨p, hp, rfl, (h.finished.hidden_plain p hp).1, h.finished.hasLine_uniforms hus hp⟩

/-- **When the uniforms that code speaks of are declared**: the view always is, and the environment exactly if
it is not sampled or the graph takes light. -/
theorem declares_iff (h : g.Written o samples gr v e w s) (hps : s.stage? pixelStage = some ps)
    (hus : s.stage? uniformsStage = some us) {token : Text} (htoken : token ∈ hostTokens) :
    (token <:+: w.code → Declares (g.finalTokens o) ps us token) ↔
      (token ∈ environmentTokens → o.specular = .sampled → s.graph.requiresLighting = true) := by
  have hview : Token.viewPosition ∉ environmentTokens := by decide
  rw [h.declares_iff_mem hps hus]
  rcases List.mem_cons.mp htoken with rfl | henvironment
  · exact ⟨fun _ hmem => absurd hmem hview, fun _ hin => h.viewPosition_mem hps hin⟩
  · obtain rfl := Option.some.inj (hps.symm.trans h.finished.pixel)
    rw [h.environment_infix_iff henvironment, h.finished.environment_mem_iff henvironment]
    exact ⟨fun himplies _ => himplies, fun himplies => himplies henvironment⟩

end Written

/-- **The uniforms of the host that code speaks of are declared**, by a port and by a line of the uniforms,
except for the environment where it is sampled and the graph takes no light. -/
theorem host_tokens_declared_iff {g : FragmentGenerator} {name : Text} {graph : Option Graph} {o : Options}
    {samples : SampleSetting} {s : Shader}
    (h : (g.generate name graph (g.contextWith o samples)).1 = .ok s) :
    ∃ w ps us, g.writtenPixel name graph (g.contextWith o samples) = .ok w ∧
      finish w (g.finalTokens o) = .ok ps ∧ s.stage? pixelStage = some ps ∧
      s.stage? uniformsStage = some us ∧
      ∀ token ∈ hostTokens, (token <:+: w.code → Declares (g.finalTokens o) ps us token) ↔
        (token ∈ environmentTokens → o.specular = .sampled → s.graph.requiresLighting = true) := by
  obtain ⟨gr, _, v, e, w, hw, hwritten⟩ := written_of_generate h
  obtain ⟨us, hus, _⟩ := hwritten.finished.uniforms
  exact ⟨w, _, us, hw, hwritten.finish_eq, hwritten.finished.pixel, hus,
    fun token htoken => hwritten.declares_iff hwritten.finished.pixel hus htoken⟩

set_option maxRecDepth 2000 in
/-- The textured surface takes light, so all that its code speaks of is declared. -/
theorem host_tokens_declared_iff_textured : ∃ s w ps us,
    (standard.generate "lit" (some texturedGraph) (standard.contextWith .standard .absent)).1 = .ok s ∧
      standard.writtenPixel "lit" (some texturedGraph) (standard.contextWith .standard .absent) = .ok w ∧
      s.stage? pixelStage = some ps ∧ s.stage? uniformsStage = some us ∧
      ∀ token ∈ hostTokens, token <:+: w.code → Declares (standard.finalTokens .standard) ps us token := by
  have hlit : (standard.createShader "lit" (some texturedGraph)
      (some (standard.contextWith .standard .absent))).toOption.map (·.graph.requiresLighting) = some true := rfl
  obtain ⟨made, v, _, _, hcreate, hs⟩ := exists_finalShader accepted_texturedGraph "lit" (o := .standard)
    (by decide) .absent
  rw [hcreate] at hlit
  obtain ⟨w, ps, us, hw, _, hps, hus, hdeclares⟩ := host_tokens_declared_iff hs
  exact ⟨_, w, ps, us, hs, hw, hps, hus, fun token htoken =>
    (hdeclares token htoken).mpr fun _ _ => Option.some.inj hlit⟩

/-- A graph without light. -/
def darkGraph : Graph := ⟨"G", [], [], ⟨"out", .color3, [], [], [], none⟩⟩

theorem accepted_darkGraph : darkGraph.Accepted standard.registry :=
  ⟨by decide, by decide, fun hconnected => absurd hconnected (by decide)⟩

/-- Without light, the environment is spoken of where it is sampled, and no uniform stands for it. -/
theorem environment_undeclared : ∃ s w ps,
    (standard.generate "S" (some darkGraph) (standard.contextWith .standard .absent)).1 = .ok s ∧
      standard.writtenPixel "S" (some darkGraph) (standard.contextWith .standard .absent) = .ok w ∧
      finish w (standard.finalTokens .standard) = .ok ps ∧ s.stage? pixelStage = some ps ∧
      ∀ token ∈ environmentTokens, token <:+: w.code ∧ token ∉ (privatePorts ps).map Port.name := by
  have hdark : (standard.createShader "S" (some darkGraph)
      (some (standard.contextWith .standard .absent))).toOption.map (·.graph.requiresLighting) = some false := rfl
  obtain ⟨made, v, _, _, hcreate, hs⟩ := exists_finalShader accepted_darkGraph "S" (o := .standard)
    (by decide) .absent
  rw [hcreate] at hdark
  obtain ⟨_, _, _, e, w, hw, hwritten⟩ := written_of_generate hs
  refine ⟨_, w, _, hs, hw, hwritten.finish_eq, hwritten.finished.pixel, fun token htoken => ⟨?_, ?_⟩⟩
  · exact (hwritten.environment_infix_iff htoken).mpr rfl
  · rw [hwritten.finished.environment_mem_iff htoken]
    exact fun hlight => Bool.false_ne_true ((Option.some.inj hdark).symm.trans hlight)

end FragmentGenerator
end ShadeGraph
