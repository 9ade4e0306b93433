/-
  The code of the pixel stage before its tokens are replaced.

  1. Each piece of the preamble writes one text, which depends on the ports of the stage and on the options
     alone (`opening`, `lightingOpening`).  Between the texts, and for the functions of the nodes, library
     files are asked for.  `frontSteps` lists all of it, in order.
  2. The preamble and the functions perform these steps (`writePreamble_performs`,
     `defineFunctions_performs`), and all that they write by themselves is sound (`Written.sound_writes`).
  3. So the pixel stage of whatever is generated is, up to its tokens, the expansion of `frontSteps` with the
     root function behind it (`written_of_generate`).
-/
import ShadeGraph.Proofs.ContextReuse
import ShadeGraph.Proofs.Expansion
import ShadeGraph.Proofs.SoundText

namespace ShadeGraph
namespace FragmentGenerator

/-! ## Texts of the preamble -/

/-- Everything in front of shared code: vertex data, the number of lights, types and constants. -/
def opening (o : Options) (vertex constants : List Port) : Text :=
  vertexStructure vertex ++ definitionText "MAX_LIGHT_SOURCES" o.activeLights.toInt64 ++
    (Stage.typeDefinitions ++ [10]) ++ constantLines constants

/-- What stands in front of the lighting code: the numbers that sampling needs. -/
def lightingOpening (o : Options) (samples : SampleSetting) : Text :=
  if o.specular = .sampled then
    definitionText "DIRECTIONAL_ALBEDO_METHOD" o.albedo.code ++
      definitionText "MX_NUM_FIS_SAMPLES" (samples.count?.getD defaultSamples)
  else []

/-- What stands in front of shared code is sound, if the names of vertex data and constants are harmless. -/
theorem sound_opening (o : Options) {vertex constants : List Port}
    (hvertex : ∀ p ∈ vertex, p.ident.Sober Token.spoken) (hconstants : ∀ p ∈ constants, p.ident.Calm) :
    (opening o vertex constants).Sound Token.spoken := by
  have hline : Text.Calm [10] := by decide
  exact (((sober_vertexStructure hvertex).sound.append (sound_definitionText (by decide) _)).append
    (sound_typeDefinitions.append hline.sound)).append (sober_constantLines hconstants).sound

theorem sound_lightingOpening (o : Options) (samples : SampleSetting) :
    (lightingOpening o samples).Sound Token.spoken := by
  rw [lightingOpening]
  split
  · exact (sound_definitionText (by decide) _).append (sound_definitionText (by decide) _)
  · exact Text.Sound.nil

/-- The lighting code for the specular method. -/
def lightingPath (g : FragmentGenerator) (o : Options) : Text :=
  if o.specular = .sampled then Path.lightingSampled
  else if o.specular = .prefiltered then
    if g.api.isLegacy then Path.lightingLegacy else Path.lightingPrefiltered
  else Path.lightingOff

/-! ## Steps in front of the root function -/

/-- The steps that define the functions of nodes, one file for each implementation that has one. -/
def functionSteps : List ShaderNode → (defined : List Text) → List CodeStep
  | [], _ => []
  | n :: rest, defined =>
    if defined.contains n.implementation.name then functionSteps rest defined
    else
      (match n.implementation.sourcePath? with
        | none => []
        | some path => [.ask path, .write [10]]) ++ functionSteps rest (n.implementation.name :: defined)

/-- Behind each file of a function stands an empty line, and nothing else is written. -/
theorem eq_of_write_mem {t : Text} : ∀ {nodes : List ShaderNode} {defined : List Text},
    CodeStep.write t ∈ functionSteps nodes defined → t = [10] := by
  intro nodes
  induction nodes with
  | nil => intro defined h; cases h
  | cons n rest ih =>
    intro defined h
    rw [functionSteps] at h
    split at h
    · exact ih h
    · rcases List.mem_append.mp h with h | h
      · split at h
        · cases h
        · rcases List.mem_cons.mp h with h | h
          · cases h
          · exact CodeStep.write.inj (List.mem_singleton.mp h)
      · exact ih h

/-- The steps of the preamble. -/
def preambleSteps (g : FragmentGenerator) (o : Options) (samples : SampleSetting)
    (vertex constants : List Port) : List CodeStep :=
  [.write (opening o vertex constants), .ask Path.mathematics,
    .write ([10] ++ lightingOpening o samples), .ask (g.lightingPath o), .write [10]]

/-- All steps in front of the root function, for the ports of a stage and the nodes of a graph. -/
def frontSteps (g : FragmentGenerator) (o : Options) (samples : SampleSetting) (ps : Stage)
    (nodes : List ShaderNode) : List CodeStep :=
  g.preambleSteps o samples (vertexPorts ps) ps.constants.ports ++ functionSteps nodes []

section

variable {g : FragmentGenerator} {o : Options} {samples : SampleSetting} {ts : TokenTable}

/-- Including a file is a step that asks for it. -/
theorem includeCode_performs {path : Text} {s t : Stage}
    (h : includeCode (g.writingContext o samples ts) path s = .ok t) :
    Stage.Performs .standard ts [.ask path] s t := by
  rw [includeCode] at h
  split at h
  · next hexpand => exact Except.ok.inj h ▸ Context.expandWithin_performs rfl rfl hexpand
  · cases h

/-- Lighting code is the numbers it needs, and then a file that is asked for. -/
theorem writeLighting_performs {s t : Stage} (hclosed : s.Closed)
    (h : g.writeLighting (g.writingContext o samples ts) s = .ok t) :
    Stage.Performs .standard ts [.write (lightingOpening o samples), .ask (g.lightingPath o)] s t := by
  have hoptions : (g.writingContext o samples ts).options = o := rfl
  have hsamples : (g.writingContext o samples ts).samples = samples := rfl
  rw [writeLighting] at h
  simp only [hoptions, hsamples] at h
  rw [lightingOpening, lightingPath]
  by_cases hsampled : o.specular = .sampled
  · rw [if_pos hsampled, if_pos hsampled]
    rw [if_pos hsampled, writeDefine_eq _ _ hclosed, writeDefine_eq _ _ (hclosed.write _),
      Stage.write_write] at h
    exact (Stage.Performs.write s _).trans (includeCode_performs h)
  rw [if_neg hsampled, if_neg hsampled]
  rw [if_neg hsampled] at h
  have hnothing : Stage.Performs .standard ts [.write []] s s := by
    have hwrite : Stage.Performs .standard ts [.write []] s (s.write []) := Stage.Performs.write s []
    rwa [Stage.write_nil] at hwrite
  by_cases hprefiltered : o.specular = .prefiltered
  · rw [if_pos hprefiltered] at h ⊢
    exact hnothing.trans (includeCode_performs h)
  · rw [if_neg hprefiltered] at h ⊢
    split at h
    · exact hnothing.trans (includeCode_performs h)
    · cases h

/-- **The preamble performs its steps.** -/
theorem writePreamble_performs {s t : Stage} (hclosed : s.Closed) (hequipped : s.Equipped)
    (h : g.writePreamble (g.writingContext o samples ts) s = .ok t) :
    Stage.Performs .standard ts (g.preambleSteps o samples (vertexPorts s) s.constants.ports) s t := by
  have hoptions : (g.writingContext o samples ts).options = o := rfl
  obtain ⟨format, hformat, h⟩ := bind_eq_ok.mp h
  obtain ⟨style, hstyle, h⟩ := bind_eq_ok.mp h
  obtain rfl : FloatFormat.fixed = format := Except.ok.inj hformat
  obtain rfl : DeclarationStyle.fragment = style := Except.ok.inj hstyle
  obtain ⟨ports, hports, h⟩ := bind_eq_ok.mp h
  obtain rfl : vertexPorts s = ports := Except.ok.inj ((readVertex_eq hequipped).symm.trans hports)
  obtain ⟨_, hvertex, h⟩ := bind_eq_ok.mp h
  rw [writeVertexData_eq _ hclosed] at hvertex
  obtain rfl := Except.ok.inj hvertex
  obtain ⟨t₁, hmath, h⟩ := bind_eq_ok.mp h
  obtain ⟨t₂, hlighting, h⟩ := bind_eq_ok.mp h
  obtain rfl := Except.ok.inj h
  -- all that stands in front of shared code is one text
  have hopening : writeConstants .fragment .fixed (writeDefine "MAX_LIGHT_SOURCES" o.activeLights.toInt64
      (s.write (vertexStructure (vertexPorts s)))).defineTypes =
      s.write (opening o (vertexPorts s) s.constants.ports) := by
    rw [writeDefine_eq _ _ (hclosed.write _), Stage.defineTypes, Stage.newline, Stage.write_write,
      Stage.write_write, Stage.write_write, writeConstants_eq (hclosed.write _), Stage.write_write,
      opening]
    simp only [List.append_assoc]
    rfl
  rw [hoptions, hopening] at hmath
  have hopened : Stage.Performs .standard ts [.write (opening o (vertexPorts s) s.constants.ports)] s _ :=
    Stage.Performs.write s _
  have hfirst := hopened.trans (includeCode_performs hmath)
  have hline := hfirst.trans (Stage.Performs.write t₁ [10])
  have hlit := writeLighting_performs ⟨hline.depth.trans hclosed.depth, hline.scopes.trans hclosed.scopes⟩ hlighting
  -- the empty line behind shared code and the text in front of the lighting code are written as one
  have hbetween : Stage.Performs .standard ts
      [.write ([10] ++ lightingOpening o samples), .ask (g.lightingPath o)] t₁ t₂ := by
    obtain ⟨e, he, heq⟩ := hlit
    cases he with
    | write he =>
      exact ⟨.text _ _, .write he, by
        rw [heq]; simp [Stage.write, Stage.expanded, Expansion.code, Expansion.files]⟩
  exact (hfirst.trans hbetween).trans (Stage.Performs.write t₂ [10])

/-- **Defining the functions of nodes performs their steps.** -/
theorem defineFunctions_performs : ∀ (nodes : List ShaderNode) {defined : List Text} {s t : Stage},
    Shader.defineFunctions (g.writingContext o samples ts) nodes defined s = .ok t →
      Stage.Performs .standard ts (functionSteps nodes defined) s t := by
  intro nodes
  induction nodes with
  | nil =>
    intro defined s t h
    exact Except.ok.inj h ▸ Stage.Performs.refl s
  | cons n rest ih =>
    intro defined s t h
    rw [Shader.defineFunctions] at h
    rw [functionSteps]
    -- A function that is defined already takes no step.
    by_cases hdefined : defined.contains n.implementation.name = true
    · rw [if_pos hdefined] at h ⊢
      exact ih h
    · rw [if_neg hdefined] at h ⊢
      cases hemit : n.emitDefinition (g.writingContext o samples ts) s with
      | error f => simp only [hemit] at h; cases h
      | ok u =>
        simp only [hemit] at h
        refine Stage.Performs.trans ?_ (ih h)
        rw [ShaderNode.emitDefinition] at hemit
        cases hpath : n.implementation.sourcePath? with
        | none =>
          rw [hpath] at hemit
          exact Except.ok.inj hemit ▸ Stage.Performs.refl s
        | some path =>
          simp only [hpath] at hemit
          split at hemit
          · cases hemit
          · cases hexpand : (g.writingContext o samples ts).expandInclude path s with
            | error f => rw [hexpand] at hemit; cases hemit
            | ok u' =>
              rw [hexpand] at hemit
              obtain rfl := Except.ok.inj hemit
              exact (Context.expandWithin_performs rfl rfl hexpand).trans (Stage.Performs.write u' [10])

end

/-! ## The stage as it is written -/

/-- The pixel stage when all its code is written and its tokens are not replaced yet. -/
def writtenPixel (g : FragmentGenerator) (name : Text) (graph : Option Graph) (c : Context) :
    Except ShaderError Stage := (g.writePixel name graph c).1.map Prod.snd

/-- What is known of a generated shader, of its pixel stage `w` before tokens were replaced, and of the
expansion `e` in front of the root function. -/
structure Written (g : FragmentGenerator) (o : Options) (samples : SampleSetting) (gr : Graph)
    (v : Inventory) (e : Expansion) (w : Stage) (s : Shader) : Prop where
  expands : Expands .standard (g.finalTokens o) []
    (g.frontSteps o samples w s.graph.nodes) e
  stage : w = { (g.lit o s.graph v).pixel with
    code := w.code, functionName := w.functionName, includes := e.files.reverse }
  code : w.code = e.code ++ (g.root o.transparency s.graph w.functionName w).text
  finished : g.Finished o gr v { w with code := (g.finalTokens o).replace w.code, replaced := true } s

namespace Written

variable {g : FragmentGenerator} {o : Options} {samples : SampleSetting} {gr : Graph} {v : Inventory}
  {e : Expansion} {w : Stage} {s : Shader}

/-- Replacing the tokens of the written stage gives the stage of the shader. -/
theorem finish_eq (h : g.Written o samples gr v e w s) :
    finish w (g.finalTokens o) = .ok { w with code := (g.finalTokens o).replace w.code, replaced := true } :=
  FragmentGenerator.finish_eq g o (by rw [h.stage]; rfl)

/-- The names of the vertex data are sober, and those of the constants are calm. -/
theorem sober_ports (h : g.Written o samples gr v e w s) :
    (∀ p ∈ vertexPorts w, p.ident.Sober Token.spoken) ∧ ∀ p ∈ w.constants.ports, p.ident.Calm := by
  have hvertex : vertexPorts w = v.vertex := h.finished.vertexPorts_eq
  have hconstants : w.constants.ports = v.constants := h.finished.constants_eq
  rw [hvertex, hconstants]
  exact ⟨h.finished.created.clean.vertex, h.finished.created.clean.constants⟩

/-- All that is written in front of the root function, library files apart, is sound. -/
theorem sound_writes (h : g.Written o samples gr v e w s) {t : Text}
    (ht : CodeStep.write t ∈ g.frontSteps o samples w s.graph.nodes) : t.Sound Token.spoken := by
  have hline : Text.Sound Token.spoken [10] := by decide
  rcases List.mem_append.mp ht with ht | ht
  · simp only [preambleSteps, List.mem_cons, CodeStep.write.injEq, reduceCtorEq, false_or,
      List.not_mem_nil, or_false] at ht
    rcases ht with rfl | rfl | rfl
    · exact sound_opening o h.sober_ports.1 h.sober_ports.2
    · exact hline.append (sound_lightingOpening o samples)
    · exact hline
  · rw [eq_of_write_mem ht]
    exact hline

/-- The root function is sound as it is written. -/
theorem sound_root (h : g.Written o samples gr v e w s) :
    (g.root o.transparency s.graph w.functionName w).text.Sound Token.spoken :=
  h.finished.sound_root o.transparency

end Written

section

variable {g : FragmentGenerator} {name : Text} {graph : Option Graph} {o : Options}
  {samples : SampleSetting} {gr : Graph} {made : ShaderGraph} {v : Inventory} {front : Text}
  {includes : List Text}

/-- What is written in front of the root function is an expansion of its steps. -/
theorem Fronts.exists_expansion (h : g.Fronts o samples made v front includes) :
    ∃ e, Expands .standard (g.finalTokens o) [] (g.frontSteps o samples (g.lit o made v).pixel made.nodes) e ∧
      front ++ [10] = e.code ∧ includes = e.files.reverse := by
  obtain ⟨t, hpreamble, hfunctions⟩ := h
  -- the shared code is expanded with other tokens than the functions, but they do not matter to it
  rw [← g.writePreamble_finalTokens o samples] at hpreamble
  have hstart := writePreamble_performs (s := (g.lit o made v).pixel) ⟨rfl, rfl⟩
    (g.lit o made v).equipped_pixel hpreamble
  obtain ⟨e, hexpands, heq⟩ := hstart.trans (defineFunctions_performs made.nodes hfunctions)
  refine ⟨e, hexpands, congrArg Stage.code heq, ?_⟩
  rw [← List.append_nil e.files.reverse]
  exact congrArg Stage.includes heq

end

/-- **Whatever is generated was written**: an expansion of the steps, and the root function. -/
theorem written_of_generate {g : FragmentGenerator} {name : Text} {graph : Option Graph} {o : Options}
    {samples : SampleSetting} {s : Shader}
    (h : (g.generate name graph (g.contextWith o samples)).1 = .ok s) :
    ∃ gr ∈ graph, ∃ v e w, g.writtenPixel name graph (g.contextWith o samples) = .ok w ∧
      g.Written o samples gr v e w s := by
  rcases g.createShader_cases name graph o samples with
    ⟨gr, hgr, _, made, v, hcreated, hcreate⟩ | ⟨_, e, hcreate, _⟩
  · by_cases hmethod : o.specular ∈ litMethods
    · obtain ⟨front, includes, hfront, hfronts⟩ := exists_fronts hcreated hmethod samples
      obtain rfl := Except.ok.inj ((generate_of_fronts hcreated hcreate hfronts).symm.trans h)
      obtain ⟨e, hexpands, hcode, rfl⟩ := hfronts.exists_expansion
      have hwritten := congrArg (Except.map Prod.snd) (writePixel_of_fronts hcreated hcreate hfronts)
      refine ⟨gr, hgr, v, e, _, hwritten, hexpands, rfl, ?_, g.finished_of_created o name hcreated hfront _⟩
      rw [← hcode, rootedPixel, List.append_cons]
      rfl
    · rw [generate_error hcreated hcreate hmethod] at h
      cases h
  · rw [generate_of_createShader_error hcreate] at h
    cases h

end FragmentGenerator
end ShadeGraph
