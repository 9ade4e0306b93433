/-
  The finished texts have neither tokens nor include lines.

  All text in front of the root function is tidy by the way it is written (`Stage.Grown`), and the root
  function is tidy because it is sound (`Finished.sound_root`).  What is left is the uniforms, whose names are
  tokens of the host or were chosen by the generator.  Replacing the tokens of a tidy text leaves no token and
  no include line.
-/
import ShadeGraph.Proofs.SoundText

namespace ShadeGraph

namespace FragmentGenerator
namespace Finished

variable {g : FragmentGenerator} {o : Options} {gr : Graph} {v : Inventory} {ps : Stage} {s : Shader}

/-- All code of the pixel stage is tidy before its tokens are replaced. -/
theorem pixel_tidy (h : g.Finished o gr v ps s) :
    ∃ t : Text, t.tidy = true ∧ ps.code = (g.finalTokens o).replace t := by
  have hosted := g.finalTokens_hosted o
  obtain ⟨front, hfront, hcode⟩ := h.code
  have hroot := (h.sound_root o.transparency).tidy Token.spoken_subset
  have hline := Text.tidy_append (by decide : Text.tidy [10] = true) hroot
  refine ⟨front ++ 10 :: (g.root o.transparency s.graph ps.functionName ps).text,
    Text.tidy_append hfront hline, ?_⟩
  rw [hosted.replace_wall (by decide) (by decide), hosted.replace_text]
  exact hcode

/-! ## Uniforms -/

theorem quiet_texture {name : Text} (h : name.Quiet) : (Sampler.texture name).Quiet := by
  rw [Sampler.texture]
  split
  · exact fun b hb => h b (List.mem_of_mem_drop (List.mem_of_mem_take hb))
  · decide

/-- The line of a uniform is tidy if its name and that of its texture are harmless. -/
theorem tidy_uniformLine {p : Port} (hident : p.ident.Sober Token.standard.tokens)
    (htexture : (Sampler.texture p.ident).Quiet) : (uniformLine p).tidy = true := by
  have htidy := hident.sound.tidy (List.Subset.refl _)
  have hdeclaration := (Port.sober_declaration hident (by decide : Glsl.uniformQualifier.Calm) true).sound.tidy
    (List.Subset.refl _)
  have hdefine : Text.tidy (if Sampler.texture p.ident = [] then []
      else Glsl.define p.ident (Sampler.texture p.ident)) = true := by
    split
    · rfl
    · exact Text.tidy_append (Text.tidy_append (Text.tidy_append (Text.tidy_append (by decide)
        htidy) (by decide)) htexture.tidy) (by decide)
  exact Text.tidy_append (Text.tidy_append hdefine hdeclaration) (by decide)

theorem tidy_uniformLines {ports : List Port} (h : ∀ p ∈ ports, (uniformLine p).tidy = true) :
    (uniformLines ports).tidy = true := by
  rw [uniformLines]
  split
  · rfl
  · exact Text.tidy_append (Text.tidy_flatMap h) (by decide)

/-- All code of the other stage is tidy before its tokens are replaced. -/
theorem uniforms_tidy (h : g.Finished o gr v ps s) : ∃ us, s.stage? uniformsStage = some us ∧
    ∃ t : Text, t.tidy = true ∧ us.code = (g.finalTokens o).replace t := by
  have htokens : ∀ token ∈ Token.standard.tokens, token.Sober Token.standard.tokens ∧
      (Sampler.texture token).Quiet := by
    decide
  obtain ⟨us, hus, hcode⟩ := h.uniforms
  have hhidden := tidy_uniformLines fun p hp =>
    tidy_uniformLine (htokens p.ident (h.clean.hidden p hp)).1 (htokens p.ident (h.clean.hidden p hp)).2
  have hpublished := tidy_uniformLines fun p hp =>
    tidy_uniformLine (h.clean.published p hp).sober (quiet_texture (h.clean.published p hp).quiet)
  exact ⟨us, hus, _, Text.tidy_append hhidden hpublished, hcode⟩

end Finished

/-- **Generated code has neither tokens nor include lines**: in both stages, no dollar sign is left, and no
`#include`. -/
theorem generated_text_clean {g : FragmentGenerator} {name : Text} {graph : Option Graph} {o : Options}
    {samples : SampleSetting} {s : Shader}
    (h : (g.generate name graph (g.contextWith o samples)).1 = .ok s) :
    ∀ stage ∈ [pixelStage, uniformsStage], ∃ st, s.stage? stage = some st ∧
      Library.tokenMark ∉ st.code ∧ ¬ Source.includeWord <:+: st.code := by
  obtain ⟨gr, _, v, ps, hfinished⟩ := finished_of_generate h
  obtain ⟨t, ht, hps⟩ := hfinished.pixel_tidy
  obtain ⟨us, hstage, u, hu, hus⟩ := hfinished.uniforms_tidy
  have hosted := g.finalTokens_hosted o
  refine List.forall_mem_cons.mpr ⟨⟨ps, hfinished.pixel, ?_⟩, List.forall_mem_singleton.mpr ⟨us, hstage, ?_⟩⟩
  · rw [hps]
    exact hosted.replace_tidy ht
  · rw [hus]
    exact hosted.replace_tidy hu

/-- A graph with a lit surface and a texture, whose names hold what must not get into code. -/
def hostileGraph : Graph :=
  ⟨"G", [⟨"$vd #include", .color3, none⟩],
    [⟨"$i", "ND_image_color3", .color3, [], []⟩,
      ⟨"#include", "ND_add_color3", .color3,
        [⟨"in1", .color3, none, "$i", [], []⟩, ⟨"in2", .color3, none, [], [], "$vd #include"⟩], []⟩],
    ⟨"out", .color3, "#include", [], [], none⟩⟩

theorem generated_text_clean_hostile : ∃ s,
    (standard.generate "$x" (some hostileGraph) (standard.contextWith .standard .absent)).1 = .ok s ∧
      ∀ stage ∈ [pixelStage, uniformsStage], ∃ st, s.stage? stage = some st ∧
        Library.tokenMark ∉ st.code ∧ ¬ Source.includeWord <:+: st.code := by
  have haccepted : hostileGraph.Accepted standard.registry :=
    ⟨by decide, by decide, fun _ => ⟨⟨"out", .color3⟩, by decide, rfl⟩⟩
  have hmethod : Options.standard.specular ∈ litMethods := by decide
  obtain ⟨_, _, _, _, _, hs⟩ := exists_finalShader haccepted "$x" hmethod .absent
  exact ⟨_, hs, generated_text_clean hs⟩

end FragmentGenerator
end ShadeGraph
