/-
  The number of lights in generated code.

  1. A text `Defines` a name as an integer if the definition stands in it, and wherever one of that name stands,
     it is of that integer.  So no other integer is defined (`Defines.iff_eq`), and a definition between texts
     whose directives are others is the only one (`defines_between`).
  2. In front of the definition of the number of lights there are no directives at all.  Behind it are those of
     types, of sampling and of library files, which are all others (`Written.exists_rest`); the root function
     has none.
  3. Replacing tokens keeps directives as they are, so the pixel stage defines what was written
     (`Written.defines_lights`).  That is the number as a signed word: from `2 ^ 63` on it is negative
     (`activeLights_toInt`).
-/
import ShadeGraph.Proofs.HostUniforms
import ShadeGraph.Proofs.PointedText
import ShadeGraph.Proofs.TomlSection

namespace ShadeGraph

/-! ## Definitions of integers -/

namespace Text

/-- What a definition of a name starts with. -/
def definitionStart (name : Text) : Text := "#define " ++ name ++ " "

/-- A text defines a name as an integer: a definition of the name stands in it, and each is of that integer, with
the end of the line behind it. -/
def Defines (t name : Text) (n : Int) : Prop :=
  definitionStart name <:+: t ∧
    ∀ before after, t = before ++ definitionStart name ++ after → ∃ rest, after = ofInt n ++ 10 :: rest

variable {words : List Text} {before after name t : Text} {m n : Int}

theorem newline_notMem_ofInt : ∀ n : Int, 10 ∉ ofInt n
  | .ofNat n => fun h => absurd (isDigit_of_mem_ofNat h) (by decide)
  | .negSucc n => fun h => absurd (isDigit_of_mem_ofNat ((List.mem_cons.mp h).resolve_left (by decide)))
      (by decide)

/-- An integer that a line ends with can be read off. -/
theorem eq_of_ofInt_line {rest rest' : Text} (h : ofInt m ++ 10 :: rest = ofInt n ++ 10 :: rest') : m = n := by
  have hlines := congrArg (splitOn 10) h
  rw [splitOn_append, splitOn_append, splitOn_of_not_mem (newline_notMem_ofInt m),
    splitOn_of_not_mem (newline_notMem_ofInt n)] at hlines
  exact ofInt_inj.mp (List.cons.inj hlines).1

/-- No other integer is defined. -/
theorem Defines.iff_eq (h : t.Defines name n) : t.Defines name m ↔ m = n := by
  refine ⟨fun hm => ?_, fun heq => heq ▸ h⟩
  obtain ⟨before, after, ht⟩ := h.1
  obtain ⟨rest, hrest⟩ := h.2 before after ht.symm
  obtain ⟨rest', hrest'⟩ := hm.2 before after ht.symm
  exact eq_of_ofInt_line (hrest'.symm.trans hrest)

theorem hash_notMem_definition (hname : hash ∉ name) (n : Int) :
    hash ∉ Text.ofString "define " ++ name ++ Text.ofString " " ++ ofInt n := by
  simp only [List.mem_append, not_or]
  exact ⟨⟨⟨by decide, hname⟩, by decide⟩, (calm_ofInt n).quiet.bare⟩

/-- **The only definition** of a name, if all directives on both sides of it are others. -/
theorem defines_between (hbefore : marked hash words before = true) (hafter : marked hash words after = true)
    (hname : hash ∉ name) (n : Int) (hother : ∀ w ∈ words,
      w.isPrefixOf (definitionStart name) = false ∧ (definitionStart name).isPrefixOf w = false) :
    Defines (before ++ definitionStart name ++ ofInt n ++ 10 :: after) name n := by
  have hstart : (definitionStart name).head? = some hash := rfl
  constructor
  · exact ⟨before, ofInt n ++ 10 :: after, by simp only [List.append_assoc]⟩
  intro front back hsplit
  rw [List.append_assoc, List.append_assoc] at hsplit
  obtain ⟨mid, rfl, hrest⟩ := exists_behind hbefore hstart hother hsplit
  cases mid with
  | nil =>
    rw [List.nil_append] at hrest
    exact ⟨after, (List.append_cancel_left hrest).symm⟩
  | cons b mid =>
    -- one more definition would stand where no number sign or only other directives are
    exfalso
    have hbehind : marked hash words (10 :: after) = true := marked_append (s := [10]) rfl hafter
    have hquiet : marked hash words (Text.ofString "define " ++ name ++ Text.ofString " " ++ ofInt n) = true :=
      marked_of_not_mem (hash_notMem_definition hname n)
    refine not_infix_of_marked (marked_append hquiet hbehind) hstart hother ⟨mid, back, ?_⟩
    have htail : mid ++ definitionStart name ++ back =
        Text.ofString "define " ++ name ++ Text.ofString " " ++ (ofInt n ++ 10 :: after) :=
      (List.cons.inj hrest).2.symm
    rw [htail, ← List.append_assoc]

end Text

/-! ## The definition of the number of lights -/

/-- The number of lights as a signed word: at least one, and negative from `2 ^ 63` on. -/
theorem Options.activeLights_toInt (o : Options) : o.activeLights.toInt64.toInt =
    if o.lights.toNat < 2 ^ 63 then max 1 (o.lights.toNat : Int) else (o.lights.toNat : Int) - 2 ^ 64 := by
  have hbound := o.lights.toNat_lt
  have hactive : o.activeLights.toNat = max 1 o.lights.toNat := by
    rw [activeLights]
    split
    · next hless =>
      rw [UInt64.lt_iff_toNat_lt] at hless
      have hless : o.lights.toNat < 1 := hless
      show 1 = _
      omega
    · next hmore =>
      rw [UInt64.lt_iff_toNat_lt] at hmore
      have hmore : ¬ o.lights.toNat < 1 := hmore
      omega
  show o.activeLights.toBitVec.toInt = _
  rw [BitVec.toInt_eq_toNat_cond, UInt64.toNat_toBitVec, hactive]
  split <;> split <;> push_cast <;> omega

namespace FragmentGenerator

/-- The directive of a definition is one of the others if its start is listed among them. -/
theorem marked_definitionText {name : Text} (hname : name.Calm)
    (hstart : Text.ofString "#define " ++ name ∈ otherDirectives) (n : Int64) :
    Text.marked Text.hash otherDirectives (definitionText name n) = true := by
  have hquiet := Text.hash_notMem_definition hname.quiet.bare n.toInt
  have hprefix : Text.ofString "#define " ++ name <+: definitionText name n := by
    rw [definitionText, List.append_assoc, List.append_assoc]
    exact List.prefix_append _ _
  exact Text.marked_cons.mpr ⟨fun _ => ⟨_, hstart, hprefix⟩, Text.marked_append (Text.marked_of_not_mem hquiet) rfl⟩

/-- What stands in front of the lighting code defines other names. -/
theorem marked_lightingOpening (o : Options) (samples : SampleSetting) :
    Text.marked Text.hash otherDirectives (lightingOpening o samples) = true := by
  rw [lightingOpening]
  split
  · exact Text.marked_append (marked_definitionText (by decide) (by decide) _)
      (marked_definitionText (by decide) (by decide) _)
  · rfl

namespace Written

variable {g : FragmentGenerator} {o : Options} {samples : SampleSetting} {gr : Graph} {v : Inventory}
  {e : Expansion} {w : Stage} {s : Shader}

/-- Behind the definition of the number of lights there are other directives only. -/
theorem exists_rest (h : g.Written o samples gr v e w s) : ∃ rest,
    w.code = vertexStructure (vertexPorts w) ++ definitionText "MAX_LIGHT_SOURCES" o.activeLights.toInt64 ++ rest ∧
      Text.marked Text.hash otherDirectives rest = true := by
  have hconstants : Text.marked Text.hash otherDirectives (constantLines w.constants.ports) = true :=
    have hsober : (constantLines w.constants.ports).Sober [] := sober_constantLines h.sober_ports.2
    Text.marked_of_not_mem hsober.bare
  have hroot := (h.finished.sober_root o.transparency).bare
  have htypes : Text.marked Text.hash otherDirectives (Stage.typeDefinitions ++ [10]) = true := by decide +kernel
  obtain ⟨d, rfl, hd⟩ : ∃ d, e = .text (opening o (vertexPorts w) w.constants.ports) d ∧
      Expands .standard (g.finalTokens o) [] (g.frontSteps o samples w s.graph.nodes).tail d := by
    have hexpands := h.expands
    cases hexpands with
    | write hrest => exact ⟨_, rfl, hrest⟩
  -- The other steps write no directive but those of lighting, and each file was checked.
  have hrest : Text.marked Text.hash otherDirectives d.code = true := by
    refine hd.code_induction (P := fun t => Text.marked Text.hash otherDirectives t = true) rfl
      Text.marked_append (fun step hstep => ?_) fun file hfile => ?_
    · have hline : Text.marked Text.hash otherDirectives [10] = true := rfl
      rcases List.mem_append.mp hstep with hstep | hstep
      · simp only [List.mem_cons, List.not_mem_nil, or_false] at hstep
        rcases hstep with rfl | rfl | rfl | rfl
        · rfl
        · exact Text.marked_append hline (marked_lightingOpening o samples)
        · rfl
        · exact hline
      · cases step with
        | ask path => rfl
        | write t => exact eq_of_write_mem hstep ▸ hline
    · exact SearchPath.standard_texts.2.2.2.2.2 file
        (g.reachableFiles_subset o (h.files_subset hfile))
  refine ⟨Stage.typeDefinitions ++ [10] ++ constantLines w.constants.ports ++ d.code ++
    (g.root o.transparency s.graph w.functionName w).text, ?_, ?_⟩
  · rw [h.code, Expansion.code, opening]
    simp only [List.append_assoc]
  · exact Text.marked_append (Text.marked_append (Text.marked_append htypes hconstants) hrest)
      (Text.marked_of_not_mem hroot)

/-- **The pixel stage defines the number of lights**, as a signed word, once its tokens are replaced. -/
theorem defines_lights (h : g.Written o samples gr v e w s) :
    ((g.finalTokens o).replace w.code).Defines "MAX_LIGHT_SOURCES" o.activeLights.toInt64.toInt := by
  have hosted := g.finalTokens_hosted o
  have hkept : ∀ t, Text.marked Text.hash otherDirectives t = true →
      Text.marked Text.hash otherDirectives ((g.finalTokens o).replace t) = true := fun t =>
    TokenTable.marked_substitute hosted.mark (fun r hr => (hosted.clean r hr).bare) (by decide) t 0
  obtain ⟨rest, hcode, hrest⟩ := h.exists_rest
  have hfront := (sober_vertexStructure h.sober_ports.1).bare
  generalize vertexStructure (vertexPorts w) = front at hcode hfront
  generalize o.activeLights.toInt64 = n at hcode
  -- number signs and line feeds are walls, and there is nothing to replace between them
  have hquiet : Text.Quiet (Text.ofString "define MAX_LIGHT_SOURCES " ++ Text.ofInt n.toInt ++ [10]) :=
    (Text.Quiet.append (by decide) (Text.calm_ofInt _).quiet).append (by decide)
  have hwalls : w.code = front ++
      Text.hash :: (Text.ofString "define MAX_LIGHT_SOURCES " ++ Text.ofInt n.toInt ++ [10] ++ 10 :: rest) := by
    rw [hcode, definitionText]
    simp only [List.append_assoc]
    rfl
  have hreplace : (g.finalTokens o).replace w.code =
      (g.finalTokens o).replace front ++ Text.definitionStart "MAX_LIGHT_SOURCES" ++ Text.ofInt n.toInt ++
        10 :: (10 :: (g.finalTokens o).replace rest) := by
    rw [hwalls, hosted.replace_wall (by decide) (by decide), hosted.replace_wall (by decide) (by decide),
      hosted.replace_of_quiet hquiet]
    simp only [List.append_assoc]
    rfl
  have hbehind : Text.marked Text.hash otherDirectives (10 :: (g.finalTokens o).replace rest) = true :=
    Text.marked_append (s := [10]) rfl (hkept rest hrest)
  rw [hreplace]
  exact Text.defines_between (hkept front (Text.marked_of_not_mem hfront)) hbehind (by decide) _ (by decide)

end Written

/-- **How many lights generated code handles.**  The pixel stage defines one number of lights, and no other: what
the options ask for, at least one, up to `2 ^ 63`; from there on the signed word of the same bits, which is
negative. -/
theorem light_limit_defined {g : FragmentGenerator} {name : Text} {graph : Option Graph} {o : Options}
    {samples : SampleSetting} {s : Shader}
    (h : (g.generate name graph (g.contextWith o samples)).1 = .ok s) :
    ∃ ps, s.stage? pixelStage = some ps ∧
      (∀ n, ps.code.Defines "MAX_LIGHT_SOURCES" n ↔
        n = if o.lights.toNat < 2 ^ 63 then max 1 (o.lights.toNat : Int) else (o.lights.toNat : Int) - 2 ^ 64) ∧
      (ps.code.Defines "MAX_LIGHT_SOURCES" (max 1 (o.lights.toNat : Int)) ↔ o.lights.toNat < 2 ^ 63) ∧
      ((∃ n ≥ 1, ps.code.Defines "MAX_LIGHT_SOURCES" n) ↔ o.lights.toNat < 2 ^ 63) := by
  obtain ⟨gr, _, v, e, w, _, hwritten⟩ := written_of_generate h
  have hdefines := hwritten.defines_lights
  rw [o.activeLights_toInt] at hdefines
  have hbound := o.lights.toNat_lt
  refine ⟨_, hwritten.finished.pixel, fun n => hdefines.iff_eq, ?_, ?_⟩
  · rw [hdefines.iff_eq]
    split <;> omega
  · simp only [hdefines.iff_eq, exists_eq_right]
    split <;> omega

/-- Without lights in the options, the code of a lit surface handles one. -/
theorem light_limit_defined_none : ∃ s ps,
    (standard.generate "lit" (some texturedGraph)
      (standard.contextWith { Options.standard with lights := 0 } .absent)).1 = .ok s ∧
    s.stage? pixelStage = some ps ∧ ps.code.Defines "MAX_LIGHT_SOURCES" 1 := by
  obtain ⟨_, _, _, _, _, hs⟩ := exists_finalShader accepted_texturedGraph "lit"
    (o := { Options.standard with lights := 0 }) (by decide) .absent
  obtain ⟨ps, hps, hdefines, _⟩ := light_limit_defined hs
  exact ⟨_, ps, hs, hps, (hdefines 1).mpr rfl⟩

/-- The options that ask for `2 ^ 63` lights. -/
def brightOptions : Options := { Options.standard with lights := 0x8000000000000000, specular := .off }

/-- From `2 ^ 63` lights on, the code is told of a negative number. -/
theorem light_limit_negative : ∃ s ps,
    (standard.generate "S" (some darkGraph) (standard.contextWith brightOptions .absent)).1 = .ok s ∧
    s.stage? pixelStage = some ps ∧ ps.code.Defines "MAX_LIGHT_SOURCES" (-0x8000000000000000) ∧
    ¬ ps.code.Defines "MAX_LIGHT_SOURCES" 0x8000000000000000 := by
  obtain ⟨_, _, _, _, _, hs⟩ := exists_finalShader accepted_darkGraph "S" (o := brightOptions) (by decide) .absent
  obtain ⟨_, _, _, _, _, _, hwritten⟩ := written_of_generate hs
  have hdefines := hwritten.defines_lights
  have hnegative : brightOptions.activeLights.toInt64.toInt = -0x8000000000000000 := by decide
  rw [hnegative] at hdefines
  exact ⟨_, _, hs, hwritten.finished.pixel, hdefines, fun h => absurd (hdefines.iff_eq.mp h) (by decide)⟩

end FragmentGenerator
end ShadeGraph
