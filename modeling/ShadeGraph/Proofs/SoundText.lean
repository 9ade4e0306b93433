/-
  The root function is sober.

  1. An operand of a node is a port that the node may read, a literal, or a text that its implementation
     holds; all of them are sober, so the statements of a node are (`ShaderNode.sober_statements`).
  2. The bindings and the return statements are sober.  A color puts texts with brackets around an expression,
     and these brackets fit each other.
  3. So the root function is sober, whatever the graph (`Finished.sober_root`): the only tokens in it are those
     that the generator speaks of, it has no directives, and it closes every bracket that it opens.
-/
import ShadeGraph.Proofs.Generation

namespace ShadeGraph

/-! ## Operands -/

/-- Sober operands make a sober text. -/
theorem Operand.sober_renderAll {words : List Text} {operands : List Operand}
    (h : ∀ a ∈ operands, (a.render .fixed).Sober words) : (renderAll .fixed operands).Sober words :=
  Text.Sober.flatMap h

namespace ShaderNode

variable {n : ShaderNode} {words : List Text}

/-- An operand is an identifier, a literal, or the text to fall back on. -/
theorem sober_operand (hsources : ∀ p ∈ n.sources, p.ident.Calm) (name : Text) {fallback : Text}
    (hfallback : fallback.Sober words) : ((n.operand name fallback).render .fixed).Sober words := by
  rcases n.operand_cases name fallback with ⟨p, hp, heq⟩ | ⟨v, heq⟩ | heq | ⟨t, heq⟩
  · rw [heq]; exact (hsources p hp).sober
  · rw [heq]; exact v.calm_literal.sober
  · rw [heq]; exact hfallback
  · rw [heq]; exact t.calm_glslDefault.sober

/-- Vertex data is read from a structure that a token names. -/
theorem sober_vertexField {stage : Stage} {field : Text} (hfield : field.Sober Token.spoken)
    (hblock : ∀ b ∈ stage.inputBlock? BlockName.vertexData, b.instanceName = Token.vertexData) :
    (vertexField stage field).Sober Token.spoken := by
  rw [vertexField]
  split
  · exact hfield
  · next b hb =>
    split
    · exact hfield
    · rw [hblock b hb]
      exact Text.Sober.append (by decide) hfield

/-- What a node that is written in place computes is sober. -/
theorem sober_phrase (hsources : ∀ p ∈ n.sources, p.ident.Calm) {stage : Stage}
    (hblock : ∀ b ∈ stage.inputBlock? BlockName.vertexData, b.instanceName = Token.vertexData) :
    (Operand.renderAll .fixed (n.phrase stage)).Sober Token.spoken := by
  have hoperand := fun (name : Text) {fallback : Text} (h : fallback.Calm) =>
    sober_operand hsources name (show fallback.Sober Token.spoken from h.sober)
  have hzero : ∀ t : DataType, (splat t "0.0").Calm := fun t => calm_splat t (by decide)
  rw [phrase]
  cases himplementation : n.implementation with
  | constant t =>
    cases hconstant : n.constant with
    | some p =>
      have hp := constant_mem_sources hconstant
      exact Operand.sober_renderAll (List.forall_mem_singleton.mpr (hsources p hp).sober)
    | none => exact Operand.sober_renderAll (List.forall_mem_singleton.mpr (hoperand _ t.calm_glslDefault))
  | arithmetic op t =>
    have hoperator : Text.Sober Token.spoken (" " ++ op.operator ++ " ") := by cases op <;> decide
    have hidentity : (splat t op.identity).Calm := calm_splat t (by cases op <;> decide)
    refine Operand.sober_renderAll ?_
    simp only [List.forall_mem_cons]
    exact ⟨hoperand _ (hzero t), hoperator, hoperand _ hidentity, fun _ h => by cases h⟩
  | mix t =>
    -- the brackets of the call stand in operands of their own, so what is between them is taken together
    have hcomma : Text.Sober Token.spoken ", " := by decide
    have hinner := (((hoperand "bg" (hzero t)).append hcomma).append (hoperand "fg" (hzero t))).append
      hcomma |>.append (hoperand "mix" (by decide : Text.Calm "0.0"))
    have hcall := hinner.enclose "mix(" ")" (by decide) (by decide) (by decide)
    simpa only [Operand.renderAll, Operand.render, List.flatMap_cons, List.flatMap_nil, List.append_nil,
      List.append_assoc] using hcall
  | transformMatrix =>
    refine Operand.sober_renderAll ?_
    simp only [List.forall_mem_cons]
    exact ⟨hoperand _ (by decide), by decide, hoperand _ (by decide), fun _ h => by cases h⟩
  | uniformEdf => exact Operand.sober_renderAll (List.forall_mem_singleton.mpr (hoperand _ (by decide)))
  | geometric g =>
    have htoken : Inventory.VertexToken (n.geometricToken g) := Or.inl (Inventory.geometricToken_mem n g)
    have hfield := sober_vertexField htoken.sober hblock
    refine Operand.sober_renderAll (List.forall_mem_singleton.mpr ?_)
    rw [Operand.render, expression, himplementation]
    simp only
    split
    · exact hfield.enclose _ _ (by decide) (by decide) (by decide)
    · exact hfield
  | texcoord =>
    have htoken : Inventory.VertexToken n.texcoordToken := Or.inr ⟨_, rfl⟩
    refine Operand.sober_renderAll (List.forall_mem_singleton.mpr ?_)
    rw [Operand.render, expression, himplementation]
    exact sober_vertexField htoken.sober hblock
  | hostNumber k =>
    have htoken : k.token.Sober Token.spoken := by cases k <;> decide
    refine Operand.sober_renderAll (List.forall_mem_singleton.mpr ?_)
    rw [Operand.render, expression, himplementation]
    exact htoken
  | image | diffuseBsdf | surface | surfaceUnlit => exact Text.Sober.nil

/-- The texts that parameters fall back on are sober. -/
theorem sober_fallback {i : Implementation} {p : Parameter} (hp : p ∈ i.parameters) :
    Text.Sober Token.spoken (if p.fallback = [] then p.type.glslDefault else p.fallback) := by
  have hfallback : p.fallback.Sober Token.spoken := by
    cases i with
    | image t =>
      simp only [Implementation.parameters, List.mem_cons, List.not_mem_nil, or_false] at hp
      rcases hp with rfl | rfl | rfl
      · exact Text.Sober.nil
      · exact Text.Sober.nil
      · show Text.Sober Token.spoken (Token.vertexData ++ "." ++ firstTexcoord)
        decide
    | diffuseBsdf =>
      simp only [Implementation.parameters, List.mem_cons, List.not_mem_nil, or_false] at hp
      rcases hp with rfl | rfl <;> decide
    | surface l =>
      simp only [Implementation.parameters, List.mem_cons, List.not_mem_nil, or_false] at hp
      rcases hp with rfl | rfl | rfl <;> decide
    | surfaceUnlit =>
      simp only [Implementation.parameters, List.mem_cons, List.not_mem_nil, or_false] at hp
      rcases hp with rfl | rfl | rfl <;> decide
    | constant | arithmetic | mix | geometric | texcoord => cases hp
    | hostNumber | transformMatrix | uniformEdf => cases hp
  split
  · exact p.type.calm_glslDefault.sober
  · exact hfallback

/-- The call of a library function is sober if its operands are. -/
theorem sober_callPhrase (hsources : ∀ p ∈ n.sources, p.ident.Calm) {function : Text}
    (hfunction : function.Calm) {out : Port} (hout : out.ident.Calm) :
    (Operand.renderAll .fixed (n.callPhrase function out)).Sober Token.spoken := by
  have harguments : (Text.joinWith ", " (n.implementation.parameters.map (n.argument .fixed) ++
      [out.ident])).Sober Token.spoken := by
    refine Text.Sober.joinWith (by decide) fun t ht => ?_
    rcases List.mem_append.mp ht with ht | ht
    · obtain ⟨p, hp, rfl⟩ := List.mem_map.mp ht
      exact sober_operand hsources p.name (sober_fallback hp)
    · rw [List.mem_singleton.mp ht]
      exact hout.sober
  have hcall := harguments.enclose "(" ")" (by decide) (by decide) (by decide)
  rw [← callText_eq, callText, List.append_assoc, List.append_assoc]
  rw [List.append_assoc] at hcall
  exact hfunction.sober.append hcall

/-- The statements of a node are sober. -/
theorem sober_statements (hknown : n.implementation ∈ Implementation.known)
    (hsources : ∀ p ∈ n.sources, p.ident.Calm) (houtputs : ∀ p ∈ n.outputs, p.ident.Calm)
    {stage : Stage}
    (hblock : ∀ b ∈ stage.inputBlock? BlockName.vertexData, b.instanceName = Token.vertexData) :
    ∀ st ∈ n.statements stage, st.text.Sober Token.spoken := by
  rw [statements]
  cases hhead : n.outputs.head? with
  | none => exact fun st hst => by cases hst
  | some out =>
    have hout := houtputs out (List.mem_of_mem_head? hhead)
    have hdeclare := (out.type.calm_glslName.append (by decide : Text.Calm " ")).append hout
    cases hpath : n.implementation.sourcePath? with
    | none =>
      refine List.forall_mem_singleton.mpr ?_
      exact (hdeclare.append (by decide)).sober.append (sober_phrase hsources hblock)
    | some path =>
      refine List.forall_mem_cons.mpr ⟨?_, List.forall_mem_singleton.mpr ?_⟩
      · rw [text_zeroStatement]
        exact Glsl.sober_declaration (by decide) out.type.calm_glslName hout.sober
          out.type.calm_glslDefault
      · exact sober_callPhrase hsources (Implementation.calm_functionIn hknown hpath) hout

end ShaderNode

/-! ## Bindings and results -/

namespace FragmentGenerator

/-- The statements in front of the nodes are sober: they name arguments and vertex data. -/
theorem sober_bindingStatements {ps : Stage} (lightRig : Bool)
    (hpublic : ∀ p ∈ publicPorts ps, p.ident.Calm)
    (hvertex : ∀ p ∈ vertexPorts ps, p.ident.Sober Token.spoken) :
    ∀ st ∈ bindingStatements ps lightRig, st.text.Sober Token.spoken := by
  intro st hst
  rw [bindingStatements] at hst
  -- Vertex data first, then what the light rig needs, then the matrices that come in wide.
  rcases List.mem_append.mp hst with hst | hst
  · rcases List.mem_append.mp hst with hst | hst
    · obtain ⟨p, hp, rfl⟩ := List.mem_map.mp hst
      have hident := hvertex p hp
      have hfield : Text.Sober Token.spoken (Token.vertexData ++ ".") := by decide
      refine Operand.sober_renderAll (List.forall_mem_cons.mpr ⟨?_, List.forall_mem_singleton.mpr hident⟩)
      exact (hfield.append hident).append (by decide)
    · have hsamples : ∀ st ∈ sampleStatements, st.text.Sober Token.spoken := by decide
      cases lightRig with
      | true => exact hsamples st hst
      | false => cases hst
  · obtain ⟨p, hp, rfl⟩ := List.mem_map.mp hst
    have hident := hpublic p (List.mem_of_mem_filter hp)
    have hsuffix : wideSuffix.Calm := by decide
    have hvalue : Text.Sober Token.spoken ("mat3(" ++ (p.ident ++ wideSuffix) ++ ")") :=
      (hident.append hsuffix).sober.enclose _ _ (by decide) (by decide) (by decide)
    have hdeclare : Text.Calm ("mat3 " ++ p.ident ++ " = ") :=
      (Text.Calm.append (by decide) hident).append (by decide)
    have htext : (matrixStatement p).text =
        "mat3 " ++ p.ident ++ " = " ++ ("mat3(" ++ (p.ident ++ wideSuffix) ++ ")") := by
      simp only [matrixStatement, Statement.text, Operand.renderAll, Operand.render, List.flatMap_singleton,
        List.append_assoc]
      rfl
    rw [htext]
    exact hdeclare.sober.append hvalue

/-- Making a color of an expression puts calm text around it. -/
theorem calm_color (transparent : Bool) (t : DataType) {e : Text} (he : e.Calm) :
    (color transparent t e).Calm := by
  have hpattern : (∀ p ∈ colorPattern transparent t, p.Quiet) ∧
      Text.Balanced (colorPattern transparent t).flatten := by
    cases transparent <;> cases t <;> exact of_decide_eq_true rfl
  rw [color_eq]
  exact he.fill hpattern.1 hpattern.2

/-- So does reading the color of a surface. -/
theorem calm_surfaceColor (transparent : Bool) {e : Text} (he : e.Calm) :
    (surfaceColor transparent e).Calm := by
  have hpattern : (∀ p ∈ surfacePattern transparent, p.Quiet) ∧
      Text.Balanced (surfacePattern transparent).flatten := by
    cases transparent <;> decide
  rw [surfaceColor_eq]
  exact he.fill hpattern.1 hpattern.2

/-- The lines that return the result are calm. -/
theorem calm_returnStatements {graph : ShaderGraph} (transparent : Bool)
    (hconnection : ∀ p ∈ graph.socket.connection, p.ident.Calm) (hsocket : graph.socket.port.ident.Calm) :
    ∀ t ∈ returnStatements .fixed graph transparent, t.Calm := by
  have hreturn : Text.Calm "return " := by decide
  rw [returnStatements]
  cases hsome : graph.socket.connection with
  | some p =>
    have hp := hconnection p hsome
    have hresult : Text.Calm (if graph.socket.channels = [] then p.ident
        else Swizzle.expression p.ident p.type graph.socket.channels graph.socket.port.type) := by
      split
      · exact hp
      · exact Swizzle.calm_expression hp _ _ _
    simp only
    split
    · exact List.forall_mem_singleton.mpr (hreturn.append (calm_surfaceColor transparent hresult))
    · exact List.forall_mem_singleton.mpr (hreturn.append (calm_color transparent _ hresult))
  | none =>
    have hvalue : (socketValue graph.socket).Calm := by
      rw [socketValue]
      split
      · exact Value.calm_literal _
      · exact DataType.calm_glslDefault _
    have hlocal : Text.Calm (graph.socket.port.ident ++ "_tmp") := hsocket.append (by decide)
    simp only
    by_cases hdirect : (if transparent = true then graph.socket.port.type.isFloat4
        else graph.socket.port.type.isFloat3) = true
    · rw [if_pos hdirect]
      exact List.forall_mem_singleton.mpr (hreturn.append hvalue)
    · rw [if_neg hdirect]
      have hdeclare := (((DataType.calm_glslName graph.socket.port.type).append
        (by decide : Text.Calm " ")).append hlocal).append (by decide : Text.Calm " = ")
      exact List.forall_mem_cons.mpr ⟨hdeclare.append hvalue,
        List.forall_mem_singleton.mpr (hreturn.append (calm_color transparent _ hlocal))⟩

/-! ## The root function -/

theorem sober_argumentLines {words : List Text} : ∀ {arguments : List Text},
    (∀ t ∈ arguments, t.Sober words) → (argumentLines arguments).Sober words := by
  have hindentation : Stage.indentation.Calm := by decide
  have hcomma : Text.Calm [44] := by decide
  have hline : Text.Calm [10] := by decide
  intro arguments
  induction arguments with
  | nil => intro _; exact Text.Sober.nil
  | cons t rest ih =>
    intro h
    obtain ⟨ht, hrest⟩ := List.forall_mem_cons.mp h
    -- the last argument has no comma
    cases rest with
    | nil => exact (hindentation.sober.append ht).append hline.sober
    | cons t' rest =>
      exact ((hindentation.sober.append (ht.append hcomma.sober)).append hline.sober).append (ih hrest)

/-- Sober statements make a sober body. -/
theorem sober_bodyLines {words : List Text} {body : List Statement} (h : ∀ st ∈ body, st.text.Sober words) :
    (bodyLines body).Sober words := by
  have hindentation : Stage.indentation.Calm := by decide
  have hend : (Stage.lineEnd true).Calm := by decide
  refine Text.Sober.flatMap fun t ht => ?_
  obtain ⟨st, hst, rfl⟩ := List.mem_map.mp ht
  exact (hindentation.sober.append (h st hst)).append hend.sober

end FragmentGenerator

/-- **A root function is sober if its parts are**: the brackets around arguments and body are its own, in pairs.
-/
theorem RootFunction.sober_text {words : List Text} {r : RootFunction} (hreturns : r.returns.Sober words)
    (hname : r.name.Sober words)
    (harguments : ∀ a ∈ r.arguments, a.1.Sober words ∧ a.2.Sober words)
    (hbody : ∀ st ∈ r.body, st.text.Sober words) : r.text.Sober words := by
  have hspace : Text.Calm " " := by decide
  have htexts : ∀ t ∈ r.arguments.map argumentText, t.Sober words := fun t ht => by
    obtain ⟨a, ha, rfl⟩ := List.mem_map.mp ht
    exact ((harguments a ha).1.append hspace.sober).append (harguments a ha).2
  have hparentheses := (FragmentGenerator.sober_argumentLines htexts).enclose "\n(\n" ")\n"
    (by decide) (by decide) (by decide)
  have hbraces := (FragmentGenerator.sober_bodyLines hbody).enclose "\x7b\n" "\x7d\n"
    (by decide) (by decide) (by decide)
  have hall := (((hreturns.append hspace.sober).append hname).append hparentheses).append hbraces
  have htext : r.text = r.returns ++ " " ++ r.name ++
      ("\n(\n" ++ FragmentGenerator.argumentLines (r.arguments.map argumentText) ++ ")\n") ++
      ("\x7b\n" ++ FragmentGenerator.bodyLines r.body ++ "\x7d\n") := by
    simp only [text, List.append_assoc]
    rfl
  rw [htext]
  exact hall

namespace FragmentGenerator

/-- The argument of a port is as sober as its identifier. -/
theorem sober_argumentOf {words : List Text} {p : Port} (h : p.ident.Sober words) :
    (argumentOf p).1.Sober words ∧ (argumentOf p).2.Sober words := by
  have hwide : Port.wideMatrix.Calm := by decide
  have hsuffix : wideSuffix.Calm := by decide
  rw [argumentOf]
  split
  · exact ⟨hwide.sober, h.append hsuffix.sober⟩
  · exact ⟨p.type.calm_glslName.sober, h⟩

namespace Finished

variable {g : FragmentGenerator} {o : Options} {gr : Graph} {v : Inventory} {ps : Stage} {s : Shader}

/-- Every output of a node has a calm name, and so has everything that a node reads. -/
theorem calm_nodes (h : g.Finished o gr v ps s) : ∀ n ∈ s.graph.nodes,
    (∀ p ∈ n.outputs, p.ident.Calm) ∧ ∀ p ∈ n.sources, p.ident.Calm := by
  intro n hn
  have hcalm : ∀ p ∈ v.constants ++ v.published ++ s.graph.nodes.flatMap ShaderNode.outputs,
      p.ident.Calm := fun p hp => h.created.accounted.calm hp
  refine ⟨fun p hp => hcalm p (List.mem_append_right _ (List.mem_flatMap.mpr ⟨n, hn, hp⟩)),
    fun p hp => hcalm p ?_⟩
  obtain ⟨before, after, hnodes⟩ := List.append_of_mem hn
  have hsupplied := h.created.supplied
  rw [hnodes] at hsupplied ⊢
  rcases List.mem_append.mp (hsupplied.sources p hp) with hp | hp
  · exact List.mem_append_left _ hp
  · rw [List.flatMap_append]
    exact List.mem_append_right _ (List.mem_append_left _ hp)

/-- **Every statement of the root function is sober**: bindings, nodes and the result. -/
theorem sober_rootBody (h : g.Finished o gr v ps s) (transparent : Bool) :
    ∀ st ∈ g.rootBody transparent s.graph ps, st.text.Sober Token.spoken := by
  have hpublic : ∀ p ∈ publicPorts ps, p.ident.Calm := by
    rw [h.publicPorts_eq]; exact h.clean.published
  have hvertex : ∀ p ∈ vertexPorts ps, p.ident.Sober Token.spoken := by
    rw [h.vertexPorts_eq]; exact h.created.clean.vertex
  have hblock : ∀ b ∈ ps.inputBlock? BlockName.vertexData, b.instanceName = Token.vertexData := by
    intro b hb
    rw [h.ports] at hb
    obtain rfl := Option.some.inj hb
    rfl
  intro st hst
  rw [rootBody] at hst
  split at hst
  · rw [List.mem_singleton.mp hst]
    decide
  · rcases List.mem_append.mp hst with hst | hst
    · rcases List.mem_append.mp hst with hst | hst
      · exact sober_bindingStatements _ hpublic hvertex st hst
      · obtain ⟨n, hn, hst⟩ := List.mem_flatMap.mp hst
        have hknown := (known_of_standsFor h.created.nodes n hn).1
        obtain ⟨houtputs, hsources⟩ := h.calm_nodes n hn
        exact ShaderNode.sober_statements hknown hsources houtputs hblock st hst
    · obtain ⟨_, hspelled⟩ := h.created.spelled
      have hresult := calm_returnStatements transparent (fun p hp => h.created.accounted.calm
        (List.mem_append_right _ (h.created.socket p hp))) hspelled.calm
      rw [returnStatements_eq] at hresult
      exact (hresult st.text (List.mem_map_of_mem hst)).sober

/-- The arguments of the root function are sober. -/
theorem sober_rootArguments (h : g.Finished o gr v ps s) (transparent : Bool) :
    ∀ a ∈ rootArguments ps transparent, a.1.Sober Token.spoken ∧ a.2.Sober Token.spoken := by
  intro a ha
  rcases List.mem_append.mp ha with ha | ha
  · obtain ⟨p, hp, rfl⟩ := List.mem_map.mp ha
    rw [h.publicPorts_eq, h.vertexPorts_eq] at hp
    rcases List.mem_append.mp hp with hp | hp
    · exact sober_argumentOf (h.clean.published p hp).sober
    · exact sober_argumentOf (h.created.clean.vertex p hp)
  · have htransparent : (Text.ofString "float").Sober Token.spoken ∧
        transparencyArgument.Sober Token.spoken := by
      decide
    cases transparent with
    | true => rw [List.mem_singleton.mp ha]; exact htransparent
    | false => cases ha

/-- **The root function is sober** before its tokens are replaced. -/
theorem sober_root (h : g.Finished o gr v ps s) (transparent : Bool) :
    (g.root transparent s.graph ps.functionName ps).text.Sober Token.spoken := by
  have hreturns : (returnType transparent).Sober Token.spoken := by cases transparent <;> decide
  exact RootFunction.sober_text hreturns h.named.sober (h.sober_rootArguments transparent)
    (h.sober_rootBody transparent)

theorem sound_root (h : g.Finished o gr v ps s) (transparent : Bool) :
    (g.root transparent s.graph ps.functionName ps).text.Sound Token.spoken :=
  (h.sober_root transparent).sound

end Finished
end FragmentGenerator
end ShadeGraph
