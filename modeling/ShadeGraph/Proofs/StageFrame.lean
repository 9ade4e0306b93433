/-
  Writing code, and changes of a stage that it does not see.

  Everything in front of the root function is written at the end of a stage, and notes include paths.  What is
  declared for the stage it reads in two places only: vertex data becomes a structure, and constants are
  declared.

  1. `Stage.Unseen` is a change of a stage that leaves all of this alone.
  2. Such a change commutes with writing a line, with a scope, with an include of any depth
     (`Unseen.expandWithin`), and so with the preamble (`Unseen.writePreamble`) and with the functions of the
     nodes (`Unseen.defineFunctions`).
-/
import ShadeGraph.Fragment.Generator
import ShadeGraph.Proofs.Computation

namespace ShadeGraph

/-! ## Runs that may fail -/

/-- An outcome with all that was done mapped, whether it failed or not. -/
def Failed.carry {ε σ τ : Type} (f : σ → τ) : Except (Failed ε σ) σ → Except (Failed ε τ) τ
  | .ok s => .ok (f s)
  | .error e => .error ⟨e.error, f e.left⟩

open Failed (carry)

/-- Steps that commute with a map make a run that does. -/
theorem foldlM_carry {ε σ α : Type} {f : σ → σ} {step : σ → α → Except (Failed ε σ) σ}
    (h : ∀ s a, step (f s) a = carry f (step s a)) (as : List α) (s : σ) :
    as.foldlM step (f s) = carry f (as.foldlM step s) := by
  induction as generalizing s with
  | nil => rfl
  | cons a as ih =>
    rw [List.foldlM_cons, List.foldlM_cons, h s a]
    cases step s a with
    | error e => rfl
    | ok t => exact ih t

/-! ## Changes that are not seen -/

namespace Stage

/-- The declarations of the vertex data of a stage, which must have a block for it. -/
def vertexDeclarations (style : DeclarationStyle) (format : FloatFormat) (s : Stage) :
    Except ShaderError (List Text) :=
  (FragmentGenerator.readVertex s).map fun ports => ports.map fun p => p.declaration style format [] false

/-- The declarations of the constants of a stage. -/
def constantDeclarations (style : DeclarationStyle) (format : FloatFormat) (s : Stage) : List Text :=
  s.constants.ports.map fun p => p.declaration style format Glsl.constantQualifier true

/-- A change of a stage that leaves its code, its scopes and its includes alone, and the declarations of its
vertex data and constants. -/
structure Unseen (f : Stage → Stage) : Prop where
  write : ∀ s t, (f s).write t = f (s.write t)
  depth : ∀ s, (f s).depth = s.depth
  scopes : ∀ s, (f s).scopes = s.scopes
  setScopes : ∀ s d b, { f s with depth := d, scopes := b } = f { s with depth := d, scopes := b }
  includes : ∀ s, (f s).includes = s.includes
  setIncludes : ∀ s paths, { f s with includes := paths } = f { s with includes := paths }
  vertex : ∀ style format s, (f s).vertexDeclarations style format = s.vertexDeclarations style format
  constants : ∀ style format s,
    (f s).constantDeclarations style format = s.constantDeclarations style format

namespace Unseen

variable {f : Stage → Stage} (h : Unseen f) (s : Stage)

include h

theorem newline : (f s).newline = f s.newline := h.write s [10]

theorem beginLine : (f s).beginLine = f s.beginLine := by
  rw [Stage.beginLine, Stage.beginLine, indent, indent, h.depth, h.write]

theorem line (t : Text) (semicolon : Bool) : (f s).line t semicolon = f (s.line t semicolon) := by
  rw [Stage.line, Stage.line, endLine, endLine, h.beginLine, h.write, h.write]

/-- Opening a scope changes depth and stack, which the change leaves alone. -/
theorem beginScope (b : Bracket) : (f s).beginScope b = f (s.beginScope b) := by
  rw [Stage.beginScope, Stage.beginScope]
  simp only [h.beginLine, h.write, h.depth, h.scopes, h.setScopes]

/-- Closing a scope fails on both stages or on none. -/
theorem endScope (semicolon newline : Bool) :
    (f s).endScope semicolon newline = (s.endScope semicolon newline).map f := by
  rw [Stage.endScope, Stage.endScope, h.scopes]
  cases s.scopes with
  | nil => rfl
  | cons b outer =>
    simp only [h.depth, h.setScopes, h.beginLine, h.write]
    rfl

theorem hasInclude (path : Text) : (f s).hasInclude path = s.hasInclude path := by
  rw [Stage.hasInclude, Stage.hasInclude, h.includes]

/-- Noting a path is not seen. -/
theorem addInclude (path : Text) : (f s).addInclude path = f (s.addInclude path) := by
  rw [Stage.addInclude, Stage.addInclude, h.hasInclude]
  split
  · rfl
  · rw [h.includes, h.setIncludes]

/-- Ports with the same declarations are declared by the same code. -/
theorem declareAll {ports ports' : List Port} {style : DeclarationStyle} {format : FloatFormat}
    {qualifier : Text} {assign : Bool} (separator : Text)
    (hports : ports.map (fun p => p.declaration style format qualifier assign) =
      ports'.map fun p => p.declaration style format qualifier assign) :
    (f s).declareAll style format ports qualifier separator assign =
      f (s.declareAll style format ports' qualifier separator assign) := by
  have hfold : ∀ (texts : List Text) (s : Stage),
      texts.foldl (fun s t => ((s.beginLine.write t).write separator).endLine false) (f s) =
        f (texts.foldl (fun s t => ((s.beginLine.write t).write separator).endLine false) s) := by
    intro texts
    induction texts with
    | nil => intro s; rfl
    | cons t texts ih =>
      intro s
      rw [List.foldl_cons, List.foldl_cons, ← ih, endLine, endLine, h.beginLine, h.write, h.write, h.write]
  have htexts : ∀ (ports : List Port) (s : Stage), s.declareAll style format ports qualifier separator assign =
      (ports.map fun p => p.declaration style format qualifier assign).foldl
        (fun s t => ((s.beginLine.write t).write separator).endLine false) s := by
    intro ports s
    rw [Stage.declareAll, List.foldl_map]
  rw [htexts, htexts, hports, hfold]

end Unseen
end Stage

/-! ## Includes -/

namespace Stage.Unseen

variable {f : Stage → Stage} (h : Unseen f)

include h

/-- **An include does not see the change**, however deeply it is nested. -/
theorem expandWithin (c : Context) : ∀ (fuel : Nat) (path : Text) (s : Stage),
    c.expandWithin fuel path (f s) = carry f (c.expandWithin fuel path s) := by
  intro fuel
  induction fuel with
  | zero => intro path s; rfl
  | succ fuel ih =>
    intro path s
    rw [Context.expandWithin, Context.expandWithin, h.hasInclude, h.addInclude]
    split
    · rfl
    · cases c.includer with
      | none => rfl
      | some libraries =>
        dsimp only
        cases libraries.read (c.resolve path) with
        | error e => rfl
        | ok source =>
          -- Lines are carried one by one, and nested files by the induction on the bound.
          refine foldlM_carry (fun s line => ?_) _ _
          rw [Context.expandLine, Context.expandLine]
          cases Source.includePath? line with
          | none => exact congrArg Except.ok (by rw [h.write, h.newline])
          | some inner =>
            dsimp only
            split
            · rfl
            · rw [ih inner s]
              cases c.expandWithin fuel inner s <;> rfl

/-- **An include expands to the same text**, and fails on both stages or on none. -/
theorem expandInclude (c : Context) (path : Text) (s : Stage) :
    c.expandInclude path (f s) = carry f (c.expandInclude path s) :=
  h.expandWithin c _ path s

/-- The function of a node comes from its file. -/
theorem emitDefinition (n : ShaderNode) (c : Context) (s : Stage) :
    n.emitDefinition c (f s) = carry f (n.emitDefinition c s) := by
  rw [ShaderNode.emitDefinition, ShaderNode.emitDefinition]
  cases n.implementation.sourcePath? with
  | none => rfl
  | some path =>
    dsimp only
    split
    · rfl
    · rw [h.expandInclude]
      cases c.expandInclude path s with
      | error e => rfl
      | ok t => exact congrArg Except.ok (h.newline t)

/-- **The functions of the nodes do not see the change.** -/
theorem defineFunctions (c : Context) (nodes : List ShaderNode) (defined : List Text) (s : Stage) :
    Shader.defineFunctions c nodes defined (f s) = carry f (Shader.defineFunctions c nodes defined s) := by
  induction nodes generalizing defined s with
  | nil => rfl
  | cons n rest ih =>
    rw [Shader.defineFunctions, Shader.defineFunctions, h.emitDefinition]
    split
    · exact ih defined s
    · cases n.emitDefinition c s with
      | error e => rfl
      | ok t => exact ih _ t

end Stage.Unseen

/-- Only the names and the implementations of nodes matter to the functions that are defined for them. -/
theorem Shader.defineFunctions_congr (c : Context) {nodes nodes' : List ShaderNode}
    (h : nodes.map (fun n => (n.name, n.implementation)) = nodes'.map fun n => (n.name, n.implementation)) :
    ∀ (defined : List Text) (s : Stage),
      defineFunctions c nodes defined s = defineFunctions c nodes' defined s := by
  induction nodes generalizing nodes' with
  | nil =>
    cases nodes' with
    | nil => intro defined s; rfl
    | cons n rest => cases h
  | cons n rest ih =>
    cases nodes' with
    | nil => cases h
    | cons m rest' =>
      intro defined s
      obtain ⟨hpair, hrest⟩ := List.cons.inj h
      obtain ⟨hname, himplementation⟩ := Prod.mk.inj hpair
      rw [defineFunctions, defineFunctions]
      simp only [ShaderNode.emitDefinition, hname, himplementation, ih hrest]

/-- Stages that a change makes equal are so behind the functions of nodes. -/
theorem Stage.Unseen.eq_of_defineFunctions {f : Stage → Stage} (h : Unseen f) {c : Context}
    {nodes nodes' : List ShaderNode}
    (hnodes : nodes.map (fun n => (n.name, n.implementation)) = nodes'.map fun n => (n.name, n.implementation))
    {s s' t t' : Stage} (hs : f s = f s') (ht : Shader.defineFunctions c nodes [] s = .ok t)
    (ht' : Shader.defineFunctions c nodes' [] s' = .ok t') : f t = f t' := by
  have hleft := h.defineFunctions c nodes [] s
  have hright := h.defineFunctions c nodes' [] s'
  rw [ht, hs, Shader.defineFunctions_congr c hnodes, hright, ht'] at hleft
  exact (Except.ok.inj hleft).symm

/-! ## The preamble -/

namespace Stage.Unseen

variable {f : Stage → Stage} (h : Unseen f) (s : Stage)

include h

theorem closeScope (newline : Bool) :
    FragmentGenerator.closeScope (f s) newline = (FragmentGenerator.closeScope s newline).map f := by
  rw [FragmentGenerator.closeScope, FragmentGenerator.closeScope, h.endScope]
  cases s.endScope false newline <;> rfl

theorem includeCode (c : Context) (path : Text) :
    FragmentGenerator.includeCode c path (f s) = (FragmentGenerator.includeCode c path s).map f := by
  rw [FragmentGenerator.includeCode, FragmentGenerator.includeCode, h.expandInclude]
  cases c.expandInclude path s <;> rfl

/-- The structure for vertex data, if the ports have the same declarations. -/
theorem writeVertexData {style : DeclarationStyle} {format : FloatFormat} {ports ports' : List Port}
    (hports : ports.map (fun p => p.declaration style format [] false) =
      ports'.map fun p => p.declaration style format [] false) :
    FragmentGenerator.writeVertexData style format ports (f s) =
      (FragmentGenerator.writeVertexData style format ports' s).map f := by
  have hnone : ports = [] ↔ ports' = [] := by
    rw [← List.map_eq_nil_iff, hports, List.map_eq_nil_iff]
  rw [FragmentGenerator.writeVertexData, FragmentGenerator.writeVertexData]
  simp only [hnone]
  split
  · rfl
  · rw [h.line, h.beginScope, h.declareAll _ ";" hports, h.closeScope]
    refine map_bind_eq fun t _ => ?_
    rw [endLine, endLine, h.write, h.write, h.newline]
    rfl

theorem writeDefine (name : Text) (n : Int64) :
    FragmentGenerator.writeDefine name n (f s) = f (FragmentGenerator.writeDefine name n s) := by
  rw [FragmentGenerator.writeDefine, FragmentGenerator.writeDefine, h.line, h.newline]

theorem defineTypes : (f s).defineTypes = f s.defineTypes := by
  rw [Stage.defineTypes, Stage.defineTypes, h.write, h.newline]

/-- Constants have the same declarations, so they are written alike. -/
theorem writeConstants (style : DeclarationStyle) (format : FloatFormat) :
    FragmentGenerator.writeConstants style format (f s) = f (FragmentGenerator.writeConstants style format s) := by
  have hports : (f s).constants.ports.map (fun p => p.declaration style format Glsl.constantQualifier true) =
      s.constants.ports.map fun p => p.declaration style format Glsl.constantQualifier true :=
    h.constants style format s
  have hnone : (f s).constants.ports = [] ↔ s.constants.ports = [] := by
    rw [← List.map_eq_nil_iff, hports, List.map_eq_nil_iff]
  rw [FragmentGenerator.writeConstants, FragmentGenerator.writeConstants]
  simp only [hnone]
  split
  · rfl
  · rw [h.declareAll _ ";" hports, h.newline]

/-- The lighting code depends on the options. -/
theorem writeLighting (g : FragmentGenerator) (c : Context) :
    g.writeLighting c (f s) = (g.writeLighting c s).map f := by
  unfold FragmentGenerator.writeLighting
  simp only [h.writeDefine, h.includeCode]
  split
  · rfl
  · split
    · rfl
    · split <;> rfl

/-- **The preamble does not see the change.** -/
theorem writePreamble (g : FragmentGenerator) (c : Context) :
    g.writePreamble c (f s) = (g.writePreamble c s).map f := by
  unfold FragmentGenerator.writePreamble
  cases FragmentGenerator.readFormat c with
  | error e => rfl
  | ok format =>
    cases FragmentGenerator.readStyle c with
    | error e => rfl
    | ok style =>
      -- the ports may differ, but they are declared alike
      have hvertex : (FragmentGenerator.readVertex (f s)).map _ = (FragmentGenerator.readVertex s).map _ :=
        h.vertex style format s
      rcases map_eq_map_cases hvertex with ⟨e, he, he'⟩ | ⟨ports, ports', hports, hports', hsame⟩
      · rw [he, he']
        rfl
      · rw [hports, hports']
        show (FragmentGenerator.writeVertexData style format ports (f s) >>= _) =
          Except.map f (FragmentGenerator.writeVertexData style format ports' s >>= _)
        rw [h.writeVertexData s hsame]
        refine map_bind_eq fun s _ => ?_
        simp only [h.writeDefine, h.defineTypes, h.writeConstants, h.includeCode]
        refine map_bind_eq fun s _ => ?_
        rw [h.newline, h.writeLighting]
        exact map_bind_eq fun t _ => congrArg Except.ok (h.newline t)

/-- Stages that a change makes equal are so behind the preamble. -/
theorem eq_of_writePreamble {g : FragmentGenerator} {c : Context} {s s' t t' : Stage} (hs : f s = f s')
    (ht : g.writePreamble c s = .ok t) (ht' : g.writePreamble c s' = .ok t') : f t = f t' := by
  have hleft := h.writePreamble s g c
  have hright := h.writePreamble s' g c
  rw [ht, hs, hright, ht'] at hleft
  exact (Except.ok.inj hleft).symm

end Stage.Unseen
end ShadeGraph
