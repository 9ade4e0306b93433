/-
  Generating with a context that was used before.

  A context outlives a fragment: the calls on it share its float format and its table of tokens.  What a call
  leaves behind is little, and nothing that a later call could see.

  1. A call changes one entry of the table, the file that turns texture coordinates, and the float format that
     it writes with is its own (`Call.run_frame`).
  2. So after any calls, of any generators, failed or not, a context is as new, or as new but for that entry
     (`used_afterCalls`).
  3. The entry is set again before it is read: the shared code, which is written first, includes files by
     plain paths (`writePreamble_finalTokens`).
  4. Hence a call gives what it would give with a new context (`generate_afterCalls`).
-/
import ShadeGraph.Proofs.Computation
import ShadeGraph.Proofs.Generation

namespace ShadeGraph

/-! ## Entries of a table -/

namespace TokenTable

/-- Setting a token leaves the others. -/
theorem lookup_setEntry_of_ne {token key : Text} (h : token ≠ key) (replacement : Text) :
    ∀ es : List (Text × Text), (setEntry key replacement es).lookup token = es.lookup token := by
  have hkey : (token == key) = false := beq_eq_false_iff_ne.mpr h
  intro es
  induction es with
  | nil => rw [setEntry, List.lookup_cons, hkey]
  | cons e es ih =>
    rw [setEntry]
    split
    · next he => rw [List.lookup_cons, List.lookup_cons, he, hkey]
    · rw [List.lookup_cons, List.lookup_cons, ih]

/-- Other entries are kept. -/
theorem get?_set_of_ne {token key : Text} (h : token ≠ key) (ts : TokenTable) (replacement : Text) :
    (ts.set key replacement).get? token = ts.get? token :=
  lookup_setEntry_of_ne h replacement ts.entries

/-- An entry that is set again is as if it was set once. -/
theorem set_set (ts : TokenTable) (key first second : Text) :
    (ts.set key first).set key second = ts.set key second := by
  have hentries : ∀ es : List (Text × Text),
      setEntry key second (setEntry key first es) = setEntry key second es := by
    intro es
    induction es with
    | nil => exact if_pos rfl
    | cons e es ih =>
      by_cases he : e.1 = key
      · rw [setEntry, if_pos he, setEntry, if_pos rfl, setEntry, if_pos he]
      · rw [setEntry, if_neg he, setEntry, if_neg he, ih, setEntry, if_neg he]
  exact congrArg TokenTable.mk (hentries ts.entries)

end TokenTable

/-! ## Includes by plain paths -/

namespace SearchPath

/-- Files of the listed paths include listed paths only. -/
def Closed (libraries : SearchPath) (paths : List Text) : Prop :=
  ∀ path ∈ paths, ∀ source, libraries.read path = .ok source →
    ∀ line ∈ Context.sourceLines source, ∀ inner, Source.includePath? line = some inner → inner ∈ paths

theorem mem_of_includesOf? {libraries : SearchPath} {path source line inner : Text} {paths : List Text}
    (hincludes : libraries.includesOf? path = some paths) (hread : libraries.read path = .ok source)
    (hline : line ∈ Context.sourceLines source) (hinner : Source.includePath? line = some inner) :
    inner ∈ paths := by
  rw [includesOf?, hread] at hincludes
  exact Option.some.inj hincludes ▸ List.mem_filterMap.mpr ⟨line, hline, hinner⟩

end SearchPath

namespace Context

/-- The context with another table of tokens. -/
def withTokens (c : Context) (ts : TokenTable) : Context := { c with tokens := some ts }

/-- **Tokens do not matter to an expansion** if they leave all paths that it meets as they are. -/
theorem expandWithin_withTokens {c : Context} {libraries : SearchPath} {ts ts' : TokenTable}
    {paths : List Text} (hlibraries : c.includer = some libraries) (hclosed : libraries.Closed paths)
    (hkept : ∀ path ∈ paths, ts.replace path = path ∧ ts'.replace path = path) :
    ∀ (fuel : Nat), ∀ path ∈ paths, ∀ s : Stage,
      (c.withTokens ts).expandWithin fuel path s = (c.withTokens ts').expandWithin fuel path s := by
  have hincluder : ∀ ts, (c.withTokens ts).includer = some libraries := fun _ => hlibraries
  intro fuel
  induction fuel with
  | zero => intro path _ s; rfl
  | succ fuel ih =>
    intro path hpath s
    have hresolve : (c.withTokens ts).resolve path = path := (hkept path hpath).1
    have hresolve' : (c.withTokens ts').resolve path = path := (hkept path hpath).2
    cases hnew : s.hasInclude path with
    | true => rw [expandWithin, expandWithin, hresolve, hresolve', if_pos hnew, if_pos hnew]
    | false =>
      cases hread : libraries.read path with
      | error e =>
        rw [expandWithin, expandWithin, hresolve, hresolve']
        simp only [hnew, hincluder, hread]
      | ok source =>
        rw [expandWithin_new (hincluder ts) (hresolve.symm ▸ hnew) (hresolve.symm ▸ hread),
          expandWithin_new (hincluder ts') (hresolve'.symm ▸ hnew) (hresolve'.symm ▸ hread), hresolve,
          hresolve']
        refine foldlM_congr (fun line hline t => ?_) _
        rw [expandLine, expandLine]
        cases hinner : Source.includePath? line with
        | none => rfl
        | some inner =>
          -- the inner path is a listed one again, so the tokens leave it alone too
          simp only [ih inner (hclosed path hpath source hread line hline inner hinner)]
          rfl

end Context

namespace FragmentGenerator

/-- Shared code includes shared code only. -/
theorem closed_sharedPaths : SearchPath.standard.Closed (sharedPaths ++ innerPaths) := by
  intro path hpath source hread line hline inner hinner
  rcases List.mem_append.mp hpath with hpath | hpath
  · obtain ⟨paths, hpaths, hsub⟩ := SearchPath.standard_checked.2.2.1 path hpath
    exact List.mem_append_right _ (hsub (SearchPath.mem_of_includesOf? hpaths hread hline hinner))
  · have hnone := SearchPath.standard_checked.2.2.2 path
      (List.mem_cons_of_mem _ (List.mem_cons_of_mem _ hpath))
    exact absurd (SearchPath.mem_of_includesOf? hnone hread hline hinner) List.not_mem_nil

section

variable (g : FragmentGenerator) (o : Options) (samples : SampleSetting)

/-- Shared code is expanded alike with and without the file transform, because none of its files asks for that.
-/
theorem includeCode_finalTokens {path : Text} (hpath : path ∈ sharedPaths) (s : Stage) :
    includeCode (g.writingContext o samples (g.finalTokens o)) path s =
      includeCode (g.writingContext o samples g.tokens) path s := by
  have hkept : ∀ p ∈ sharedPaths ++ innerPaths,
      (g.finalTokens o).replace p = p ∧ g.tokens.replace p = p := fun p hp =>
    ⟨(g.finalTokens_hosted o).replace_of_quiet (quiet_sharedPaths p hp),
      g.tokens_hosted.replace_of_quiet (quiet_sharedPaths p hp)⟩
  have hexpand : (g.writingContext o samples (g.finalTokens o)).expandInclude path s =
      (g.writingContext o samples g.tokens).expandInclude path s :=
    Context.expandWithin_withTokens (c := g.writingContext o samples g.tokens) rfl closed_sharedPaths hkept _
      path (List.mem_append_left _ hpath) s
  rw [includeCode, includeCode, hexpand]

/-- **Shared code is written the same** whether the file transform was set before or not. -/
theorem writePreamble_finalTokens (s : Stage) :
    g.writePreamble (g.writingContext o samples (g.finalTokens o)) s =
      g.writePreamble (g.writingContext o samples g.tokens) s := by
  have hlighting : ∀ s, g.writeLighting (g.writingContext o samples (g.finalTokens o)) s =
      g.writeLighting (g.writingContext o samples g.tokens) s := by
    intro s
    have hoptions : ∀ ts, (g.writingContext o samples ts).options = o := fun _ => rfl
    have hsamples : ∀ ts, (g.writingContext o samples ts).samples = samples := fun _ => rfl
    have hprefiltered :
        (if g.api.isLegacy then Path.lightingLegacy else Path.lightingPrefiltered) ∈ sharedPaths := by
      split <;> decide
    rw [writeLighting, writeLighting]
    simp only [hoptions, hsamples, g.includeCode_finalTokens o samples hprefiltered,
      g.includeCode_finalTokens o samples (by decide : Path.lightingSampled ∈ sharedPaths),
      g.includeCode_finalTokens o samples (by decide : Path.lightingOff ∈ sharedPaths)]
  rw [writePreamble, writePreamble]
  simp only [hlighting, g.includeCode_finalTokens o samples (by decide : Path.mathematics ∈ sharedPaths)]
  rfl

end

/-! ## Calls on a context -/

/-- A call that generates a fragment. -/
structure Call where
  generator : FragmentGenerator
  name : Text
  graph : Option Graph

/-- What a call gives, and the context afterwards. -/
def Call.run (call : Call) (c : Context) : Except ShaderError Shader × Context :=
  call.generator.generate call.name call.graph c

/-- A context after calls on it. -/
def afterCalls (calls : List Call) (c : Context) : Context :=
  calls.foldl (fun c call => (call.run c).2) c

/-- Completing a fragment leaves the context as it is. -/
theorem generate_snd (g : FragmentGenerator) (name : Text) (graph : Option Graph) (c : Context) :
    (g.generate name graph c).2 = (g.writePixel name graph c).2 := by
  unfold generate
  rcases g.writePixel name graph c with ⟨_ | _, after⟩ <;> rfl

/-- **What a call changes in a context**: at most the entry of the file transform. -/
theorem Call.run_frame (call : Call) {c : Context} {ts : TokenTable} (h : c.tokens = some ts) :
    (call.run c).2 = c ∨
      (call.run c).2 = c.withTokens (ts.set Token.fileTransform (transformPath c.options)) := by
  have hsame : ({ c with tokens := some ts } : Context) = c := by rw [← h]
  have htokens : call.generator.tokensIn c = ts := by rw [tokensIn, h, Option.getD_some]
  rw [Call.run, generate_snd, writePixel]
  split
  · exact Or.inl rfl
  · simp only [htokens, hsame]
    split
    · exact Or.inl rfl
    · exact Or.inr rfl

/-- The tokens of a context that was used: the file transform is set, or not yet. -/
def usedTokens (g : FragmentGenerator) (o : Options) : List TokenTable := [g.tokens, g.finalTokens o]

/-- Setting the file transform of a used context ends in the same tokens, set before or not. -/
theorem set_usedTokens {g : FragmentGenerator} {o : Options} {ts : TokenTable} (h : ts ∈ g.usedTokens o) :
    ts.set Token.fileTransform (transformPath o) = g.finalTokens o := by
  rcases List.mem_pair.mp h with rfl | rfl
  · rfl
  · exact TokenTable.set_set _ _ _ _

/-- The context is as new, or as new but for the file transform. -/
def Used (g : FragmentGenerator) (o : Options) (samples : SampleSetting) (format : FloatFormat)
    (c : Context) : Prop :=
  ∃ ts ∈ g.usedTokens o, c = ((g.contextWith o samples).withFormat format).withTokens ts

section

variable {g : FragmentGenerator} {o : Options} {samples : SampleSetting} {format : FloatFormat} {c : Context}

theorem used_new (g : FragmentGenerator) (o : Options) (samples : SampleSetting) (format : FloatFormat) :
    Used g o samples format ((g.contextWith o samples).withFormat format) :=
  ⟨g.tokens, List.mem_cons_self, rfl⟩

/-- One call. -/
theorem Used.run (h : Used g o samples format c) (call : Call) :
    Used g o samples format (call.run c).2 := by
  obtain ⟨ts, hts, rfl⟩ := h
  have htokens : (((g.contextWith o samples).withFormat format).withTokens ts).tokens = some ts := rfl
  rcases call.run_frame htokens with hsame | hset
  · rw [hsame]
    exact ⟨ts, hts, rfl⟩
  · rw [hset]
    exact ⟨g.finalTokens o, List.mem_cons_of_mem _ List.mem_cons_self, congrArg _ (set_usedTokens hts)⟩

/-- Any number of calls. -/
theorem used_afterCalls (h : Used g o samples format c) (calls : List Call) :
    Used g o samples format (afterCalls calls c) := by
  induction calls generalizing c with
  | nil => exact h
  | cons call calls ih => exact ih (h.run call)

/-- The code of a used context is that of a new one. -/
theorem writePreamble_usedTokens {ts : TokenTable} (hts : ts ∈ g.usedTokens o) (ps : Stage) :
    g.writePreamble (g.writingContext o samples ts) ps =
      g.writePreamble (g.writingContext o samples g.tokens) ps := by
  rcases List.mem_pair.mp hts with rfl | rfl
  · rfl
  · exact g.writePreamble_finalTokens o samples ps

/-- What is generated, in terms of the contexts that code is written in. -/
theorem generate_fst (name : Text) (graph : Option Graph) (ts : TokenTable) :
    (g.generate name graph (((g.contextWith o samples).withFormat format).withTokens ts)).1 =
      (g.createShader name graph (some (g.contextWith o samples))).bind fun shader =>
        ((requireStage shader pixelStage).bind (g.writePreamble (g.writingContext o samples ts))).bind fun ps =>
          (g.writeFunctions (g.writingContext o samples (ts.set Token.fileTransform (transformPath o)))
            shader ps).bind fun (shader, ps) =>
              complete (g.writingContext o samples (ts.set Token.fileTransform (transformPath o)))
                (ts.set Token.fileTransform (transformPath o)) shader ps := by
  have hcreate : g.createShader name graph
      (some (((g.contextWith o samples).withFormat format).withTokens ts)) =
      g.createShader name graph (some (g.contextWith o samples)) := rfl
  rw [generate_eq, hcreate]
  cases g.createShader name graph (some (g.contextWith o samples)) with
  | error e => rfl
  | ok shader =>
    have hopen : g.openPixel (({ ((g.contextWith o samples).withFormat format).withTokens ts with
        tokens := some ts } : Context).withFormat .fixed) shader =
        (requireStage shader pixelStage).bind (g.writePreamble (g.writingContext o samples ts)) := rfl
    have htokens : g.tokensIn (((g.contextWith o samples).withFormat format).withTokens ts) = ts := rfl
    simp only [htokens, hopen]
    show _ = ((requireStage shader pixelStage).bind (g.writePreamble (g.writingContext o samples ts))).bind _
    cases (requireStage shader pixelStage).bind (g.writePreamble (g.writingContext o samples ts)) <;> rfl

/-- A context that was used generates what a new one does. -/
theorem Used.generate_eq (h : Used g o samples format c) (name : Text) (graph : Option Graph) :
    (g.generate name graph c).1 = (g.generate name graph (g.contextWith o samples)).1 := by
  obtain ⟨ts, hts, rfl⟩ := h
  have hnew : g.contextWith o samples = ((g.contextWith o samples).withFormat .general).withTokens g.tokens :=
    rfl
  have hmem : g.tokens ∈ g.usedTokens o := List.mem_cons_self
  conv_rhs => rw [hnew, generate_fst, set_usedTokens hmem]
  rw [generate_fst, set_usedTokens hts]
  have hpreamble : g.writePreamble (g.writingContext o samples ts) =
      g.writePreamble (g.writingContext o samples g.tokens) := funext (writePreamble_usedTokens hts)
  rw [hpreamble]

/-- A context with a float format, after calls on it. -/
def contextAfter (g : FragmentGenerator) (o : Options) (samples : SampleSetting) (format : FloatFormat)
    (calls : List Call) : Context :=
  afterCalls calls ((g.contextWith o samples).withFormat format)

/-- **A context can be used again.**  After any calls on it, a call gives what it gives with a new context.
And every call keeps the float format, and all entries of the table of tokens but the file transform. -/
theorem generate_afterCalls (g : FragmentGenerator) (o : Options) (samples : SampleSetting)
    (format : FloatFormat) (calls : List Call) :
    (∀ name graph, (g.generate name graph (g.contextAfter o samples format calls)).1 =
      (g.generate name graph (g.contextWith o samples)).1) ∧
    (g.contextAfter o samples format calls).dialect = some ⟨.fragment, format⟩ ∧
    ∀ call : Call, ∃ ts ts', (g.contextAfter o samples format calls).tokens = some ts ∧
      (call.run (g.contextAfter o samples format calls)).2 =
        (g.contextAfter o samples format calls).withTokens ts' ∧
      (call.run (g.contextAfter o samples format calls)).2.dialect = some ⟨.fragment, format⟩ ∧
      ∀ token, token ≠ Token.fileTransform → ts'.get? token = ts.get? token := by
  have hused : Used g o samples format (g.contextAfter o samples format calls) :=
    used_afterCalls (used_new g o samples format) calls
  generalize g.contextAfter o samples format calls = c at hused ⊢
  refine ⟨fun name graph => hused.generate_eq name graph, ?_, fun call => ?_⟩
  · obtain ⟨ts, _, rfl⟩ := hused
    rfl
  · obtain ⟨ts, _, rfl⟩ := hused
    have htokens : (((g.contextWith o samples).withFormat format).withTokens ts).tokens = some ts := rfl
    rcases call.run_frame htokens with hsame | hset
    · exact ⟨ts, ts, rfl, hsame, congrArg Context.dialect hsame, fun _ _ => rfl⟩
    · exact ⟨ts, _, rfl, hset, congrArg Context.dialect hset,
        fun token hne => TokenTable.get?_set_of_ne hne ts _⟩

end

end FragmentGenerator
end ShadeGraph
