/-
  The number of environment samples.

  1. The number that a context asks for is read in one place: the definition in front of the lighting code
     of the sampled method.  All other code is written as if nothing was asked for.
  2. So contexts that differ in it alone, and come to the same number where samples are drawn, generate
     the same (`generate_withSamples`).
  3. A job generates the same as another with the same name, graph, options and light interface and the same
     effective number of samples (`FragmentJob.generate_congr`).
-/
import ShadeGraph.Command.Run

namespace ShadeGraph

namespace Context

/-- The context that asks for other samples. -/
def withSamples (c : Context) (x : SampleSetting) : Context := { c with samples := x }

variable (c : Context) (x : SampleSetting)

/-- Expanding a file does not look at the samples, by induction on the bound. -/
theorem expandWithin_withSamples (fuel : Nat) (path : Text) (s : Stage) :
    (c.withSamples x).expandWithin fuel path s = c.expandWithin fuel path s := by
  induction fuel generalizing path s with
  | zero => rfl
  | succ fuel ih =>
    have hexpand : (c.withSamples x).expandWithin fuel = c.expandWithin fuel := funext fun p => funext (ih p)
    rw [expandWithin, expandWithin, hexpand]
    rfl

theorem expandInclude_withSamples (path : Text) (s : Stage) :
    (c.withSamples x).expandInclude path s = c.expandInclude path s :=
  expandWithin_withSamples c x _ path s

end Context

namespace Shader

variable (c : Context) (x : SampleSetting)

theorem emitDefinition_withSamples (n : ShaderNode) (s : Stage) :
    n.emitDefinition (c.withSamples x) s = n.emitDefinition c s := by
  unfold ShaderNode.emitDefinition
  simp only [Context.expandInclude_withSamples]
  rfl

theorem defineFunctions_withSamples (nodes : List ShaderNode) (defined : List Text) (s : Stage) :
    defineFunctions (c.withSamples x) nodes defined s = defineFunctions c nodes defined s := by
  induction nodes generalizing defined s with
  | nil => rfl
  | cons n nodes ih =>
    rw [defineFunctions, defineFunctions]
    simp only [ih, emitDefinition_withSamples]

theorem callFunctions_withSamples (nodes : List ShaderNode) (s : Stage) :
    callFunctions (c.withSamples x) nodes s = callFunctions c nodes s := by
  induction nodes generalizing s with
  | nil => rfl
  | cons n nodes ih =>
    have hcall : n.emitCall (c.withSamples x) s = n.emitCall c s := rfl
    rw [callFunctions, callFunctions, hcall]
    simp only [ih]

end Shader

namespace FragmentGenerator

variable (g : FragmentGenerator) (c : Context) (x : SampleSetting)

theorem includeCode_withSamples (path : Text) (s : Stage) :
    includeCode (c.withSamples x) path s = includeCode c path s := by
  unfold includeCode
  rw [Context.expandInclude_withSamples]

/-- The root function is written without the samples. -/
theorem writeRoot_withSamples (graph : ShaderGraph) (name : Text) (s : Stage) :
    g.writeRoot (c.withSamples x) graph name s = g.writeRoot c graph name s := by
  have hbody (format : FloatFormat) (published vertex : List Port) (s : Stage) :
      g.writeBody (c.withSamples x) format graph published vertex s =
        g.writeBody c format graph published vertex s := by
    unfold writeBody
    simp only [Shader.callFunctions_withSamples]
    rfl
  unfold writeRoot
  simp only [hbody]
  rfl

theorem writeFunctions_withSamples (shader : Shader) (s : Stage) :
    g.writeFunctions (c.withSamples x) shader s = g.writeFunctions c shader s := by
  unfold writeFunctions
  simp only [Shader.defineFunctions_withSamples, writeRoot_withSamples]

end FragmentGenerator

namespace Context

/-- The number of samples that code is written for; nothing where none are drawn. -/
def sampleCount (c : Context) : Option Int64 :=
  if c.options.specular = .sampled then some (c.samples.count?.getD FragmentGenerator.defaultSamples) else none

end Context

namespace FragmentGenerator

variable (g : FragmentGenerator) {c : Context} {x : SampleSetting}

/-- Lighting code asks for the number of samples that are drawn, and for nothing else of the setting. -/
theorem writeLighting_withSamples (h : (c.withSamples x).sampleCount = c.sampleCount) (s : Stage) :
    g.writeLighting (c.withSamples x) s = g.writeLighting c s := by
  have hoptions : (c.withSamples x).options = c.options := rfl
  unfold writeLighting
  unfold Context.sampleCount at h
  rw [hoptions] at h
  simp only [hoptions, includeCode_withSamples]
  split
  · next hsampled =>
    rw [if_pos hsampled, if_pos hsampled] at h
    rw [Option.some.inj h]
  · rfl

/-- The pixel stage is opened alike where the same number of samples is drawn. -/
theorem openPixel_withSamples (h : (c.withSamples x).sampleCount = c.sampleCount) (shader : Shader) :
    g.openPixel (c.withSamples x) shader = g.openPixel c shader := by
  unfold openPixel writePreamble
  simp only [includeCode_withSamples, g.writeLighting_withSamples h]
  rfl

/-- Where no other number of samples is drawn, what a context asks for changes nothing but the context. -/
theorem generate_withSamples (h : (c.withSamples x).sampleCount = c.sampleCount) (name : Text)
    (graph : Option Graph) :
    g.generate name graph (c.withSamples x) =
      ((g.generate name graph c).1, (g.generate name graph c).2.withSamples x) := by
  have hcreate : g.createShader name graph (some (c.withSamples x)) = g.createShader name graph (some c) := rfl
  rw [generate_eq, generate_eq, hcreate]
  cases g.createShader name graph (some c) with
  | error e => rfl
  | ok shader =>
    have hopen (ts : TokenTable) :
        g.openPixel (({ c.withSamples x with tokens := some ts } : Context).withFormat .fixed) shader =
          g.openPixel (({ c with tokens := some ts } : Context).withFormat .fixed) shader :=
      g.openPixel_withSamples (c := ({ c with tokens := some ts } : Context).withFormat .fixed) h shader
    have hfunctions (ts : TokenTable) (ps : Stage) :
        g.writeFunctions (({ c.withSamples x with tokens := some ts } : Context).withFormat .fixed) shader ps =
          g.writeFunctions (({ c with tokens := some ts } : Context).withFormat .fixed) shader ps :=
      g.writeFunctions_withSamples (({ c with tokens := some ts } : Context).withFormat .fixed) x shader ps
    have htokens : g.tokensIn (c.withSamples x) = g.tokensIn c := rfl
    simp only [htokens, hopen, hfunctions]
    split
    · rfl
    · rfl

end FragmentGenerator

namespace FragmentJob

variable {j j' : FragmentJob}

/-- The number of samples that a job's code is written for is the effective one. -/
theorem sampleCount_context (j : FragmentJob) :
    j.context.sampleCount =
      if j.source.options.specular = .sampled then some j.source.effectiveSamples else none := by
  have hcontext : j.context.options = j.source.options := by
    unfold context
    split <;> rfl
  unfold Context.sampleCount FragmentSource.effectiveSamples
  rw [hcontext]
  split
  · next hsampled =>
    rw [if_neg (not_not_intro hsampled)]
    unfold context
    split
    · next hpositive => rw [if_neg (Int64.not_le.mpr hpositive)]; rfl
    · next hnone => rw [if_pos (Int64.not_lt.mp hnone)]; rfl
  · rfl

/-- Jobs that agree in all but the number of samples, and in the effective one, generate the same. -/
theorem generate_congr (hname : j.source.name = j'.source.name) (hgraph : j.graph = j'.graph)
    (hoptions : j.source.options = j'.source.options) (hapi : j.source.api = j'.source.api)
    (hsamples : j.source.effectiveSamples = j'.source.effectiveSamples) : j.generate = j'.generate := by
  have hcontext : j.context = j'.context.withSamples j.context.samples := by
    unfold context generator
    rw [hoptions, hapi]
    split <;> split <;> rfl
  have hcount : j.context.sampleCount = j'.context.sampleCount := by
    rw [sampleCount_context, sampleCount_context, hoptions, hsamples]
  rw [hcontext] at hcount
  have hgenerator : j.generator = j'.generator := congrArg FragmentGenerator.mk hapi
  unfold generate
  rw [hcontext, hname, hgraph, hgenerator, j'.generator.generate_withSamples hcount]
  rcases j'.generator.generate j'.source.name (some j'.graph) j'.context with ⟨r, c⟩
  cases r with
  | error e => rfl
  | ok s => rfl

end FragmentJob

end ShadeGraph
