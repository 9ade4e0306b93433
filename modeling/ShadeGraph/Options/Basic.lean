/-
  Options of code generation.
-/
import ShadeGraph.Options.Method

namespace ShadeGraph

/-- The options of code generation. -/
structure Options where
  /-- How many lights the code handles; fewer than one count as one. -/
  lights : UInt64
  /-- How the specular environment is sampled. -/
  specular : SpecularMethod
  /-- How the directional albedo is found. -/
  albedo : AlbedoMethod
  /-- Textures are read upside down. -/
  verticalFlip : Bool
  /-- The fragment returns an alpha channel. -/
  transparency : Bool
  deriving DecidableEq, Repr

namespace Options

/-- The options when nothing else is asked for. -/
def standard : Options := ⟨3, .sampled, .analytic, false, false⟩

/-- The number of lights that the code handles, at least one. -/
def activeLights (o : Options) : UInt64 := if o.lights < 1 then 1 else o.lights

end Options
end ShadeGraph
