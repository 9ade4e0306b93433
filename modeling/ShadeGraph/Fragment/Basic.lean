/-
  Fragments: what is kept of a generated shader.
-/
import ShadeGraph.Fragment.Generator

namespace ShadeGraph

/-- A uniform of a fragment. -/
structure FragmentParameter where
  /-- The name of the port. -/
  name : Text
  /-- What stands for the uniform in code. -/
  ident : Text
  type : DataType
  value : Option Value
  /-- Whether the host fills the uniform in, rather than the user. -/
  hostBound : Bool
  deriving DecidableEq, Repr

/-- A generated fragment. -/
structure Fragment where
  name : Text
  /-- The name of the root function. -/
  functionName : Text
  pixel : Text
  uniforms : Text
  parameters : List FragmentParameter
  transparent : Bool
  api : LightApi
  deriving DecidableEq, Repr

/-- Why a shader makes no fragment. -/
inductive FragmentError where
  | missingStage
  | notGenerated
  deriving DecidableEq, Repr

/-- The message of a fragment error. -/
def FragmentError.message : FragmentError → Text
  | .missingStage => "ogsfrag: shader missing pixel or uniforms stage"
  | .notGenerated => "ogsfrag: shader code not generated"

namespace FragmentGenerator

/-- The ports of a block; none without such a block. -/
def portsOf (b : Option VariableBlock) : List Port := (b.map VariableBlock.ports).getD []

/-- The public uniforms of a stage. -/
def publicPorts (s : Stage) : List Port := portsOf (s.uniformBlock? BlockName.publicUniforms)

/-- The private uniforms of a stage. -/
def privatePorts (s : Stage) : List Port := portsOf (s.uniformBlock? BlockName.privateUniforms)

end FragmentGenerator

namespace Fragment

/-- The parameter of a port. -/
def parameterOf (c : Context) (hostBound : Bool) (p : Port) : FragmentParameter :=
  let wide : Text := if p.type = .matrix33 then wideSuffix else []
  ⟨p.name, c.resolve p.ident ++ wide, p.type, p.value, hostBound⟩

/-- The parameters of a pixel stage: the host's uniforms, then the user's. -/
def parametersOf (c : Context) (ps : Stage) : List FragmentParameter :=
  (FragmentGenerator.privatePorts ps).map (parameterOf c true) ++
    (FragmentGenerator.publicPorts ps).map (parameterOf c false)

/-- The fragment of a generated shader. -/
def ofShader (g : FragmentGenerator) (s : Shader) (c : Context) : Except FragmentError Fragment :=
  match s.stage? pixelStage, s.stage? FragmentGenerator.uniformsStage with
  | some ps, some us =>
    if ps.functionName = [] then .error .notGenerated
    else
      .ok { name := s.name, functionName := ps.functionName, pixel := ps.code, uniforms := us.code
            parameters := parametersOf c ps, transparent := c.options.transparency, api := g.api }
  | _, _ => .error .missingStage

/-- The first parameter of a name. -/
def parameter? (f : Fragment) (name : Text) : Option FragmentParameter :=
  f.parameters.find? (·.name == name)

end Fragment
end ShadeGraph
