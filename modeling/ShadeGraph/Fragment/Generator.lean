/-
  Generating fragments.

  A fragment is a root function that takes the public uniforms and the vertex data of a graph as its
  arguments and returns a color, with the functions that it calls.  Its pixel stage holds, in this order:
  the structure for vertex data, definitions and types, constants, shared library code, the lighting code
  that the options ask for, the functions of the nodes, and the root function.  A second stage holds the
  declarations of the uniforms alone.
-/
import ShadeGraph.Fragment.Color
import ShadeGraph.Fragment.LightApi
import ShadeGraph.Shader.Create

namespace ShadeGraph

/-- A generator of fragments for a version of the host's light interface. -/
structure FragmentGenerator where
  api : LightApi
  deriving DecidableEq, Repr

namespace FragmentGenerator

/-! ## Names of the host -/

/-- The stage that holds the declarations of uniforms. -/
def uniformsStage : Text := "uniforms"

/-- The argument that tells the host that the fragment is transparent. -/
def transparencyArgument : Text := "vp2Transparent"

/-- The variable that functions read vertex data from. -/
def vertexDataVariable : Text := "g_mxVertexData"

/-- The arguments through which the host passes light before version two. -/
def lightResult : Text := "lightLoopResult"

@[inherit_doc lightResult]
def irradianceSample : Text := "diffuseI"

@[inherit_doc lightResult]
def radianceSample : Text := "specularI"

@[inherit_doc lightResult]
def roughness : Text := "roughness"

/-- What stands in front of the names of global variables. -/
def globalPrefix : Text := "g_"

/-- The number of environment samples when nothing else is asked for. -/
def defaultSamples : Int64 := 64

namespace Path

def mathematics : Text := "stdlib/genglsl/lib/mx_math.glsl"
def transform : Text := "stdlib/genglsl/lib/mx_transform_uv.glsl"
def flippedTransform : Text := "stdlib/genglsl/lib/mx_transform_uv_vflip.glsl"
def lightingSampled : Text := "pbrlib/genglsl/ogsxml/mx_lighting_maya_v3.glsl"
def lightingLegacy : Text := "pbrlib/genglsl/ogsxml/mx_lighting_maya_v1.glsl"
def lightingPrefiltered : Text := "pbrlib/genglsl/ogsxml/mx_lighting_maya_v2.glsl"
def lightingOff : Text := "pbrlib/genglsl/ogsxml/mx_lighting_maya_none.glsl"

end Path

/-- The generator for version two. -/
def standard : FragmentGenerator := ⟨.v2⟩

/-- The implementations: from version two on, surfaces ask the host for lights. -/
def registry (g : FragmentGenerator) : Registry :=
  if g.api.isLegacy then .standard
  else Registry.standard.register (Implementation.surface .host).definition (.surface .host)

/-- The tokens: vertex data has the names of the host, and before version two lights are global. -/
def tokens (g : FragmentGenerator) : TokenTable :=
  let named := Token.standard.setAll [
    (Token.positionWorld, "Pw"),
    (Token.positionObject, "Pm"),
    (Token.normalWorld, "Nw"),
    (Token.normalObject, "Nm"),
    (Token.tangentWorld, "Tw"),
    (Token.tangentObject, "Tm"),
    (Token.bitangentWorld, "Bw"),
    (Token.bitangentObject, "Bm"),
    (Token.vertexData, vertexDataVariable)]
  if g.api.isLegacy then
    named.setAll [
      (Token.lightData, "g_lightData"),
      (Token.activeLights, "g_numActiveLightSources")]
  else named

/-- What tokens stand for in a context: in one that does not say so, what they do for the generator. -/
def tokensIn (g : FragmentGenerator) (c : Context) : TokenTable := c.tokens.getD g.tokens

/-- A context for one fragment. -/
def context (g : FragmentGenerator) (o : Options) : Context :=
  { options := o, dialect := some ⟨.fragment, .general⟩, declarations := some .fragment
    includer := some .standard, tokens := some g.tokens, reserved := [transparencyArgument]
    samples := .absent }

/-! ## The shader before code is written -/

/-- The arguments through which the host passes light before version two. -/
def lightRigPorts : List Port :=
  let color (name : Text) := VariableBlock.plainPort name .color3 (some (.zero .color3))
  [color lightResult, color irradianceSample, color radianceSample,
    VariableBlock.plainPort roughness .float (some (.float .zero))]

/-- Makes the shader of a fragment; no code is written. -/
def createShader (g : FragmentGenerator) (name : Text) (graph : Option Graph)
    (context : Option Context) : Except ShaderError Shader :=
  match Shader.create g.registry name graph context with
  | .error e => .error e
  | .ok s => do
    let s ←
      if s.graph.requiresLighting && g.api.isLegacy then
        s.addUniforms BlockName.publicUniforms lightRigPorts
      else .ok s
    return s.createStage uniformsStage

/-! ## What code is written from -/

/-- A stage of a shader, which must be there. -/
def requireStage (s : Shader) (name : Text) : Except ShaderError Stage :=
  match s.stage? name with
  | none => .error (.noStage name)
  | some stage => .ok stage

/-- The ports of a block, which must be there. -/
def requirePorts (name : Text) (block : Option VariableBlock) : Except ShaderError (List Port) :=
  match block with
  | none => .error (.noBlock name)
  | some b => .ok b.ports

/-- The vertex data of a stage. -/
def readVertex (s : Stage) : Except ShaderError (List Port) :=
  requirePorts BlockName.vertexData (s.inputBlock? BlockName.vertexData)

/-- The public uniforms of a stage. -/
def readPublic (s : Stage) : Except ShaderError (List Port) :=
  requirePorts BlockName.publicUniforms (s.uniformBlock? BlockName.publicUniforms)

/-- The private uniforms of a stage. -/
def readPrivate (s : Stage) : Except ShaderError (List Port) :=
  requirePorts BlockName.privateUniforms (s.uniformBlock? BlockName.privateUniforms)

/-- How a context writes numbers. -/
def readFormat (c : Context) : Except ShaderError FloatFormat :=
  match c.dialect with
  | none => .error (.code .missingPart)
  | some d => .ok d.format

/-- How a context declares variables. -/
def readStyle (c : Context) : Except ShaderError DeclarationStyle :=
  match c.declarations with
  | none => .error (.code .missingPart)
  | some style => .ok style

/-! ## Pieces of code -/

/-- Closes a scope. -/
def closeScope (s : Stage) (newline : Bool) : Except ShaderError Stage :=
  match s.endScope false newline with
  | .ok s => .ok s
  | .error f => .error (.stage f)

/-- Includes shared code. -/
def includeCode (c : Context) (path : Text) (s : Stage) : Except ShaderError Stage :=
  match c.expandInclude path s with
  | .ok s => .ok s
  | .error f => .error (.code f.error)

/-- Writes the structure that functions read vertex data from; nothing without vertex data. -/
def writeVertexData (style : DeclarationStyle) (format : FloatFormat) (ports : List Port) (s : Stage) :
    Except ShaderError Stage :=
  if ports = [] then .ok s
  else do
    let s := (s.line "struct" false).beginScope .brace
    let s ← closeScope (s.declareAll style format ports [] ";" false) false
    return ((s.write (" " ++ Token.vertexData)).endLine true).newline

/-- A definition of a number, and an empty line. -/
def writeDefine (name : Text) (n : Int64) (s : Stage) : Stage :=
  (s.line ("#define " ++ name ++ " " ++ Text.ofInt n.toInt) false).newline

/-- Writes the constants and an empty line; nothing without constants. -/
def writeConstants (style : DeclarationStyle) (format : FloatFormat) (s : Stage) : Stage :=
  if s.constants.ports = [] then s
  else (s.declareAll style format s.constants.ports Glsl.constantQualifier ";" true).newline

/-- Writes the lighting code of the specular method. -/
def writeLighting (g : FragmentGenerator) (c : Context) (s : Stage) : Except ShaderError Stage :=
  let method := c.options.specular
  if method = .sampled then
    let s := writeDefine "DIRECTIONAL_ALBEDO_METHOD" c.options.albedo.code s
    let s := writeDefine "MX_NUM_FIS_SAMPLES" (c.samples.count?.getD defaultSamples) s
    includeCode c Path.lightingSampled s
  else if method = .prefiltered then
    includeCode c (if g.api.isLegacy then Path.lightingLegacy else Path.lightingPrefiltered) s
  else if method = .off then includeCode c Path.lightingOff s
  else .error (.specularMethod method.code)

/-- Writes everything in front of the functions of the nodes. -/
def writePreamble (g : FragmentGenerator) (c : Context) (s : Stage) : Except ShaderError Stage := do
  let format ← readFormat c
  let style ← readStyle c
  let vertex ← readVertex s
  let s ← writeVertexData style format vertex s
  let s := writeDefine "MAX_LIGHT_SOURCES" c.options.activeLights.toInt64 s
  let s := writeConstants style format s.defineTypes
  let s ← includeCode c Path.mathematics s
  let s ← g.writeLighting c s.newline
  return s.newline

/-- The pixel stage of a shader with the preamble in it. -/
def openPixel (g : FragmentGenerator) (c : Context) (shader : Shader) : Except ShaderError Stage := do
  let ps ← requireStage shader pixelStage
  g.writePreamble c ps

/-! ## The root function -/

/-- The type that the root function returns. -/
def returnType (transparent : Bool) : Text := if transparent then "vec4" else "vec3"

/-- The arguments of the root function for its ports, as they are declared. -/
def arguments (format : FloatFormat) (ports : List Port) (transparent : Bool) : List Text :=
  ports.map (fun p => p.declaration .fragment format [] false) ++
    if transparent then ["float " ++ transparencyArgument] else []

/-- Writes arguments, one on each line, with commas between them. -/
def writeArguments : List Text → Stage → Stage
  | [], s => s
  | [a], s => s.line a false
  | a :: rest, s => writeArguments rest (s.line (a ++ ",") false)

/-- The statements that make the arguments available to the functions: vertex data is copied, samples of
the environment are stored, and 3 by 3 matrices are taken out of the 4 by 4 ones. -/
def bindings (published vertex : List Port) (lightRig : Bool) : List Text :=
  let copies := vertex.map fun p => Token.vertexData ++ "." ++ p.ident ++ " = " ++ p.ident
  let samples : List Text :=
    if lightRig then
      [globalPrefix ++ irradianceSample ++ " = " ++ irradianceSample,
        globalPrefix ++ radianceSample ++ " = " ++ radianceSample]
    else []
  let matrices := (published.filter (·.type == .matrix33)).map fun p =>
    "mat3 " ++ p.ident ++ " = mat3(" ++ p.ident ++ wideSuffix ++ ")"
  copies ++ samples ++ matrices

/-- An expression of a type as the color that the root function returns. -/
def color (transparent : Bool) (t : DataType) (e : Text) : Text :=
  if transparent then Color.toVec4 t e else Color.toVec3 t e

/-- The color of a surface. -/
def surfaceColor (transparent : Bool) (surface : Text) : Text :=
  if transparent then
    "vec4(" ++ surface ++ ".color, clamp(1.0 - dot(" ++ surface ++
      ".transparency, vec3(0.3333)), 0.0, 1.0))"
  else surface ++ ".color"

/-- The statements that return the color of the output socket. -/
def returnStatements (format : FloatFormat) (g : ShaderGraph) (transparent : Bool) : List Text :=
  let socket := g.socket
  let t := socket.port.type
  match socket.connection with
  | some p =>
    let result :=
      if socket.channels = [] then p.ident
      else Swizzle.expression p.ident p.type socket.channels t
    if g.classification.has .surface then ["return " ++ surfaceColor transparent result]
    else ["return " ++ color transparent t result]
  | none =>
    let value :=
      match socket.port.value with
      | some v => v.literal format
      | none => t.glslDefault
    if (if transparent then t.isFloat4 else t.isFloat3) then ["return " ++ value]
    else
      let local? := socket.port.ident ++ "_tmp"
      [t.glslName ++ " " ++ local? ++ " = " ++ value, "return " ++ color transparent t local?]

/-- Writes statements, one on each line. -/
def writeStatements (statements : List Text) (s : Stage) : Stage :=
  statements.foldl (fun s t => s.line t true) s

/-- Writes the body of the root function, whose arguments are given.  A closure by itself cannot be shown
and is black. -/
def writeBody (g : FragmentGenerator) (c : Context) (format : FloatFormat) (graph : ShaderGraph)
    (published vertex : List Port) (s : Stage) : Except ShaderError Stage :=
  if graph.classification.has .closure && !graph.classification.has .shader then
    .ok (s.line "return vec3(0.0)" true)
  else
    let lightRig := graph.requiresLighting && g.api.isLegacy
    let s := writeStatements (bindings published vertex lightRig) s
    match Shader.callFunctions c graph.nodes s with
    | .error f => .error f.error
    | .ok s => .ok (writeStatements (returnStatements format graph c.options.transparency) s)

/-- Writes the root function. -/
def writeRoot (g : FragmentGenerator) (c : Context) (graph : ShaderGraph) (name : Text) (s : Stage) :
    Except ShaderError Stage := do
  let format ← readFormat c
  let published ← readPublic s
  let vertex ← readVertex s
  let transparent := c.options.transparency
  let s := s.setFunctionName name
  let s := (s.line (returnType transparent ++ " " ++ name) false).beginScope .parenthesis
  let s ← closeScope (writeArguments (arguments format (published ++ vertex) transparent) s) true
  let s ← g.writeBody c format graph published vertex (s.beginScope .brace)
  closeScope s true

/-! ## Uniforms -/

/-- Writes the declaration of a uniform; a sampler also gets the name of its texture. -/
def writeUniform (format : FloatFormat) (s : Stage) (p : Port) : Stage :=
  let texture := Sampler.texture p.ident
  let s := if texture = [] then s else s.beginLine.write (Glsl.define p.ident texture)
  s.line (p.declaration .fragment format Glsl.uniformQualifier true) true

/-- Writes the declarations of uniforms and an empty line; nothing without uniforms. -/
def writeUniforms (format : FloatFormat) (s : Stage) (ports : List Port) : Stage :=
  if ports = [] then s else (ports.foldl (writeUniform format) s).newline

/-- Replaces the tokens of a stage. -/
def finish (s : Stage) (ts : TokenTable) : Except ShaderError Stage :=
  match s.replaceTokens ts with
  | .ok s => .ok s
  | .error f => .error (.stage f)

/-! ## The fragment -/

/-- The file that turns texture coordinates. -/
def transformPath (o : Options) : Text :=
  if o.verticalFlip then Path.flippedTransform else Path.transform

/-- Writes the functions of the nodes and the root function behind the preamble.  The shader takes the name
of the root function. -/
def writeFunctions (g : FragmentGenerator) (c : Context) (shader : Shader) (ps : Stage) :
    Except ShaderError (Shader × Stage) := do
  let ps ← match Shader.defineFunctions c shader.graph.nodes [] ps with
    | .ok s => .ok s
    | .error f => .error f.error
  let (name, ids) := shader.graph.identifiers.makeIdentifier shader.name
  let ps ← g.writeRoot c shader.graph name ps
  return (shader.setIdentifiers ids, ps)

/-- Makes a shader and writes all code of its pixel stage, whose tokens are not replaced yet.  The context
afterwards may have its tokens filled in, and its file transform is set once the lighting code has been
written. -/
def writePixel (g : FragmentGenerator) (name : Text) (graph : Option Graph) (c : Context) :
    Except ShaderError (Shader × Stage) × Context :=
  match g.createShader name graph (some c) with
  | .error e => (.error e, c)
  | .ok shader =>
    let ts := g.tokensIn c
    let before := { c with tokens := some ts }
    match g.openPixel (before.withFormat .fixed) shader with
    | .error e => (.error e, before)
    | .ok ps =>
      let after := { c with tokens := some (ts.set Token.fileTransform (transformPath c.options)) }
      (g.writeFunctions (after.withFormat .fixed) shader ps, after)

/-- Completes both stages of a shader from its pixel stage with all code. -/
def complete (c : Context) (ts : TokenTable) (shader : Shader) (ps : Stage) :
    Except ShaderError Shader := do
  let ps ← finish ps ts
  let us ← requireStage shader uniformsStage
  let format ← readFormat c
  let hidden ← readPrivate ps
  let published ← readPublic ps
  let us ← finish (writeUniforms format (writeUniforms format us hidden) published) ts
  return (shader.setStage ps).setStage us

/-- Generates a fragment, and says what the context is afterwards. -/
def generate (g : FragmentGenerator) (name : Text) (graph : Option Graph) (c : Context) :
    Except ShaderError Shader × Context :=
  match g.writePixel name graph c with
  | (.error e, after) => (.error e, after)
  | (.ok (shader, ps), after) =>
    (complete (after.withFormat .fixed) (g.tokensIn after) shader ps, after)

/-- All steps of generating a fragment, one after the other. -/
theorem generate_eq (g : FragmentGenerator) (name : Text) (graph : Option Graph) (c : Context) :
    g.generate name graph c =
      match g.createShader name graph (some c) with
      | .error e => (.error e, c)
      | .ok shader =>
        let ts := (g.tokensIn c).set Token.fileTransform (transformPath c.options)
        let before := { c with tokens := some (g.tokensIn c) }
        let after := { c with tokens := some ts }
        match g.openPixel (before.withFormat .fixed) shader with
        | .error e => (.error e, before)
        | .ok ps =>
          ((g.writeFunctions (after.withFormat .fixed) shader ps).bind fun (shader, ps) =>
            complete (after.withFormat .fixed) ts shader ps, after) := by
  rw [generate, writePixel]
  cases g.createShader name graph (some c) with
  | error e => rfl
  | ok shader =>
    dsimp only
    cases g.openPixel (({ c with tokens := some (g.tokensIn c) } : Context).withFormat .fixed) shader with
    | error e => rfl
    | ok ps =>
      dsimp only
      cases g.writeFunctions (({ c with
        tokens := some ((g.tokensIn c).set Token.fileTransform (transformPath c.options)) } :
          Context).withFormat .fixed) shader ps with
      | error e => rfl
      | ok w => rfl

end FragmentGenerator
end ShadeGraph
