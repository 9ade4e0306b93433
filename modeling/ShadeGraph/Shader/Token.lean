/-
  The tokens of hardware shaders, and the names of their blocks.

  Nodes and library files speak of what the host provides through tokens.  The standard table says what
  they stand for in plain GLSL; a target overrides the entries that its host names differently.
-/
import ShadeGraph.Glsl.TokenTable

namespace ShadeGraph

namespace Token

def positionWorld : Text := "$positionWorld"
def positionObject : Text := "$positionObject"
def normalWorld : Text := "$normalWorld"
def normalObject : Text := "$normalObject"
def tangentWorld : Text := "$tangentWorld"
def tangentObject : Text := "$tangentObject"
def bitangentWorld : Text := "$bitangentWorld"
def bitangentObject : Text := "$bitangentObject"
def texcoord : Text := "$texcoord"
def vertexData : Text := "$vd"
def viewPosition : Text := "$viewPosition"
def lightData : Text := "$lightData"
def activeLights : Text := "$numActiveLightSources"
def envMatrix : Text := "$envMatrix"
def envRadiance : Text := "$envRadiance"
def envRadianceMips : Text := "$envRadianceMips"
def envRadianceSamples : Text := "$envRadianceSamples"
def envIrradiance : Text := "$envIrradiance"
def albedoTable : Text := "$albedoTable"
def fileTransform : Text := "$fileTransformUv"
def frame : Text := "$frame"
def time : Text := "$time"

/-- The table of plain GLSL.  The file transform has no entry: which file it is depends on options. -/
def standard : TokenTable := .ofList [
  (positionWorld, "positionWorld"),
  (positionObject, "positionObject"),
  (normalWorld, "normalWorld"),
  (normalObject, "normalObject"),
  (tangentWorld, "tangentWorld"),
  (tangentObject, "tangentObject"),
  (bitangentWorld, "bitangentWorld"),
  (bitangentObject, "bitangentObject"),
  (texcoord, "texcoord"),
  (vertexData, "vd"),
  (viewPosition, "u_viewPosition"),
  (lightData, "u_lightData"),
  (activeLights, "u_numActiveLightSources"),
  (envMatrix, "u_envMatrix"),
  (envRadiance, "u_envRadiance"),
  (envRadianceMips, "u_envRadianceMips"),
  (envRadianceSamples, "u_envRadianceSamples"),
  (envIrradiance, "u_envIrradiance"),
  (albedoTable, "u_albedoTable"),
  (frame, "u_frame"),
  (time, "u_time")]

end Token

namespace BlockName

/-- The uniforms that the host fills in. -/
def privateUniforms : Text := "PrivateUniforms"

/-- The uniforms that the user sets. -/
def publicUniforms : Text := "PublicUniforms"

/-- What arrives for each vertex. -/
def vertexData : Text := "VertexData"

end BlockName

/-- The stage that shades. -/
def pixelStage : Text := "pixel"

end ShadeGraph
