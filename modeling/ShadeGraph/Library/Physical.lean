/-
  The physically based node library: closures, surfaces, and lighting for the host renderer.
-/
import ShadeGraph.Text.Basic

namespace ShadeGraph.Library.Physical

/-- The file `pbrlib/genglsl/mx_diffuse_bsdf.glsl`. -/
def diffuseBsdf : Text := Text.ofLines [
  "void mx_diffuse_bsdf(float weight, vec3 color, out BSDF result)",
  "\x7b",
  "    weight = clamp(weight, 0.0, 1.0);",
  "    result.response = color * weight;",
  "    result.throughput = vec3(1.0 - weight);",
  "\x7d"]

/-- The file `pbrlib/genglsl/mx_surface.glsl`. -/
def surface : Text := Text.ofLines [
  "#include \"pbrlib/genglsl/ogsxml/mx_light_rig_maya.glsl\"",
  "",
  "void mx_surface(BSDF bsdf, EDF edf, float opacity, out surfaceshader result)",
  "\x7b",
  "    vec3 P = $vd.$positionWorld;",
  "    vec3 N = normalize($vd.$normalWorld);",
  "    vec3 V = normalize($viewPosition - P);",
  "    if (dot(N, V) < 0.0)",
  "    \x7b",
  "        N = -N;",
  "    \x7d",
  "    vec3 irradiance = mx_direct_lighting(P, N) + mx_environment_irradiance(N);",
  "    result.color = bsdf.response * irradiance * M_PI_INV + edf;",
  "    result.transparency = vec3(1.0 - clamp(opacity, 0.0, 1.0));",
  "\x7d"]

/-- The file `pbrlib/genglsl/mx_surface_unlit.glsl`. -/
def surfaceUnlit : Text := Text.ofLines [
  "void mx_surface_unlit(float emission, vec3 emission_color, float opacity, out surfaceshader result)",
  "\x7b",
  "    result.color = emission * emission_color;",
  "    result.transparency = vec3(1.0 - clamp(opacity, 0.0, 1.0));",
  "\x7d"]

/-- The file `pbrlib/genglsl/ogsxml/mx_light_rig_maya.glsl`. -/
def lightRigMaya : Text := Text.ofLines [
  "struct LightData",
  "\x7b",
  "    int type;",
  "    vec3 direction;",
  "    vec3 color;",
  "    float intensity;",
  "\x7d;",
  "",
  "// Filled in by the host light rig before evaluation.",
  "LightData $lightData[MAX_LIGHT_SOURCES];",
  "int $numActiveLightSources = 0;",
  "",
  "vec3 g_diffuseI;",
  "vec3 g_specularI;",
  "",
  "vec3 mx_direct_lighting(vec3 P, vec3 N)",
  "\x7b",
  "    vec3 result = vec3(0.0);",
  "    int numLights = min($numActiveLightSources, MAX_LIGHT_SOURCES);",
  "    for (int i = 0; i < numLights; ++i)",
  "    \x7b",
  "        vec3 L = -normalize($lightData[i].direction);",
  "        result += $lightData[i].color * $lightData[i].intensity * max(dot(N, L), 0.0);",
  "    \x7d",
  "    return result;",
  "\x7d"]

/-- The file `pbrlib/genglsl/ogsxml/mx_lighting_maya_none.glsl`. -/
def lightingMayaNone : Text := Text.ofLines [
  "vec3 mx_environment_radiance(vec3 N, vec3 V, float roughness)",
  "\x7b",
  "    return vec3(0.0);",
  "\x7d",
  "",
  "vec3 mx_environment_irradiance(vec3 N)",
  "\x7b",
  "    return vec3(0.0);",
  "\x7d"]

/-- The file `pbrlib/genglsl/ogsxml/mx_lighting_maya_v1.glsl`. -/
def lightingMayaV1 : Text := Text.ofLines [
  "#include \"pbrlib/genglsl/ogsxml/mx_light_rig_maya.glsl\"",
  "",
  "vec3 mx_environment_radiance(vec3 N, vec3 V, float roughness)",
  "\x7b",
  "    return g_specularI;",
  "\x7d",
  "",
  "vec3 mx_environment_irradiance(vec3 N)",
  "\x7b",
  "    return g_diffuseI;",
  "\x7d"]

/-- The file `pbrlib/genglsl/ogsxml/mx_lighting_maya_v2.glsl`. -/
def lightingMayaV2 : Text := Text.ofLines [
  "// Environment functions implemented by the host renderer.",
  "vec3 mayaGetSpecularEnvironment(vec3 Nw, vec3 Vw, float phongExp);",
  "vec3 mayaGetIrradianceEnvironment(vec3 Nw);",
  "float mayaRoughnessToPhongExp(float roughness);",
  "",
  "vec3 mx_environment_radiance(vec3 N, vec3 V, float roughness)",
  "\x7b",
  "    return mayaGetSpecularEnvironment(N, V, mayaRoughnessToPhongExp(roughness));",
  "\x7d",
  "",
  "vec3 mx_environment_irradiance(vec3 N)",
  "\x7b",
  "    return mayaGetIrradianceEnvironment(N);",
  "\x7d"]

/-- The file `pbrlib/genglsl/ogsxml/mx_lighting_maya_v3.glsl`. -/
def lightingMayaV3 : Text := Text.ofLines [
  "#if DIRECTIONAL_ALBEDO_METHOD == 1",
  "float mx_directional_albedo(float NdotV, float roughness)",
  "\x7b",
  "    return texture($albedoTable, vec2(NdotV, roughness)).r;",
  "\x7d",
  "#else",
  "float mx_directional_albedo(float NdotV, float roughness)",
  "\x7b",
  "    return 1.0 - 0.5 * roughness * (1.0 - NdotV);",
  "\x7d",
  "#endif",
  "",
  "vec3 mx_environment_sample(vec3 dir, float lod)",
  "\x7b",
  "    vec3 envDir = normalize(($envMatrix * vec4(dir, 0.0)).xyz);",
  "    vec2 uv = mx_latlong_projection(envDir);",
  "    return textureLod($envRadiance, uv, lod).rgb;",
  "\x7d",
  "",
  "vec3 mx_environment_radiance(vec3 N, vec3 V, float roughness)",
  "\x7b",
  "    vec3 R = reflect(-V, N);",
  "    float lod = roughness * float($envRadianceMips - 1);",
  "    vec3 radiance = vec3(0.0);",
  "    for (int i = 0; i < MX_NUM_FIS_SAMPLES; ++i)",
  "    \x7b",
  "        float t = (float(i) + 0.5) / float(MX_NUM_FIS_SAMPLES);",
  "        vec3 H = normalize(mix(R, N, t * roughness));",
  "        radiance += mx_environment_sample(H, lod);",
  "    \x7d",
  "    radiance /= float(MX_NUM_FIS_SAMPLES);",
  "    return radiance * mx_directional_albedo(max(dot(N, V), 0.0), roughness);",
  "\x7d",
  "",
  "vec3 mx_environment_irradiance(vec3 N)",
  "\x7b",
  "    vec3 envDir = normalize(($envMatrix * vec4(N, 0.0)).xyz);",
  "    return texture($envIrradiance, mx_latlong_projection(envDir)).rgb;",
  "\x7d"]

/-- The file `pbrlib/genglsl/ogsxml/mx_lights_maya.glsl`. -/
def lightsMaya : Text := Text.ofLines [
  "// Light functions implemented by the host renderer.",
  "int mayaGetNumLights();",
  "vec3 mayaGetLightIrradiance(int lightIdx, vec3 Pw, vec3 Nw);",
  "",
  "vec3 mx_direct_lighting(vec3 P, vec3 N)",
  "\x7b",
  "    vec3 result = vec3(0.0);",
  "    int numLights = min(mayaGetNumLights(), MAX_LIGHT_SOURCES);",
  "    for (int i = 0; i < numLights; ++i)",
  "    \x7b",
  "        result += mayaGetLightIrradiance(i, P, N);",
  "    \x7d",
  "    return result;",
  "\x7d"]

/-- The file `pbrlib/genglsl/ogsxml/mx_surface_maya.glsl`. -/
def surfaceMaya : Text := Text.ofLines [
  "#include \"pbrlib/genglsl/ogsxml/mx_lights_maya.glsl\"",
  "",
  "void mx_surface(BSDF bsdf, EDF edf, float opacity, out surfaceshader result)",
  "\x7b",
  "    vec3 P = $vd.$positionWorld;",
  "    vec3 N = normalize($vd.$normalWorld);",
  "    vec3 V = normalize($viewPosition - P);",
  "    if (dot(N, V) < 0.0)",
  "    \x7b",
  "        N = -N;",
  "    \x7d",
  "    vec3 irradiance = mx_direct_lighting(P, N) + mx_environment_irradiance(N);",
  "    result.color = bsdf.response * irradiance * M_PI_INV + edf;",
  "    result.transparency = vec3(1.0 - clamp(opacity, 0.0, 1.0));",
  "\x7d"]

/-- The files of the physically based node library, each with its path. -/
def files : List (Text × Text) := [
  ("pbrlib/genglsl/mx_diffuse_bsdf.glsl", diffuseBsdf),
  ("pbrlib/genglsl/mx_surface.glsl", surface),
  ("pbrlib/genglsl/mx_surface_unlit.glsl", surfaceUnlit),
  ("pbrlib/genglsl/ogsxml/mx_light_rig_maya.glsl", lightRigMaya),
  ("pbrlib/genglsl/ogsxml/mx_lighting_maya_none.glsl", lightingMayaNone),
  ("pbrlib/genglsl/ogsxml/mx_lighting_maya_v1.glsl", lightingMayaV1),
  ("pbrlib/genglsl/ogsxml/mx_lighting_maya_v2.glsl", lightingMayaV2),
  ("pbrlib/genglsl/ogsxml/mx_lighting_maya_v3.glsl", lightingMayaV3),
  ("pbrlib/genglsl/ogsxml/mx_lights_maya.glsl", lightsMaya),
  ("pbrlib/genglsl/ogsxml/mx_surface_maya.glsl", surfaceMaya)]

end ShadeGraph.Library.Physical
