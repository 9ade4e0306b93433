/-
  The standard node library: image look-ups and the functions they share.
-/
import ShadeGraph.Text.Basic

namespace ShadeGraph.Library.Standard

/-- The file `stdlib/genglsl/lib/mx_math.glsl`. -/
def math : Text := Text.ofLines [
  "#define M_PI 3.1415926535897932",
  "#define M_PI_INV (1.0 / M_PI)",
  "",
  "float mx_square(float x)",
  "\x7b",
  "    return x * x;",
  "\x7d",
  "",
  "vec3 mx_square(vec3 x)",
  "\x7b",
  "    return x * x;",
  "\x7d",
  "",
  "float mx_max_component(vec3 v)",
  "\x7b",
  "    return max(max(v.x, v.y), v.z);",
  "\x7d",
  "",
  "float mx_luminance(vec3 c)",
  "\x7b",
  "    return dot(c, vec3(0.2126, 0.7152, 0.0722));",
  "\x7d",
  "",
  "vec2 mx_latlong_projection(vec3 dir)",
  "\x7b",
  "    float latitude = -asin(dir.y) * M_PI_INV + 0.5;",
  "    float longitude = atan(dir.x, -dir.z) * M_PI_INV * 0.5 + 0.5;",
  "    return vec2(longitude, latitude);",
  "\x7d"]

/-- The file `stdlib/genglsl/lib/mx_transform_uv.glsl`. -/
def transformUv : Text := Text.ofLines [
  "vec2 mx_transform_uv(vec2 uv)",
  "\x7b",
  "    return uv;",
  "\x7d"]

/-- The file `stdlib/genglsl/lib/mx_transform_uv_vflip.glsl`. -/
def transformUvVflip : Text := Text.ofLines [
  "vec2 mx_transform_uv(vec2 uv)",
  "\x7b",
  "    return vec2(uv.x, 1.0 - uv.y);",
  "\x7d"]

/-- The file `stdlib/genglsl/mx_image_color3.glsl`. -/
def imageColor3 : Text := Text.ofLines [
  "#include \"$fileTransformUv\"",
  "",
  "void mx_image_color3(sampler2D tex_sampler, vec3 defaultval, vec2 texcoord, out vec3 result)",
  "\x7b",
  "    vec2 uv = mx_transform_uv(texcoord);",
  "    if (uv.x < 0.0 || uv.x > 1.0 || uv.y < 0.0 || uv.y > 1.0)",
  "    \x7b",
  "        result = defaultval;",
  "        return;",
  "    \x7d",
  "    result = texture(tex_sampler, uv).rgb;",
  "\x7d"]

/-- The file `stdlib/genglsl/mx_image_color4.glsl`. -/
def imageColor4 : Text := Text.ofLines [
  "#include \"$fileTransformUv\"",
  "",
  "void mx_image_color4(sampler2D tex_sampler, vec4 defaultval, vec2 texcoord, out vec4 result)",
  "\x7b",
  "    vec2 uv = mx_transform_uv(texcoord);",
  "    if (uv.x < 0.0 || uv.x > 1.0 || uv.y < 0.0 || uv.y > 1.0)",
  "    \x7b",
  "        result = defaultval;",
  "        return;",
  "    \x7d",
  "    result = texture(tex_sampler, uv);",
  "\x7d"]

/-- The file `stdlib/genglsl/mx_image_float.glsl`. -/
def imageFloat : Text := Text.ofLines [
  "#include \"$fileTransformUv\"",
  "",
  "void mx_image_float(sampler2D tex_sampler, float defaultval, vec2 texcoord, out float result)",
  "\x7b",
  "    vec2 uv = mx_transform_uv(texcoord);",
  "    if (uv.x < 0.0 || uv.x > 1.0 || uv.y < 0.0 || uv.y > 1.0)",
  "    \x7b",
  "        result = defaultval;",
  "        return;",
  "    \x7d",
  "    result = texture(tex_sampler, uv).r;",
  "\x7d"]

/-- The file `stdlib/genglsl/mx_image_vector2.glsl`. -/
def imageVector2 : Text := Text.ofLines [
  "#include \"$fileTransformUv\"",
  "",
  "void mx_image_vector2(sampler2D tex_sampler, vec2 defaultval, vec2 texcoord, out vec2 result)",
  "\x7b",
  "    vec2 uv = mx_transform_uv(texcoord);",
  "    if (uv.x < 0.0 || uv.x > 1.0 || uv.y < 0.0 || uv.y > 1.0)",
  "    \x7b",
  "        result = defaultval;",
  "        return;",
  "    \x7d",
  "    result = texture(tex_sampler, uv).xy;",
  "\x7d"]

/-- The file `stdlib/genglsl/mx_image_vector3.glsl`. -/
def imageVector3 : Text := Text.ofLines [
  "#include \"$fileTransformUv\"",
  "",
  "void mx_image_vector3(sampler2D tex_sampler, vec3 defaultval, vec2 texcoord, out vec3 result)",
  "\x7b",
  "    vec2 uv = mx_transform_uv(texcoord);",
  "    if (uv.x < 0.0 || uv.x > 1.0 || uv.y < 0.0 || uv.y > 1.0)",
  "    \x7b",
  "        result = defaultval;",
  "        return;",
  "    \x7d",
  "    result = texture(tex_sampler, uv).xyz;",
  "\x7d"]

/-- The file `stdlib/genglsl/mx_image_vector4.glsl`. -/
def imageVector4 : Text := Text.ofLines [
  "#include \"$fileTransformUv\"",
  "",
  "void mx_image_vector4(sampler2D tex_sampler, vec4 defaultval, vec2 texcoord, out vec4 result)",
  "\x7b",
  "    vec2 uv = mx_transform_uv(texcoord);",
  "    if (uv.x < 0.0 || uv.x > 1.0 || uv.y < 0.0 || uv.y > 1.0)",
  "    \x7b",
  "        result = defaultval;",
  "        return;",
  "    \x7d",
  "    result = texture(tex_sampler, uv);",
  "\x7d"]

/-- The files of the standard node library, each with its path. -/
def files : List (Text × Text) := [
  ("stdlib/genglsl/lib/mx_math.glsl", math),
  ("stdlib/genglsl/lib/mx_transform_uv.glsl", transformUv),
  ("stdlib/genglsl/lib/mx_transform_uv_vflip.glsl", transformUvVflip),
  ("stdlib/genglsl/mx_image_color3.glsl", imageColor3),
  ("stdlib/genglsl/mx_image_color4.glsl", imageColor4),
  ("stdlib/genglsl/mx_image_float.glsl", imageFloat),
  ("stdlib/genglsl/mx_image_vector2.glsl", imageVector2),
  ("stdlib/genglsl/mx_image_vector3.glsl", imageVector3),
  ("stdlib/genglsl/mx_image_vector4.glsl", imageVector4)]

end ShadeGraph.Library.Standard
