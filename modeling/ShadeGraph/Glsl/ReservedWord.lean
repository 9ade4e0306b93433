/-
  Words that generated code must not use as names of its own: the keywords and reserved words of GLSL,
  built-in functions, and the types that every generated text declares.
-/
import ShadeGraph.Text.Basic

namespace ShadeGraph.Glsl

/-- Keywords and words reserved by the language. -/
def keywords : List String :=
  ["attribute", "const", "uniform", "varying", "buffer", "shared", "coherent", "volatile",
    "restrict", "readonly", "writeonly", "atomic_uint", "layout", "centroid", "flat", "smooth",
    "noperspective", "patch", "sample", "break", "continue", "do", "for", "while", "switch",
    "case", "default", "if", "else", "subroutine", "in", "out", "inout", "float", "double", "int",
    "void", "bool", "true", "false", "invariant", "precise", "discard", "return", "mat2", "mat3",
    "mat4", "dmat2", "dmat3", "dmat4", "mat2x2", "mat2x3", "mat2x4", "mat3x2", "mat3x3", "mat3x4",
    "mat4x2", "mat4x3", "mat4x4", "vec2", "vec3", "vec4", "ivec2", "ivec3", "ivec4", "bvec2",
    "bvec3", "bvec4", "dvec2", "dvec3", "dvec4", "uint", "uvec2", "uvec3", "uvec4", "lowp",
    "mediump", "highp", "precision", "sampler1D", "sampler2D", "sampler3D", "samplerCube",
    "sampler2DShadow", "sampler2DArray", "struct", "common", "partition", "active", "asm",
    "class", "union", "enum", "typedef", "template", "this", "resource", "goto", "inline",
    "noinline", "public", "static", "extern", "external", "interface", "long", "short", "half",
    "fixed", "unsigned", "superp", "input", "output", "hvec2", "hvec3", "hvec4", "fvec2", "fvec3",
    "fvec4", "sampler3DRect", "filter", "image1D", "image2D", "image3D", "imageCube", "sizeof",
    "cast", "namespace", "using"]

/-- Built-in functions that a variable would hide. -/
def builtinFunctions : List String :=
  ["radians", "degrees", "sin", "cos", "tan", "asin", "acos", "atan", "pow", "exp", "log", "exp2",
    "log2", "sqrt", "inversesqrt", "abs", "sign", "floor", "ceil", "fract", "mod", "min", "max",
    "clamp", "mix", "step", "smoothstep", "length", "distance", "dot", "cross", "normalize",
    "reflect", "refract", "texture", "transpose", "inverse", "determinant"]

/-- Types declared in front of all generated code. -/
def declaredTypes : List String :=
  ["BSDF", "EDF", "VDF", "surfaceshader", "volumeshader", "displacementshader", "lightshader",
    "material", "LightData"]

/-- All reserved words. -/
def reservedWords : List Text :=
  (keywords ++ builtinFunctions ++ declaredTypes).map Text.ofString

end ShadeGraph.Glsl
