/-
  What the files of the built-in library hold.

  1. `Source.signatures` reads off the functions that a file defines, each with its name and the types of its
     parameters.  A prototype, which ends in a semicolon, defines nothing.
  2. Some files define the same functions, so that only one of them may be expanded: they are listed as
     `rivals`.
  3. The brackets of every file are balanced, few files speak of the environment or of the view, and none
     defines how many lights there are.
  4. All of it is read in one evaluation of the spelled library, `SearchPath.standard_texts`.
-/
import ShadeGraph.Proofs.Brackets
import ShadeGraph.Proofs.PixelText

namespace ShadeGraph

/-! ## Functions that a file defines -/

namespace Source

/-- A function by its name and the types of its parameters. -/
structure Signature where
  name : Text
  parameters : List Text
  deriving DecidableEq

/-- The type of a parameter: what stands in front of its last space. -/
def parameterType (parameter : Text) : Text :=
  Text.trim (parameter.reverse.dropWhile (· != 32)).reverse

/-- The signature that a line gives, from its first space to the parenthesis at its end. -/
def signature? (line : Text) : Option Signature :=
  match definedName? line, Text.indexOf? Bracket.parenthesis.opener line with
  | some name, some start =>
    if line.getLast? = some Bracket.parenthesis.closer then
      some ⟨name, (Text.splitOn 44 (line.drop (start + 1)).dropLast).map parameterType⟩
    else none
  | _, _ => none

/-- The functions that lines define: a signature, and a line with an opening brace alone. -/
def signaturesIn : List Text → List Signature
  | line :: next :: rest =>
    (if next = [Bracket.brace.opener] then (signature? line).toList else []) ++ signaturesIn (next :: rest)
  | _ => []

/-- The functions that a file defines. -/
def signatures (source : Text) : List Signature := signaturesIn (Context.sourceLines source)

example : signatures (Text.ofLines ["vec3 f(vec3 N);", "vec3 f(vec3 N, out float x)", "\x7b", "\x7d"]) =
    [⟨"f", ["vec3", "out float"]⟩] := by decide

end Source

/-! ## Texts and requests of steps -/

namespace CodeStep

/-- The text that a step writes by itself. -/
def text : CodeStep → Text
  | write t => t
  | ask _ => []

/-- The path that a step asks for. -/
def path? : CodeStep → Option Text
  | write _ => none
  | ask path => some path

theorem mem_filterMap_path? {steps : List CodeStep} {path : Text} :
    path ∈ steps.filterMap path? ↔ ask path ∈ steps := by
  rw [List.mem_filterMap]
  constructor
  · rintro ⟨step, hstep, hpath⟩
    cases step with
    | write t => cases hpath
    | ask p => exact Option.some.inj hpath ▸ hstep
  · exact fun h => ⟨ask path, h, rfl⟩

end CodeStep

/-! ## Files by path -/

namespace SearchPath

/-- The text of a file; empty for a path without a file. -/
def sourceOf (libraries : SearchPath) (path : Text) : Text := ((libraries.read path).toOption).getD []

theorem sourceOf_eq {libraries : SearchPath} {path source : Text} (h : libraries.read path = .ok source) :
    libraries.sourceOf path = source := by
  rw [sourceOf, h]
  rfl

/-- What a file writes by itself, without the files that it asks for. -/
def ownText (libraries : SearchPath) (path : Text) : Text :=
  (Source.steps (libraries.sourceOf path)).flatMap CodeStep.text

/-- The paths that a file asks for. -/
def askedBy (libraries : SearchPath) (path : Text) : List Text :=
  (Source.steps (libraries.sourceOf path)).filterMap CodeStep.path?

/-- The files that a file asks for are those of its steps. -/
theorem mem_askedBy_iff {libraries : SearchPath} {file source path : Text}
    (h : libraries.read file = .ok source) :
    path ∈ libraries.askedBy file ↔ CodeStep.ask path ∈ Source.steps source := by
  rw [askedBy, sourceOf_eq h, CodeStep.mem_filterMap_path?]

/-- The functions that a file defines. -/
def signaturesOf (libraries : SearchPath) (path : Text) : List Source.Signature :=
  Source.signatures (libraries.sourceOf path)

end SearchPath

namespace FragmentGenerator

namespace Path

def surfaceRig : Text := "pbrlib/genglsl/mx_surface.glsl"
def surfaceHost : Text := "pbrlib/genglsl/ogsxml/mx_surface_maya.glsl"

/-- The files of images. -/
def images : List Text := Registry.arithmeticTypes.filterMap fun t => (Implementation.image t).sourcePath?

end Path

/-- The paths of the built-in library. -/
def libraryPaths : List Text := Library.builtIn.files.map Prod.fst

/-- Files that define the same functions in different ways. -/
def rivals : List (List Text) :=
  [[Path.surfaceRig, Path.surfaceHost], [Path.lightRig, Path.hostLights],
    [Path.transform, Path.flippedTransform],
    [Path.lightingSampled, Path.lightingLegacy, Path.lightingPrefiltered, Path.lightingOff]]

/-- What the files of the library ask for. -/
def requests (path : Text) : List Text :=
  if path = Path.surfaceRig ∨ path = Path.lightingLegacy then [Path.lightRig]
  else if path = Path.surfaceHost then [Path.hostLights]
  else if path ∈ Path.images then [Token.fileTransform]
  else []

/-- The uniforms of the environment that lighting code reads. -/
def environmentTokens : List Text :=
  [Token.envMatrix, Token.envRadiance, Token.envRadianceMips, Token.envIrradiance]

/-- The tokens that no occurrence of `token` can be taken for. -/
def otherTokens (token : Text) : List Text :=
  Token.standard.tokens.filter fun w => !(w.isPrefixOf token || token.isPrefixOf w)

/-- The directives that no definition of the number of lights can be taken for. -/
def otherDirectives : List Text :=
  ["#if ", "#else", "#endif", "#define EDF", "#define material", "#define M_PI",
    "#define DIRECTIONAL_ALBEDO_METHOD", "#define MX_NUM_FIS_SAMPLES"]

/-- The files that speak of the environment or of the view. -/
def speakers (token : Text) : List Text :=
  if token = Token.viewPosition then [Path.surfaceRig, Path.surfaceHost] else [Path.lightingSampled]

end FragmentGenerator

set_option synthInstance.maxSize 256 in
open FragmentGenerator in
/-- **What the built-in library holds**: balanced brackets, functions that only rivals have in common, the
requests that are listed, tokens of the environment and of the view in a few files only, and no definition of
the number of lights. -/
theorem SearchPath.standard_texts :
    (∀ path ∈ libraryPaths, Text.readBrackets [] (standard.ownText path) = some []) ∧
    (∀ path ∈ libraryPaths, ∀ path' ∈ libraryPaths, path ≠ path' →
      ((∃ f ∈ standard.signaturesOf path, f ∈ standard.signaturesOf path') ↔
        ∃ group ∈ rivals, path ∈ group ∧ path' ∈ group)) ∧
    (∀ path ∈ libraryPaths, standard.askedBy path = requests path) ∧
    (∀ token ∈ Token.viewPosition :: environmentTokens, ∀ path ∈ libraryPaths, path ∉ speakers token →
      ∀ step ∈ Source.steps (standard.sourceOf path),
        Text.marked Library.tokenMark (otherTokens token) step.text = true) ∧
    (∀ token ∈ environmentTokens, ∃ step ∈ Source.steps (standard.sourceOf Path.lightingSampled),
      token <:+: step.text) ∧
    ∀ path ∈ libraryPaths, ∀ step ∈ Source.steps (standard.sourceOf path),
      Text.marked Text.hash otherDirectives step.text = true := by
  rw [standard_eq_spelled]
  decide +kernel

end ShadeGraph
