/-
  The context of code generation.

  A context holds what the caller decides for one shader: options, how names and literals are written,
  how variables are declared, where includes come from, and what tokens stand for.  Any part but the
  options may be missing; what needs a missing part fails.
-/
import ShadeGraph.Glsl.Literal
import ShadeGraph.Glsl.Sampler
import ShadeGraph.Glsl.TokenTable
import ShadeGraph.Library.Basic
import ShadeGraph.Library.Source
import ShadeGraph.Options.Basic
import ShadeGraph.Shader.Token

namespace ShadeGraph

/-- How names and literals are written. -/
structure Dialect where
  naming : Naming
  format : FloatFormat
  deriving DecidableEq, Repr

/-- How variables are declared. -/
inductive DeclarationStyle where
  /-- Every port with its own type. -/
  | plain
  /-- A 3 by 3 matrix is passed as a 4 by 4 one. -/
  | fragment
  deriving DecidableEq, Repr

/-- The number of environment samples that the caller asks for. -/
inductive SampleSetting where
  /-- Nothing is asked for. -/
  | absent
  /-- Something is asked for that is no number of samples. -/
  | unusable
  | count (n : Int64)
  deriving DecidableEq, Repr

namespace SampleSetting

/-- The number, if there is one. -/
def count? : SampleSetting → Option Int64
  | .count n => some n
  | _ => none

/-- Whether anything is asked for. -/
def isPresent : SampleSetting → Bool
  | .absent => false
  | _ => true

end SampleSetting

/-- The context of code generation. -/
structure Context where
  options : Options
  dialect : Option Dialect
  declarations : Option DeclarationStyle
  includer : Option SearchPath
  tokens : Option TokenTable
  /-- Names that are taken before any port is named. -/
  reserved : List Text
  samples : SampleSetting
  deriving DecidableEq, Repr

namespace Context

/-- A context for plain GLSL. -/
def plain (o : Options) : Context :=
  { options := o, dialect := some ⟨.plain, .general⟩, declarations := some .plain
    includer := some .standard, tokens := some Token.standard, reserved := [], samples := .absent }

/-- A text with the tokens of the context replaced. -/
def resolve (c : Context) (t : Text) : Text :=
  match c.tokens with
  | some ts => ts.replace t
  | none => t

/-- The context with another float format. -/
def withFormat (c : Context) (format : FloatFormat) : Context :=
  { c with dialect := c.dialect.map fun d => { d with format } }

end Context

/-! ## What can go wrong while code is written -/

/-- Why code cannot be written. -/
inductive EmitError where
  /-- There is no library at all for an include. -/
  | noIncluder (path : Text)
  /-- The libraries do not give an included file. -/
  | unreadable (e : IncludeError)
  /-- An include inside an included file fails. -/
  | nested (path : Text) (e : EmitError)
  /-- There is no library at all for the function of a node. -/
  | noLibrary
  /-- The libraries do not give the file of a node's function. -/
  | noSource (e : IncludeError)
  /-- The file of a node's function defines none. -/
  | noFunction (path : Text) (e : Source.FunctionNameError)
  | noPixelStage
  | noVertexData
  | noPrivateUniforms
  | noPublicUniforms
  /-- A part of the context that is needed is missing. -/
  | missingPart
  /-- A node without outputs is asked for one. -/
  | noOutput
  /-- Includes are nested more deeply than the libraries allow. -/
  | tooDeep
  deriving DecidableEq, Repr

/-- The message of an error; the ones that no caller can mend have none. -/
def EmitError.message? : EmitError → Option Text
  | .noIncluder p => some ("shadergen: no includer for " ++ p.quoted)
  | .unreadable e => some ("shadergen: " ++ e.message)
  | .nested p e => e.message?.map fun m => p ++ ": " ++ m
  | .noLibrary => some "no includer"
  | .noSource e => some e.message
  | .noFunction p e => some (p ++ ": " ++ e.message)
  | .noPixelStage => some "shader has no pixel stage"
  | .noVertexData => some "pixel stage has no vertex data block"
  | .noPrivateUniforms => some "pixel stage has no private uniform block"
  | .noPublicUniforms => some "pixel stage has no public uniform block"
  | .missingPart | .noOutput | .tooDeep => none

/-- An error, and what had been done when it arose. -/
structure Failed (ε σ : Type) where
  error : ε
  left : σ

end ShadeGraph
