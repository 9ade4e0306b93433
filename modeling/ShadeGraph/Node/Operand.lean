/-
  Operands: what a node reads from one of its inputs.

  An input that is connected reads a port.  Otherwise it is its own literal, then what the node falls back
  on, and at last the zero of its type.
-/
import ShadeGraph.Glsl.Literal
import ShadeGraph.Shader.Basic

namespace ShadeGraph

/-- What a node reads from one of its inputs. -/
inductive Operand where
  /-- The port that the input is connected to. -/
  | port (p : Port)
  /-- The literal of the input. -/
  | literal (v : Value)
  /-- The text that the node falls back on. -/
  | text (t : Text)
  /-- The zero of the input's type. -/
  | zero (t : DataType)
  deriving DecidableEq, Repr

namespace Operand

/-- The operand in code. -/
def render (format : FloatFormat) : Operand → Text
  | .port p => p.ident
  | .literal v => v.literal format
  | .text t => t
  | .zero t => t.glslDefault

/-- Whether the operand is the same in every format. -/
def isPlain : Operand → Bool
  | .port _ | .text _ => true
  | .literal _ | .zero _ => false

end Operand

/-- What a node reads from the input of a name, with a text to fall back on. -/
def ShaderNode.operand (n : ShaderNode) (name fallback : Text) : Operand :=
  match n.input? name with
  | none => .text fallback
  | some i =>
    match i.connection, i.value with
    | some p, _ => .port p
    | none, some v => .literal v
    | none, none => if fallback ≠ [] then .text fallback else .zero i.type

end ShadeGraph
