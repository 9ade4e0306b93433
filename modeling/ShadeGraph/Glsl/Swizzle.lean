/-
  Swizzles: the components of a vector or color, picked one by one.

  The channels are bytes of `xyzw` or `rgba`.  `Swizzle.check` says whether they pick components that
  are there and as many as the result needs; `Swizzle.expression` writes the result, with zero for a
  channel that is not there.
-/
import ShadeGraph.Glsl.Literal
import ShadeGraph.Text.Quoted

namespace ShadeGraph.Swizzle

/-- The letters of the components. -/
def vectorChannels : Text := "xyzw"

@[inherit_doc vectorChannels]
def colorChannels : Text := "rgba"

/-- The component that a channel picks. -/
def index? (c : UInt8) : Option Nat :=
  (List.range 4).find? fun i => vectorChannels[i]? == some c || colorChannels[i]? == some c

/-- The component that a channel picks in a value with `n` components. -/
def indexBelow? (n : Nat) (c : UInt8) : Option Nat := (index? c).filter (· < n)

end Swizzle

/-- Why channels do not make a value of a type. -/
inductive SwizzleError where
  | notSwizzlable (source : DataType)
  | empty
  | wrongLength (channels : Text) (target : DataType)
  | badChannel (channel : UInt8) (channels : Text) (source : DataType)
  deriving DecidableEq, Repr

/-- The message of a swizzle error. -/
def SwizzleError.message : SwizzleError → Text
  | .notSwizzlable t => "type " ++ t.name ++ " can not be swizzled"
  | .empty => "empty swizzle"
  | .wrongLength cs t =>
    "swizzle " ++ cs.quoted ++ " of " ++ Text.ofNat cs.length ++ " channels can not produce " ++
      t.name
  | .badChannel c cs t =>
    "invalid channel " ++ Text.quotedByte c ++ " in swizzle " ++ cs.quoted ++ " of " ++ t.name

namespace Swizzle

/-- Checks that channels of a source type make a value of the target type. -/
def check (source : DataType) (channels : Text) (target : DataType) : Except SwizzleError Unit :=
  if source.size = 0 ∨ source = .matrix33 ∨ source = .matrix44 then .error (.notSwizzlable source)
  else if channels = [] then .error .empty
  else if channels.length ≠ target.size then .error (.wrongLength channels target)
  else
    match channels.find? fun c => (indexBelow? source.size c).isNone with
    | some c => .error (.badChannel c channels source)
    | none => .ok ()

/-- The expression of one channel of a variable. -/
def member (name : Text) (source : DataType) (c : UInt8) : Text :=
  match indexBelow? source.size c with
  | none => "0.0"
  | some i =>
    if source.size = 1 then name
    else name ++ 46 :: (vectorChannels.drop i).take 1

/-- The expression of a variable's channels as a value of the target type. -/
def expression (name : Text) (source : DataType) (channels : Text) (target : DataType) :
    Text :=
  match channels.map (member name source) with
  | [m] => m
  | members => Glsl.construct target.glslName (Text.joinWith ", " members)

end ShadeGraph.Swizzle
