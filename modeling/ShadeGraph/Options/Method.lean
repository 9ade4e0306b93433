/-
  Lighting methods.

  Two of the options choose a method: how the specular environment is sampled, and how the directional
  albedo is found.  A method is kept as its number, because a number without a name is passed on and only
  refused where code for it would have to be written.  In texts a method is its name, or its number.
-/
import ShadeGraph.Number.Range
import ShadeGraph.Text.Blank
import ShadeGraph.Text.Fold
import ShadeGraph.Text.Quoted

namespace ShadeGraph

/-- What a method is chosen for. -/
inductive MethodKind where
  | specularEnvironment
  | directionalAlbedo
  deriving DecidableEq, Repr

namespace MethodKind

/-- The names of the methods, from number zero on. -/
def names : MethodKind → List Text
  | .specularEnvironment => ["none", "fis", "prefilter"]
  | .directionalAlbedo => ["analytic", "table", "monte_carlo"]

/-- The words for the kind in messages. -/
def title : MethodKind → Text
  | .specularEnvironment => "specular environment method"
  | .directionalAlbedo => "directional albedo method"

/-- The word in front of the number of a method without a name. -/
def tag : MethodKind → Text
  | .specularEnvironment => "SpecularEnvironmentMethod"
  | .directionalAlbedo => "DirectionalAlbedoMethod"

end MethodKind

/-- A method of a kind, by its number. -/
structure Method (kind : MethodKind) where
  code : Int64
  deriving DecidableEq, Repr

namespace Method

variable {kind : MethodKind}

/-- The name of a method, if it has one. -/
def name? (m : Method kind) : Option Text :=
  if m.code < 0 then none else kind.names[m.code.toInt.toNat]?

/-- Whether the method has a name. -/
def isDefined (m : Method kind) : Bool := m.name?.isSome

/-- The method as messages show it. -/
def display (m : Method kind) : Text :=
  m.name?.getD (kind.tag ++ "(" ++ Text.ofInt m.code.toInt ++ ")")

/-- The method as options files hold it: its name, or its number. -/
def toText (m : Method kind) : Text := m.name?.getD (Text.ofInt m.code.toInt)

/-- The method with an integer of 64 bits as its number. -/
def ofInt? (n : Int) : Option (Method kind) :=
  if SignedWord.holds n then some ⟨Int64.ofInt n⟩ else none

/-- Reads a name in any case or a number, with white space around it or without. -/
def ofText? (t : Text) : Option (Method kind) :=
  match kind.names.findIdx? (Text.lowerEquals t.trim ·) with
  | some i => some ⟨Int64.ofNat i⟩
  | none => (Text.toInt? t.trim).bind ofInt?

/-- The message for a text that is no method. -/
def unknownMessage (kind : MethodKind) (t : Text) : Text :=
  "unknown " ++ kind.title ++ " " ++ t.quoted

end Method

/-- A way to sample the specular environment. -/
abbrev SpecularMethod := Method .specularEnvironment

/-- A way to find the directional albedo. -/
abbrev AlbedoMethod := Method .directionalAlbedo

namespace SpecularMethod

/-- No light from the environment. -/
def off : SpecularMethod := ⟨0⟩

/-- Importance sampling of the environment map. -/
def sampled : SpecularMethod := ⟨1⟩

/-- Maps that the host has filtered beforehand. -/
def prefiltered : SpecularMethod := ⟨2⟩

end SpecularMethod

namespace AlbedoMethod

/-- A fitted formula. -/
def analytic : AlbedoMethod := ⟨0⟩

/-- A table that the host provides. -/
def table : AlbedoMethod := ⟨1⟩

end AlbedoMethod

end ShadeGraph
