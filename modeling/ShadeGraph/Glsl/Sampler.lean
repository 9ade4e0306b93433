/-
  Naming the variables of ports.

  The plain rule gives every port a unique identifier.  The fragment rule also keeps two conventions of
  the host: a texture is read through a sampler named `_<texture>_sampler`, and a 3 by 3 matrix arrives
  as a 4 by 4 one whose name has a `4` at its end, so that name has to be free as well.
-/
import ShadeGraph.DataType
import ShadeGraph.Glsl.Identifier

namespace ShadeGraph

namespace Sampler

/-- What stands in front of the texture's name in a sampler name. -/
def front : Text := "_"

/-- What stands behind the texture's name in a sampler name. -/
def back : Text := "_sampler"

/-- A name of the form `_<texture>_sampler` with a texture that is not empty. -/
def isName (name : Text) : Bool :=
  front.length + back.length < name.length && front.isPrefixOf name && back.isSuffixOf name

/-- The sampler of a texture. -/
def ofTexture (texture : Text) : Text := front ++ texture ++ back

/-- The texture of a sampler; empty when the name is not a sampler's. -/
def texture (name : Text) : Text :=
  if isName name then
    (name.drop front.length).take (name.length - front.length - back.length)
  else []

end Sampler

/-- What is put behind the name of a 3 by 3 matrix that is passed as a 4 by 4 one. -/
def wideSuffix : Text := "4"

/-- How the variables of ports are named. -/
inductive Naming where
  /-- A unique identifier for every port. -/
  | plain
  /-- Samplers for textures, and a free companion name for 3 by 3 matrices. -/
  | fragment
  deriving DecidableEq, Repr

namespace Naming

/-- Asks for further identifiers of a name until the one with `4` behind it is free too.  Each further
one has a larger number, so `tries` only has to reach the number of names taken at the start. -/
def withCompanion (name : Text) : Nat → Text → IdentifierMap → Text × IdentifierMap
  | 0, v, ids => (v, ids)
  | tries + 1, v, ids =>
    if ids.contains (v ++ wideSuffix) then
      let (next, ids) := ids.makeIdentifier name
      withCompanion name tries next ids
    else (v, ids)

/-- The variable of a port with the given name and type. -/
def variableName (naming : Naming) (name : Text) (t : DataType) (ids : IdentifierMap) :
    Text × IdentifierMap :=
  let (v, ids) := ids.makeIdentifier name
  match naming with
  | .plain => (v, ids)
  | .fragment =>
    if t = .filename then
      if Sampler.isName v then (v, ids)
      else (Sampler.ofTexture v, ids.reserve (Sampler.ofTexture v))
    else if t = .matrix33 then
      let (v, ids) := withCompanion name (ids.entries.length + 1) v ids
      (v, ids.reserve (v ++ wideSuffix))
    else (v, ids)

end Naming
end ShadeGraph
