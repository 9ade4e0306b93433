/-
  Versions of the host's light interface.

  Before version two, lights and environment samples arrive in global variables that the host fills in;
  from then on code asks the host's functions for them.
-/
import ShadeGraph.Text.Basic

namespace ShadeGraph

/-- A version of the host's light interface. -/
structure LightApi where
  version : Int64
  deriving DecidableEq, Repr

namespace LightApi

/-- Lights arrive in global variables. -/
def legacy : LightApi := ⟨1⟩

/-- Lights come from functions of the host. -/
def v2 : LightApi := ⟨2⟩

/-- Handled as version two. -/
def v3 : LightApi := ⟨3⟩

/-- Whether the host has no light functions yet. -/
def isLegacy (a : LightApi) : Bool := a.version < 2

/-- The name of a version. -/
def name (a : LightApi) : Text :=
  if a = legacy then "legacy"
  else if a = v2 then "v2"
  else if a = v3 then "v3"
  else "LightAPI(" ++ Text.ofInt a.version.toInt ++ ")"

end LightApi
end ShadeGraph
