/-
  Ports and blocks of them.

  A port is a named, typed slot of a shader with the identifier that stands for it in code.  A variable
  block is a list of ports with distinct names, in the order in which they were added first, with an index
  of the names: look-ups go through the index, and adding a name that is indexed changes nothing.
-/
import ShadeGraph.Value

namespace ShadeGraph

/-- A named, typed slot of a shader. -/
structure Port where
  name : Text
  type : DataType
  /-- What stands for the port in code; it may hold tokens. -/
  ident : Text
  /-- The literal of a port that is given one. -/
  value : Option Value
  deriving DecidableEq, Repr

/-- An ordered group of ports that are declared together. -/
structure VariableBlock where
  name : Text
  /-- The name through which code reaches the ports of a block that is an aggregate. -/
  instanceName : Text
  ports : List Port
  /-- The position of the port of each name. -/
  index : List (Text × Nat)
  deriving DecidableEq, Repr

namespace VariableBlock

/-- A block without ports. -/
def empty (name instanceName : Text) : VariableBlock := ⟨name, instanceName, [], []⟩

/-- The position under which a name is indexed. -/
def index? (b : VariableBlock) (name : Text) : Option Nat := b.index.lookup name

/-- The port at the position under which a name is indexed. -/
def find? (b : VariableBlock) (name : Text) : Option Port := (b.index? name).bind fun i => b.ports[i]?

/-- Whether a name is indexed. -/
def contains (b : VariableBlock) (name : Text) : Bool := (b.index? name).isSome

/-- Adds a port at the end and indexes its name, unless the name is indexed already. -/
def add (b : VariableBlock) (p : Port) : VariableBlock :=
  if b.contains p.name then b
  else { b with ports := b.ports ++ [p], index := b.index ++ [(p.name, b.ports.length)] }

/-- The port that stands for `p` in a block to which it is added: the one of its name that is there
already, else `p` itself. -/
def resolve (b : VariableBlock) (p : Port) : Port := (b.find? p.name).getD p

/-- A port whose identifier is its name. -/
def plainPort (name : Text) (type : DataType) (value : Option Value) : Port :=
  ⟨name, type, name, value⟩

end VariableBlock
end ShadeGraph
