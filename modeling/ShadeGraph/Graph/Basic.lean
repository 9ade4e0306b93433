/-
  Shading graphs.

  A graph has published interface inputs, nodes in evaluation order and one output socket.  A node
  input is bound to an output of another node, to an interface input, or to nothing; an empty name in
  one of the binding fields means that the input is not bound that way.
-/
import ShadeGraph.Value

namespace ShadeGraph

/-- A published input of a graph. -/
structure InterfaceInput where
  name : Text
  type : DataType
  value : Option Value
  deriving DecidableEq, Repr

/-- An input of a node. -/
structure NodeInput where
  name : Text
  type : DataType
  value : Option Value
  /-- The node whose output the input reads; empty for none. -/
  node : Text
  /-- The name of that output; empty for the node's first one. -/
  output : Text
  /-- The interface input that the input reads; empty for none. -/
  interface : Text
  deriving DecidableEq, Repr

/-- A named output of a node. -/
structure NodeOutput where
  name : Text
  type : DataType
  deriving DecidableEq, Repr

/-- An instance of a node definition. -/
structure Node where
  name : Text
  /-- The node definition, such as `ND_add_float`. -/
  definition : Text
  /-- The type of the output of a node that declares none. -/
  type : DataType
  inputs : List NodeInput
  /-- The declared outputs; none stands for a single one named `out`. -/
  outputs : List NodeOutput
  deriving DecidableEq, Repr

/-- The output socket of a graph. -/
structure Socket where
  name : Text
  type : DataType
  /-- The node whose output the socket shows; empty for none. -/
  node : Text
  /-- The name of that output; empty for the node's first one. -/
  nodeOutput : Text
  /-- A swizzle of the connected output; empty for none. -/
  channels : Text
  /-- The value of a socket that is not connected. -/
  value : Option Value
  deriving DecidableEq, Repr

/-- A shading graph. -/
structure Graph where
  name : Text
  inputs : List InterfaceInput
  /-- The nodes in evaluation order: a node reads only outputs of nodes before it. -/
  nodes : List Node
  output : Socket
  deriving DecidableEq, Repr

/-- The name of the output of a node that declares none, and of a socket without a name. -/
def defaultOutput : Text := "out"

/-- Whether an input reads a node or an interface input. -/
def NodeInput.isBound (i : NodeInput) : Bool := i.node != [] || i.interface != []

/-- Whether a socket shows a node. -/
def Socket.isConnected (s : Socket) : Bool := s.node != []

namespace Node

/-- The outputs of a node, at least one. -/
def allOutputs (n : Node) : List NodeOutput :=
  if n.outputs = [] then [⟨defaultOutput, n.type⟩] else n.outputs

/-- The output of a name; the first one for the empty name. -/
def output? (n : Node) (name : Text) : Option NodeOutput :=
  if name = [] then n.allOutputs.head? else n.allOutputs.find? (·.name == name)

end Node

namespace Graph

/-- The first node of a name. -/
def node? (g : Graph) (name : Text) : Option Node := g.nodes.find? (·.name == name)

/-- The first interface input of a name. -/
def interface? (g : Graph) (name : Text) : Option InterfaceInput :=
  g.inputs.find? (·.name == name)

end Graph
end ShadeGraph
