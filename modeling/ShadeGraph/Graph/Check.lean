/-
  Checking a graph.

  A graph passes when every name it needs is there, every binding resolves to something before it, and
  the types of both ends agree.  The first fault in reading order is reported: interface inputs, nodes
  with their inputs, the output socket.
-/
import ShadeGraph.Graph.Basic
import ShadeGraph.Text.Quoted

namespace ShadeGraph

/-- A node without an output of the asked name. -/
structure MissingOutput where
  node : Text
  output : Text
  deriving DecidableEq, Repr

/-- What is wrong with the binding of a node input. -/
inductive BindingError where
  | boundTwice
  | unknownInterface (interface : Text)
  | interfaceType (type interface : DataType)
  | sourceMissing (node : Text)
  | outputMissing (missing : MissingOutput)
  | sourceType (type source : DataType)
  | valueType (type value : DataType)
  deriving DecidableEq, Repr

/-- What is wrong with a graph. -/
inductive GraphError where
  | absent
  | unnamedInterface (graph : Text) (index : Nat)
  | interfaceValue (graph input : Text) (type value : DataType)
  | unnamedNode (graph : Text) (index : Nat)
  | duplicateNode (graph node : Text)
  | binding (node input : Text) (error : BindingError)
  | outputUntyped (graph output : Text)
  | outputValue (graph output : Text) (type value : DataType)
  | outputUnknown (graph node : Text)
  | outputMissing (missing : MissingOutput)
  deriving DecidableEq, Repr

/-- The message of a missing output. -/
def MissingOutput.message (m : MissingOutput) : Text :=
  "node " ++ m.node.quoted ++ " has no output " ++ m.output.quoted

/-- The message of a binding error, from behind the input's name on. -/
def BindingError.message : BindingError → Text
  | .boundTwice => ": connected to both node and interface"
  | .unknownInterface i => ": unknown interface input " ++ i.quoted
  | .interfaceType t i => ": type " ++ t.name ++ " does not match interface " ++ i.name
  | .sourceMissing n => ": upstream node " ++ n.quoted ++ " not found or not evaluated before"
  | .outputMissing m => ": " ++ m.message
  | .sourceType t u => ": type " ++ t.name ++ " does not match upstream " ++ u.name
  | .valueType t v => " of type " ++ t.name ++ " has " ++ v.name ++ " value"

/-- The message of a graph error. -/
def GraphError.message : GraphError → Text
  | .absent => "nil graph"
  | .unnamedInterface g i =>
    "graph " ++ g.quoted ++ ": interface input " ++ Text.ofNat i ++ " has no name"
  | .interfaceValue g i t v =>
    "graph " ++ g.quoted ++ ": interface input " ++ i.quoted ++ " of type " ++ t.name ++ " has " ++
      v.name ++ " value"
  | .unnamedNode g i => "graph " ++ g.quoted ++ ": node " ++ Text.ofNat i ++ " has no name"
  | .duplicateNode g n => "graph " ++ g.quoted ++ ": duplicate node name " ++ n.quoted
  | .binding n i e => "node " ++ n.quoted ++ " input " ++ i.quoted ++ e.message
  | .outputUntyped g o => "graph " ++ g.quoted ++ ": output " ++ o.quoted ++ " has no type"
  | .outputValue g o t v =>
    "graph " ++ g.quoted ++ ": output " ++ o.quoted ++ " of type " ++ t.name ++ " has " ++
      v.name ++ " value"
  | .outputUnknown g n => "graph " ++ g.quoted ++ ": output connected to unknown node " ++ n.quoted
  | .outputMissing m => m.message

namespace Graph

/-- Checks that a value, if there is one, has the expected type. -/
def checkValue {ε : Type} (t : DataType) (v : Option Value) (fault : DataType → ε) :
    Except ε Unit :=
  match v with
  | none => .ok ()
  | some v => if v.type = t then .ok () else .error (fault v.type)

/-- Checks the interface inputs, numbered from `index`. -/
def checkInterfaces (graph : Text) : Nat → List InterfaceInput → Except GraphError Unit
  | _, [] => .ok ()
  | index, i :: rest =>
    if i.name = [] then .error (.unnamedInterface graph index)
    else
      match checkValue i.type i.value (.interfaceValue graph i.name i.type) with
      | .error e => .error e
      | .ok _ => checkInterfaces graph (index + 1) rest

/-- Checks the binding of a node input, given the nodes that stand before its node. -/
def checkBinding (g : Graph) (earlier : List Node) (i : NodeInput) : Except BindingError Unit :=
  if i.node ≠ [] ∧ i.interface ≠ [] then .error .boundTwice
  else if i.interface ≠ [] then
    match g.interface? i.interface with
    | none => .error (.unknownInterface i.interface)
    | some f => if f.type = i.type then .ok () else .error (.interfaceType i.type f.type)
  else if i.node ≠ [] then
    match earlier.find? (·.name == i.node) with
    | none => .error (.sourceMissing i.node)
    | some n =>
      match n.output? i.output with
      | none => .error (.outputMissing ⟨n.name, i.output⟩)
      | some o => if o.type = i.type then .ok () else .error (.sourceType i.type o.type)
  else checkValue i.type i.value (.valueType i.type)

/-- Checks the inputs of a node. -/
def checkInputs (g : Graph) (earlier : List Node) (node : Text) :
    List NodeInput → Except GraphError Unit
  | [] => .ok ()
  | i :: rest =>
    match checkBinding g earlier i with
    | .error e => .error (.binding node i.name e)
    | .ok _ => checkInputs g earlier node rest

/-- Checks the nodes behind the `earlier` ones. -/
def checkNodes (g : Graph) : List Node → List Node → Except GraphError Unit
  | _, [] => .ok ()
  | earlier, n :: rest =>
    if n.name = [] then .error (.unnamedNode g.name earlier.length)
    else if earlier.any (·.name == n.name) then .error (.duplicateNode g.name n.name)
    else
      match checkInputs g earlier n.name n.inputs with
      | .error e => .error e
      | .ok _ => checkNodes g (earlier ++ [n]) rest

/-- Checks the output socket. -/
def checkOutput (g : Graph) : Except GraphError Unit :=
  let o := g.output
  if o.type = .none then .error (.outputUntyped g.name o.name)
  else if o.isConnected then
    match g.node? o.node with
    | none => .error (.outputUnknown g.name o.node)
    | some n =>
      match n.output? o.nodeOutput with
      | none => .error (.outputMissing ⟨n.name, o.nodeOutput⟩)
      | some _ => .ok ()
  else checkValue o.type o.value (.outputValue g.name o.name o.type)

/-- Checks a graph and reports its first fault. -/
def check (g : Graph) : Except GraphError Unit := do
  checkInterfaces g.name 0 g.inputs
  checkNodes g [] g.nodes
  checkOutput g

/-- A graph that is there and passes the check. -/
def checkGiven : Option Graph → Except GraphError Graph
  | none => .error .absent
  | some g => do
    g.check
    return g

end Graph
end ShadeGraph
