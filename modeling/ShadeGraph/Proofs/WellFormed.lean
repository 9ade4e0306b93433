/-
  Graphs that are well formed.

  The check of a graph is one pass: it reads the nodes in order, keeps those it has passed, and stops at the
  first fault.  This file says without any pass what it looks for, and that it finds just that.

  1. A name picks the first element that has it (`FirstNamed`), and an output that is asked for without a
     name is the first one of all (`Picks`).  Both are said by where the element stands in its list.
  2. `Graph.WellFormed` is a list of conditions on names, types and places.  No order of checking is in it.
  3. The invariant of the pass is that the nodes in `earlier` have distinct names: then the first node of a
     name is the only one, so that "some node before this one" and "the one that the search finds" agree
     (`checkBinding_iff`).  Each step adds one node to them, and the run over the rest (`checkNodes_iff`) is an
     induction over the steps.
-/
import Mathlib.Data.List.Nodup
import ShadeGraph.Proofs.PublishedPorts

namespace ShadeGraph

/-! ## What a name picks -/

section

variable {α : Type}

/-- `a` is the first element of the list that has the name. -/
def FirstNamed (nameOf : α → Text) (name : Text) (items : List α) (a : α) : Prop :=
  nameOf a = name ∧ ∃ before after, items = before ++ a :: after ∧ ∀ b ∈ before, nameOf b ≠ name

/-- `a` is what the name asks for: the first element that has it, and for the empty name the first one. -/
def Picks (nameOf : α → Text) (name : Text) (items : List α) (a : α) : Prop :=
  if name = [] then ∃ others, items = a :: others else FirstNamed nameOf name items a

/-- A search by name finds the first thing of that name. -/
theorem find?_eq_some_iff_firstNamed {nameOf : α → Text} {name : Text} {items : List α} {a : α} :
    items.find? (fun b => nameOf b == name) = some a ↔ FirstNamed nameOf name items a := by
  rw [List.find?_eq_some_iff_append, FirstNamed, beq_iff_eq]
  simp only [Bool.not_eq_true', beq_eq_false_iff_ne]

/-- Among elements with distinct names, the one that has the name is the first that has it. -/
theorem firstNamed_of_nodup {nameOf : α → Text} {name : Text} {items : List α} {a : α}
    (hdistinct : (items.map nameOf).Nodup) (ha : a ∈ items) (hname : nameOf a = name) :
    FirstNamed nameOf name items a := by
  obtain ⟨before, after, rfl⟩ := List.append_of_mem ha
  refine ⟨hname, before, after, rfl, fun b hb heq => ?_⟩
  rw [List.map_append, List.map_cons] at hdistinct
  have hne := (List.nodup_append.mp hdistinct).2.2 (nameOf b) (List.mem_map_of_mem hb) (nameOf a)
    List.mem_cons_self
  exact hne (heq.trans hname.symm)

end

/-- The output of a node is the one that its name picks. -/
theorem Node.output?_eq_some_iff {n : Node} {name : Text} {o : NodeOutput} :
    n.output? name = some o ↔ Picks NodeOutput.name name n.allOutputs o := by
  rw [Node.output?, Picks]
  split
  · exact List.head?_eq_some_iff
  · exact find?_eq_some_iff_firstNamed

/-! ## Well-formed graphs -/

namespace Graph

/-- An input of a node that stands behind the `earlier` ones can be served.  It is bound to one thing at most.
An interface input has to be there with the type of the input, a node has to be among the earlier ones and
give an output of that type, and the value of an input that is not bound has to have that type. -/
structure InputFits (g : Graph) (earlier : List Node) (i : NodeInput) : Prop where
  once : i.node = [] ∨ i.interface = []
  interface : i.interface ≠ [] →
    ∃ f, FirstNamed InterfaceInput.name i.interface g.inputs f ∧ f.type = i.type
  node : i.node ≠ [] →
    ∃ n ∈ earlier, n.name = i.node ∧
      ∃ o, Picks NodeOutput.name i.output n.allOutputs o ∧ o.type = i.type
  value : i.node = [] → i.interface = [] → ∀ v ∈ i.value, v.type = i.type

/-- A graph in which every name that is needed is there, every binding leads to something before it, and the
types of both ends agree. -/
structure WellFormed (g : Graph) : Prop where
  interfaces_named : ∀ i ∈ g.inputs, i.name ≠ []
  interfaces_valued : ∀ i ∈ g.inputs, ∀ v ∈ i.value, v.type = i.type
  nodes_named : ∀ n ∈ g.nodes, n.name ≠ []
  nodes_distinct : (g.nodes.map Node.name).Nodup
  inputs_fit : ∀ earlier n later, g.nodes = earlier ++ n :: later → ∀ i ∈ n.inputs, g.InputFits earlier i
  output_typed : g.output.type ≠ .none
  output_valued : g.output.node = [] → ∀ v ∈ g.output.value, v.type = g.output.type
  output_connected : g.output.node ≠ [] →
    ∃ n ∈ g.nodes, n.name = g.output.node ∧ ∃ o, Picks NodeOutput.name g.output.nodeOutput n.allOutputs o

/-! ## Values and interface inputs -/

/-- A value passes if its type is the one asked for. -/
theorem checkValue_iff {ε : Type} {t : DataType} {value : Option Value} {fault : DataType → ε} :
    checkValue t value fault = .ok () ↔ ∀ v ∈ value, v.type = t := by
  cases value with
  | none => exact ⟨fun _ v hv => (by cases hv), fun _ => rfl⟩
  | some u =>
    show (if u.type = t then Except.ok () else .error (fault u.type)) = .ok () ↔ _
    constructor
    · rintro h v ⟨⟩
      split at h
      · next htype => exact htype
      · cases h
    · intro h
      rw [if_pos (h u rfl)]

/-- The inputs of a graph pass if each has a name and a value, if any, of its type. -/
theorem checkInterfaces_iff {graph : Text} : ∀ {inputs : List InterfaceInput} {index : Nat},
    checkInterfaces graph index inputs = .ok () ↔
      ∀ i ∈ inputs, i.name ≠ [] ∧ ∀ v ∈ i.value, v.type = i.type := by
  intro inputs
  induction inputs with
  | nil => exact fun {_} => ⟨fun _ i hi => (by cases hi), fun _ => rfl⟩
  | cons i rest ih =>
    intro index
    rw [checkInterfaces, List.forall_mem_cons]
    constructor
    · intro h
      split at h
      · cases h
      · next hname =>
        split at h
        · cases h
        · next hvalue => exact ⟨⟨hname, checkValue_iff.mp hvalue⟩, ih.mp h⟩
    · rintro ⟨⟨hname, hvalue⟩, hrest⟩
      rw [if_neg hname, checkValue_iff.mpr hvalue]
      exact ih.mpr hrest

/-! ## Bindings -/

section

variable {g : Graph} {earlier : List Node} {i : NodeInput}

/-- The node that a search by name finds is a node of that name, and the only one. -/
theorem find?_node_iff (hdistinct : (earlier.map Node.name).Nodup) {name : Text} {n : Node} :
    earlier.find? (·.name == name) = some n ↔ n ∈ earlier ∧ n.name = name := by
  rw [find?_eq_some_iff_firstNamed]
  constructor
  · rintro ⟨hname, before, after, rfl, -⟩
    exact ⟨List.mem_append_right _ List.mem_cons_self, hname⟩
  · rintro ⟨hmem, hname⟩
    exact firstNamed_of_nodup hdistinct hmem hname

/-- A binding that passes the check is as it should be. -/
theorem inputFits_of_checkBinding (h : g.checkBinding earlier i = .ok ()) : g.InputFits earlier i := by
  have honce : i.node = [] ∨ i.interface = [] := by
    by_contra hboth
    rw [not_or] at hboth
    rw [checkBinding, if_pos hboth] at h
    cases h
  refine ⟨honce, fun hinterface => ?_, fun hnode => ?_, fun hnode hinterface => ?_⟩
  · obtain ⟨f, hf, htype⟩ := exists_interface h hinterface
    exact ⟨f, find?_eq_some_iff_firstNamed.mp hf, htype⟩
  · have hinterface : i.interface = [] := honce.resolve_left hnode
    obtain ⟨n, o, hn, ho, htype⟩ := exists_source h hinterface hnode
    obtain ⟨hname, -⟩ := find?_eq_some_iff_firstNamed.mp hn
    exact ⟨n, List.mem_of_find?_eq_some hn, hname, o, Node.output?_eq_some_iff.mp ho, htype⟩
  · rw [checkBinding, if_neg (fun hboth => hboth.1 hnode), if_neg (not_not_intro hinterface),
      if_neg (not_not_intro hnode)] at h
    exact checkValue_iff.mp h

/-- One binding passes the check exactly if it is as it should be, where the earlier nodes have distinct
names. -/
theorem checkBinding_iff (hdistinct : (earlier.map Node.name).Nodup) :
    g.checkBinding earlier i = .ok () ↔ g.InputFits earlier i := by
  refine ⟨inputFits_of_checkBinding, fun h => ?_⟩
  rw [checkBinding, if_neg (not_and_or.mpr (h.once.imp not_not_intro not_not_intro))]
  by_cases hinterface : i.interface = []
  · rw [if_neg (not_not_intro hinterface)]
    by_cases hnode : i.node = []
    · rw [if_neg (not_not_intro hnode)]
      exact checkValue_iff.mpr (h.value hnode hinterface)
    · rw [if_pos hnode]
      obtain ⟨n, hn, hname, o, ho, htype⟩ := h.node hnode
      rw [(find?_node_iff hdistinct).mpr ⟨hn, hname⟩]
      simp only [Node.output?_eq_some_iff.mpr ho, if_pos htype]
  · rw [if_pos hinterface]
    obtain ⟨f, hf, htype⟩ := h.interface hinterface
    rw [interface?, find?_eq_some_iff_firstNamed.mpr hf]
    exact if_pos htype

/-! ## The pass over the nodes -/

/-- **The pass over the rest of the nodes.**  The nodes that were passed have distinct names, and what it looks
for in the others does not depend on the order in which it looks. -/
theorem checkNodes_iff : ∀ {rest earlier : List Node}, (earlier.map Node.name).Nodup →
    (g.checkNodes earlier rest = .ok () ↔
      (∀ n ∈ rest, n.name ≠ []) ∧ ((earlier ++ rest).map Node.name).Nodup ∧
        ∀ before n after, rest = before ++ n :: after →
          ∀ i ∈ n.inputs, g.InputFits (earlier ++ before) i) := by
  intro rest
  induction rest with
  | nil =>
    intro earlier hdistinct
    rw [List.append_nil]
    refine ⟨fun _ => ⟨fun n hn => (by cases hn), hdistinct, fun before n after h => ?_⟩, fun _ => rfl⟩
    exact absurd h.symm (List.append_ne_nil_of_right_ne_nil _ (List.cons_ne_nil n after))
  | cons n rest ih =>
    intro earlier hdistinct
    have hshift : earlier ++ n :: rest = earlier ++ [n] ++ rest := List.append_cons earlier n rest
    have hnext : n.name ∉ earlier.map Node.name → ((earlier ++ [n]).map Node.name).Nodup := by
      intro hnew
      rw [List.map_append, List.map_singleton, ← List.concat_eq_append]
      exact hdistinct.concat hnew
    rw [checkNodes_cons, checkInputs_iff, List.forall_mem_cons, hshift]
    constructor
    · rintro ⟨hname, hnew, hinputs, hrest⟩
      obtain ⟨hnames, hall, hfit⟩ := (ih (hnext hnew)).mp hrest
      refine ⟨⟨hname, hnames⟩, hall, fun before m after h i hi => ?_⟩
      -- Either `m` is the node of this step, or it comes behind it.
      rcases List.cons_eq_append_iff.mp h with ⟨rfl, hm⟩ | ⟨before', rfl, hm⟩
      · obtain ⟨rfl, -⟩ := List.cons.inj hm
        rw [List.append_nil]
        exact inputFits_of_checkBinding (hinputs i hi)
      · rw [List.append_cons]
        exact hfit before' m after hm i hi
    · rintro ⟨⟨hname, hnames⟩, hall, hfit⟩
      have hprefix : ((earlier ++ [n]).map Node.name).Nodup := by
        rw [List.map_append] at hall
        exact (List.nodup_append.mp hall).1
      have hnew : n.name ∉ earlier.map Node.name := by
        rw [List.map_append] at hprefix
        exact fun hmem => (List.nodup_append.mp hprefix).2.2 _ hmem _ List.mem_cons_self rfl
      refine ⟨hname, hnew, fun i hi => ?_, (ih (hnext hnew)).mpr ⟨hnames, hall, ?_⟩⟩
      · have hfirst := hfit [] n rest rfl i hi
        rw [List.append_nil] at hfirst
        exact (checkBinding_iff hdistinct).mpr hfirst
      · intro before m after h i hi
        have hlater := hfit (n :: before) m after (congrArg (n :: ·) h) i hi
        rwa [List.append_cons] at hlater

end

/-! ## The output socket -/

/-- The output of a graph passes if it has a type and is either a value of that type or the output of a node of
the graph. -/
theorem checkOutput_iff {g : Graph} (hdistinct : (g.nodes.map Node.name).Nodup) :
    g.checkOutput = .ok () ↔
      g.output.type ≠ .none ∧ (g.output.node = [] → ∀ v ∈ g.output.value, v.type = g.output.type) ∧
        (g.output.node ≠ [] → ∃ n ∈ g.nodes, n.name = g.output.node ∧
          ∃ o, Picks NodeOutput.name g.output.nodeOutput n.allOutputs o) := by
  have hconnected : g.output.isConnected = true ↔ g.output.node ≠ [] := bne_iff_ne
  constructor
  · intro h
    refine ⟨fun hnone => ?_, fun hnode => ?_, fun hnode => ?_⟩
    · rw [checkOutput] at h
      simp only [hnone, if_true] at h
      cases h
    · exact value_type h (Bool.eq_false_iff.mpr fun hyes => hconnected.mp hyes hnode)
    · obtain ⟨n, o, hn, ho⟩ := exists_shown h (hconnected.mpr hnode)
      obtain ⟨hmem, hname⟩ := (find?_node_iff hdistinct).mp hn
      exact ⟨n, hmem, hname, o, Node.output?_eq_some_iff.mp ho⟩
  · rintro ⟨htype, hvalue, hshown⟩
    rw [checkOutput]
    simp only [if_neg htype]
    by_cases hnode : g.output.node = []
    · rw [if_neg fun hyes => hconnected.mp hyes hnode]
      exact checkValue_iff.mpr (hvalue hnode)
    · obtain ⟨n, hn, hname, o, ho⟩ := hshown hnode
      have hfound : g.node? g.output.node = some n := (find?_node_iff hdistinct).mpr ⟨hn, hname⟩
      rw [if_pos (hconnected.mpr hnode)]
      simp only [hfound, Node.output?_eq_some_iff.mpr ho]

/-! ## The whole graph -/

/-- **The check accepts exactly the well-formed graphs.** -/
theorem check_iff_wellFormed {g : Graph} : g.check = .ok () ↔ g.WellFormed := by
  have hstart : (([] : List Node).map Node.name).Nodup := List.nodup_nil
  rw [check_eq_ok, checkInterfaces_iff, checkNodes_iff hstart]
  simp only [List.nil_append]
  constructor
  · rintro ⟨hinterfaces, ⟨hnames, hdistinct, hinputs⟩, houtput⟩
    obtain ⟨htype, hvalue, hshown⟩ := (checkOutput_iff hdistinct).mp houtput
    exact ⟨fun i hi => (hinterfaces i hi).1, fun i hi => (hinterfaces i hi).2, hnames, hdistinct, hinputs,
      htype, hvalue, hshown⟩
  · intro h
    exact ⟨fun i hi => ⟨h.interfaces_named i hi, h.interfaces_valued i hi⟩,
      ⟨h.nodes_named, h.nodes_distinct, h.inputs_fit⟩,
      (checkOutput_iff h.nodes_distinct).mpr ⟨h.output_typed, h.output_valued, h.output_connected⟩⟩

/-- **A graph passes the check exactly if it is there and well formed**, and what passes is the graph itself. -/
theorem passes_iff_wellFormed (given : Option Graph) (g : Graph) :
    checkGiven given = .ok g ↔ given = some g ∧ g.WellFormed := by
  rw [← check_iff_wellFormed]
  cases given with
  | none => exact ⟨fun h => (by cases h), fun h => (by cases h.1)⟩
  | some graph =>
    show (graph.check >>= fun _ => pure graph) = .ok g ↔ _
    rw [bind_pure_eq_ok, Option.some.injEq]
    constructor
    · rintro ⟨⟨⟩, hcheck, rfl⟩
      exact ⟨rfl, hcheck⟩
    · rintro ⟨rfl, hcheck⟩
      exact ⟨(), hcheck, rfl⟩

end Graph
end ShadeGraph
