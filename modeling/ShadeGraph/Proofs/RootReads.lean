/-
  The variables that the root function reads.

  1. What a node reads is among its sources and its own output (`ports_phrase`, `ports_callPhrase`), and what
     is returned is the port that the socket shows.
  2. `Statement.Grounded` goes through lines and asks that each reads only names that are known by then.
     It is kept by appending lines, and says of every line what its predecessors have declared.
  3. The bindings are grounded in the arguments.  Every node is grounded in what the lines before it declare,
     by induction over the nodes, as long as it reads no output behind the first one of another node.
  4. A node declares its first output only.  So every line of the root function finds what it reads, unless
     it reads such a later output (`reads_iff`), and nothing but a coincidence of names gives it one then.
-/
import ShadeGraph.Proofs.RootNames

namespace ShadeGraph

/-! ## What statements read -/

namespace Operand

theorem mem_ports {operands : List Operand} {p : Port} : p ∈ ports operands ↔ .port p ∈ operands := by
  rw [ports, List.mem_filterMap]
  constructor
  · rintro ⟨a, ha, hport⟩
    cases a with
    | port q => exact Option.some.inj hport ▸ ha
    | literal v => cases hport
    | text t => cases hport
    | zero t => cases hport
  · exact fun h => ⟨.port p, h, rfl⟩

/-- What stands between elements is none of them, or the separator. -/
theorem mem_intersperse {α : Type} {sep x : α} {xs : List α} (h : x ∈ xs.intersperse sep) :
    x = sep ∨ x ∈ xs := by
  induction xs with
  | nil => cases h
  | cons a rest ih =>
    cases rest with
    | nil => exact Or.inr h
    | cons b rest =>
      rw [List.intersperse_cons_cons] at h
      rcases List.mem_cons.mp h with rfl | h
      · exact Or.inr List.mem_cons_self
      · rcases List.mem_cons.mp h with rfl | h
        · exact Or.inl rfl
        · exact (ih h).imp_right (List.mem_cons_of_mem a)

/-- What stands in a pattern that is filled stands in the filling, or is a text. -/
theorem mem_ports_fill {pattern : List Text} {operands : List Operand} {p : Port}
    (h : p ∈ ports (fill pattern operands)) : p ∈ ports operands := by
  rw [mem_ports, fill, List.intercalate] at h
  obtain ⟨piece, hpiece, hp⟩ := List.mem_flatten.mp h
  rcases mem_intersperse hpiece with rfl | hpiece
  · exact mem_ports.mpr hp
  · obtain ⟨t, _, rfl⟩ := List.mem_map.mp hpiece
    cases List.mem_singleton.mp hp

end Operand

namespace ShaderNode

variable {n : ShaderNode}

/-- The port that an operand reads is among the sources of the node. -/
theorem operand_mem_sources {name fallback : Text} {p : Port} (h : .port p = n.operand name fallback) :
    p ∈ n.sources := by
  rcases n.operand_cases name fallback with ⟨q, hq, heq⟩ | ⟨v, heq⟩ | heq | ⟨t, heq⟩
  · rw [heq] at h; exact Operand.port.inj h ▸ hq
  · rw [heq] at h; cases h
  · rw [heq] at h; cases h
  · rw [heq] at h; cases h

/-- **What a node computes in place reads its sources only**, whichever implementation it has. -/
theorem ports_phrase {stage : Stage} {p : Port} (h : p ∈ Operand.ports (n.phrase stage)) :
    p ∈ n.sources := by
  rw [Operand.mem_ports, phrase] at h
  cases himplementation : n.implementation with
  | constant t =>
    simp only [himplementation] at h
    cases hconstant : n.constant with
    | some q =>
      simp only [hconstant, List.mem_singleton] at h
      rw [Operand.port.inj h]
      exact constant_mem_sources hconstant
    | none =>
      simp only [hconstant, List.mem_singleton] at h
      exact operand_mem_sources h
  | arithmetic op t =>
    simp only [himplementation, List.mem_cons, List.not_mem_nil, or_false, reduceCtorEq, false_or] at h
    rcases h with h | h
    · exact operand_mem_sources h
    · exact operand_mem_sources h
  | mix t =>
    simp only [himplementation, List.mem_cons, List.not_mem_nil, or_false, reduceCtorEq, false_or] at h
    rcases h with h | h | h
    · exact operand_mem_sources h
    · exact operand_mem_sources h
    · exact operand_mem_sources h
  | transformMatrix =>
    simp only [himplementation, List.mem_cons, List.not_mem_nil, or_false, reduceCtorEq, false_or] at h
    rcases h with h | h
    · exact operand_mem_sources h
    · exact operand_mem_sources h
  | uniformEdf =>
    simp only [himplementation, List.mem_singleton] at h
    exact operand_mem_sources h
  -- Vertex data and numbers of the host are named by tokens, not by ports.
  | geometric | texcoord | hostNumber =>
    simp only [himplementation, List.mem_singleton, reduceCtorEq] at h
  | image | diffuseBsdf | surface | surfaceUnlit =>
    simp only [himplementation, List.not_mem_nil] at h

/-- A call reads the sources of the node, and writes to its output. -/
theorem ports_callPhrase {function : Text} {out p : Port}
    (h : p ∈ Operand.ports (n.callPhrase function out)) : p ∈ n.sources ∨ p = out := by
  rw [Operand.mem_ports, callPhrase] at h
  simp only [List.cons_append, List.mem_cons, reduceCtorEq, false_or, List.mem_append, List.not_mem_nil,
    or_false] at h
  rcases Operand.mem_intersperse h with h | h
  · cases h
  · rcases List.mem_append.mp h with h | h
    · obtain ⟨parameter, _, hp⟩ := List.mem_map.mp h
      exact Or.inl (operand_mem_sources hp.symm)
    · exact Or.inr (Operand.port.inj (List.mem_singleton.mp h))

end ShaderNode

/-- Channels are taken of one port. -/
theorem Swizzle.ports_phrase {p q : Port} {channels : Text} {target : DataType}
    (h : q ∈ Operand.ports (phrase p channels target)) : q = p := by
  have hmember : ∀ {c : UInt8}, Operand.port q ∈ memberPhrase p c → q = p := by
    intro c hq
    rw [memberPhrase] at hq
    cases hindex : indexBelow? p.type.size c with
    | none => simp [hindex] at hq
    | some i =>
      simp only [hindex] at hq
      split at hq
      · exact Operand.port.inj (List.mem_singleton.mp hq)
      · simpa using hq
  rw [Operand.mem_ports, phrase] at h
  split at h
  next m hm =>
    obtain ⟨c, _, rfl⟩ := List.mem_map.mp (hm ▸ List.mem_singleton_self m)
    exact hmember h
  next =>
    simp only [List.cons_append, List.mem_cons, reduceCtorEq, false_or, List.mem_append,
      List.not_mem_nil, or_false] at h
    obtain ⟨m, hm, hq⟩ := List.mem_flatten.mp h
    rcases Operand.mem_intersperse hm with rfl | hm
    · cases List.mem_singleton.mp hq
    · obtain ⟨c, _, rfl⟩ := List.mem_map.mp hm
      exact hmember hq

/-- What is returned is the port that the socket shows. -/
theorem FragmentGenerator.reads_resultStatements {graph : ShaderGraph} {transparent : Bool}
    {st : Statement} (hst : st ∈ resultStatements graph transparent) {p : Port} (hp : p ∈ st.reads) :
    p ∈ graph.socket.connection := by
  rw [resultStatements] at hst
  cases hconnection : graph.socket.connection with
  | some q =>
    simp only [hconnection, List.mem_singleton] at hst
    subst hst
    have hfill := Operand.mem_ports_fill (Operand.mem_ports.mpr
      ((List.mem_cons.mp (Operand.mem_ports.mp hp)).resolve_left (fun h => by cases h)))
    have hpq : p = q := by
      rw [resultPhrase] at hfill
      split at hfill
      · exact Operand.port.inj (List.mem_singleton.mp (Operand.mem_ports.mp hfill))
      · exact Swizzle.ports_phrase hfill
    rw [hpq]
    rfl
  | none =>
    by_cases hdirect : (if transparent = true then graph.socket.port.type.isFloat4
        else graph.socket.port.type.isFloat3) = true
    · simp only [hconnection, hdirect, if_true, List.mem_singleton] at hst
      rw [hst] at hp
      cases hp
    · simp only [hconnection, hdirect, Bool.false_eq_true, if_false] at hst
      rcases List.mem_cons.mp hst with rfl | hst
      · cases hp
      · rw [List.mem_singleton.mp hst] at hp
        cases hp

/-! ## Lines that read known names -/

namespace Statement

/-- Every line reads known names only, apart from some ports.  What it declares is known behind it. -/
def Grounded (later : List Port) : List Text → List Statement → Prop
  | _, [] => True
  | known, st :: rest =>
    (∀ p ∈ st.reads, p ∉ later → p.ident ∈ known) ∧ Grounded later (known ++ st.declared?.toList) rest

variable {later : List Port}

/-- Lines behind others know what these declare. -/
theorem grounded_append (b : List Statement) : ∀ (a : List Statement) (known : List Text),
    Grounded later known (a ++ b) ↔
      Grounded later known a ∧ Grounded later (known ++ a.filterMap declared?) b := by
  intro a
  induction a with
  | nil =>
    intro known
    rw [List.filterMap_nil, List.append_nil]
    exact (iff_of_eq (true_and _)).symm
  | cons st rest ih =>
    intro known
    have hknown : known ++ (st :: rest).filterMap declared? =
        known ++ st.declared?.toList ++ rest.filterMap declared? := by
      rw [List.append_assoc, List.filterMap_cons]
      cases st.declared? <;> rfl
    rw [hknown, List.cons_append, Grounded, Grounded, ih, and_assoc]

/-- Lines that read what is known from the start are grounded. -/
theorem grounded_of_reads : ∀ {body : List Statement} {known : List Text},
    (∀ st ∈ body, ∀ p ∈ st.reads, p ∉ later → p.ident ∈ known) → Grounded later known body := by
  intro body
  induction body with
  | nil => intro known _; trivial
  | cons st rest ih =>
    intro known h
    refine ⟨h st List.mem_cons_self, ih fun st' hst' p hp hlater => List.mem_append_left _ ?_⟩
    exact h st' (List.mem_cons_of_mem st hst') p hp hlater

/-- **A line of a grounded body finds what it reads**, in what was known or in the lines before it. -/
theorem Grounded.mem_known {known : List Text} {before after : List Statement} {st : Statement}
    (h : Grounded later known (before ++ st :: after)) {p : Port} (hp : p ∈ st.reads)
    (hlater : p ∉ later) : p.ident ∈ known ++ before.filterMap declared? :=
  ((grounded_append (st :: after) before known).mp h).2.1 p hp hlater

end Statement

namespace FragmentGenerator

/-! ## The body of the root function -/

/-- The outputs of nodes behind the first ones, which no line declares. -/
def laterOutputs (graph : ShaderGraph) : List Port := graph.nodes.flatMap fun n => n.outputs.tail

/-- One node is grounded where its sources are. -/
theorem grounded_statements {later : List Port} {known : List Text} {n : ShaderNode}
    (hsources : ∀ p ∈ n.sources, p ∉ later → p.ident ∈ known) (ps : Stage) :
    Statement.Grounded later known (n.statements ps) := by
  rw [ShaderNode.statements]
  cases n.outputs.head? with
  | none => trivial
  | some out =>
    cases n.implementation.sourcePath? with
    | none => exact ⟨fun p hp => hsources p (ShaderNode.ports_phrase hp), trivial⟩
    | some path =>
      have hzero : ∀ p, p ∉ (ShaderNode.zeroStatement out).reads := by
        intro p hp
        rw [ShaderNode.zeroStatement] at hp
        split at hp
        · cases hp
        · cases hp
      refine ⟨fun p hp => absurd hp (hzero p), fun p hp hlater => ?_, trivial⟩
      -- The call reads its own output too, which the line before it declares.
      rcases ShaderNode.ports_callPhrase hp with hp | rfl
      · exact List.mem_append_left _ (hsources p hp hlater)
      · exact List.mem_append_right _ (List.mem_singleton_self p.ident)

/-- **All nodes are grounded**, each in given ports and in the first outputs of the nodes before it. -/
theorem grounded_nodes {later : List Port} (ps : Stage) : ∀ {nodes : List ShaderNode} {ports : List Port}
    {known : List Text}, ShaderNode.Supplied ports nodes → (∀ p ∈ ports, p ∉ later → p.ident ∈ known) →
    (∀ n ∈ nodes, ∀ p ∈ n.outputs.tail, p ∈ later) →
    Statement.Grounded later known (nodes.flatMap fun n => n.statements ps) := by
  intro nodes
  induction nodes with
  | nil => intro ports known _ _ _; trivial
  | cons n rest ih =>
    intro ports known hsupplied hports htails
    rw [List.flatMap_cons, Statement.grounded_append, declared_statements]
    have hfirst := grounded_statements (fun p hp => hports p (hsupplied.1 p hp)) ps
    refine ⟨hfirst, ih hsupplied.2 ?_ fun m hm => htails m (List.mem_cons_of_mem n hm)⟩
    intro p hp hlater
    rcases List.mem_append.mp hp with hp | hp
    · exact List.mem_append_left _ (hports p hp hlater)
    · refine List.mem_append_right _ ?_
      have htail := htails n List.mem_cons_self
      cases houtputs : n.outputs with
      | nil => rw [houtputs] at hp; cases hp
      | cons out others =>
        rw [houtputs] at hp htail
        rcases List.mem_cons.mp hp with rfl | hp
        · exact List.mem_singleton_self p.ident
        · exact absurd (htail p hp) hlater

/-- An output of a node is the first one, or a later one. -/
theorem mem_outputs {graph : ShaderGraph} {p : Port}
    (hp : p ∈ graph.nodes.flatMap ShaderNode.outputs) (hlater : p ∉ laterOutputs graph) :
    p ∈ graph.nodes.filterMap fun n => n.outputs.head? := by
  obtain ⟨n, hn, hp⟩ := List.mem_flatMap.mp hp
  refine List.mem_filterMap.mpr ⟨n, hn, ?_⟩
  have htail : ∀ q ∈ n.outputs.tail, q ∈ laterOutputs graph := fun q hq =>
    List.mem_flatMap.mpr ⟨n, hn, hq⟩
  cases houtputs : n.outputs with
  | nil => rw [houtputs] at hp; cases hp
  | cons out others =>
    rw [houtputs] at hp htail
    rcases List.mem_cons.mp hp with rfl | hp
    · rfl
    · exact absurd (htail p hp) hlater

/-- The names that are known at the start of the body: arguments and constants. -/
def scopeNames (ps : Stage) (transparent : Bool) : List Text :=
  (rootArguments ps transparent).map Prod.snd ++ ps.constants.ports.map Port.ident

/-- The argument of a port is known from the start. -/
theorem argumentOf_mem_scopeNames {ps : Stage} {p : Port} (hp : p ∈ publicPorts ps ++ vertexPorts ps)
    (transparent : Bool) : (argumentOf p).2 ∈ scopeNames ps transparent :=
  List.mem_append_left _ (List.mem_map_of_mem (List.mem_append_left _ (List.mem_map_of_mem hp)))

/-- The bindings read arguments: vertex data is no matrix, so that its argument has its own name. -/
theorem grounded_bindings {later : List Port} {ps : Stage} (transparent lightRig : Bool)
    (hvertex : ∀ p ∈ vertexPorts ps, p.type ≠ .matrix33) :
    Statement.Grounded later (scopeNames ps transparent) (bindingStatements ps lightRig) := by
  refine Statement.grounded_of_reads fun st hst p hp _ => ?_
  rcases List.mem_append.mp hst with hst | hst
  · rcases List.mem_append.mp hst with hst | hst
    · obtain ⟨q, hq, rfl⟩ := List.mem_map.mp hst
      obtain rfl : p = q := List.mem_singleton.mp hp
      have hname := argumentOf_mem_scopeNames (List.mem_append_right (publicPorts ps) hq) transparent
      rwa [argumentOf, if_neg (hvertex p hq)] at hname
    · have hnone : ∀ st ∈ sampleStatements, st.reads = [] := by
        intro st hst
        rcases List.mem_cons.mp hst with rfl | hst
        · rfl
        · rw [List.mem_singleton.mp hst]; rfl
      cases lightRig with
      | false => cases hst
      | true => rw [hnone st hst] at hp; cases hp
  · obtain ⟨q, _, rfl⟩ := List.mem_map.mp hst
    cases hp

/-- Behind the bindings, every public port is known by its own name. -/
theorem public_mem_known {ps : Stage} {p : Port} (hp : p ∈ publicPorts ps) (transparent lightRig : Bool) :
    p.ident ∈ scopeNames ps transparent ++
      (bindingStatements ps lightRig).filterMap Statement.declared? := by
  by_cases htype : p.type = .matrix33
  · refine List.mem_append_right _ ?_
    rw [declared_bindingStatements]
    exact List.mem_map_of_mem (List.mem_filter.mpr ⟨hp, beq_iff_eq.mpr htype⟩)
  · have hname := argumentOf_mem_scopeNames (List.mem_append_left (vertexPorts ps) hp) transparent
    rw [argumentOf, if_neg htype] at hname
    exact List.mem_append_left _ hname

/-- First and later outputs are all outputs. -/
theorem outputs_perm (nodes : List ShaderNode) :
    ((nodes.filterMap fun n => n.outputs.head?) ++ nodes.flatMap fun n => n.outputs.tail).Perm
      (nodes.flatMap ShaderNode.outputs) := by
  induction nodes with
  | nil => exact List.Perm.refl []
  | cons n rest ih =>
    rw [List.filterMap_cons, List.flatMap_cons, List.flatMap_cons]
    cases n.outputs with
    | nil => exact ih
    | cons out others =>
      refine List.Perm.cons out ((List.perm_append_comm_assoc _ _ _).trans ?_)
      exact ih.append_left others

/-- An output is the first one of its node or a later one, and not both. -/
theorem declared_laterOutputs_subperm (graph : ShaderGraph) :
    (declaredOutputs graph ++ laterOutputs graph).Subperm (graph.nodes.flatMap ShaderNode.outputs) := by
  refine List.Subperm.trans (List.Sublist.subperm ?_) (outputs_perm graph.nodes).subperm
  refine List.Sublist.append ?_ (List.Sublist.refl _)
  rw [declaredOutputs]
  split
  · exact List.nil_sublist _
  · exact List.Sublist.refl _

/-- The names that ports do not have for themselves: those of textures, of vertex data and of the local
variable. -/
def sharedNames (g : FragmentGenerator) (o : Options) (graph : ShaderGraph) (ps : Stage) : List Text :=
  ((publicPorts ps ++ ps.constants.ports ++ declaredOutputs graph).filter (·.type == .filename)).map
      Port.ident ++
    g.vertexNames o ps ++ localNames graph o.transparency

/-- The name of a texture may be shared. -/
theorem texture_mem_sharedNames {g : FragmentGenerator} {o : Options} {graph : ShaderGraph} {ps : Stage}
    {q : Port} (hq : q ∈ publicPorts ps ++ ps.constants.ports ++ declaredOutputs graph)
    (h : q.type = .filename) : q.ident ∈ g.sharedNames o graph ps :=
  List.mem_append_left _ (List.mem_append_left _
    (List.mem_map_of_mem (List.mem_filter.mpr ⟨hq, beq_iff_eq.mpr h⟩)))

/-- The names that are declared in front of a line of the root function, as the host has them: arguments,
constants, and what the lines before it declare. -/
def namesBefore (g : FragmentGenerator) (o : Options) (ps : Stage) (before : List Statement) : List Text :=
  (scopeNames ps o.transparency ++ before.filterMap Statement.declared?).map (g.finalTokens o).replace

namespace Finished

variable {g : FragmentGenerator} {o : Options} {gr : Graph} {v : Inventory} {ps : Stage} {s : Shader}

/-- The ports that nodes find ready are known behind the bindings. -/
theorem ready_mem_known (h : g.Finished o gr v ps s) (lightRig : Bool) :
    ∀ p ∈ v.constants ++ v.published, p.ident ∈ scopeNames ps o.transparency ++
      (bindingStatements ps lightRig).filterMap Statement.declared? := by
  intro p hp
  rcases List.mem_append.mp hp with hp | hp
  · rw [← h.constants_eq] at hp
    exact List.mem_append_left _ (List.mem_append_right _ (List.mem_map_of_mem hp))
  · obtain ⟨added, hpublished, _⟩ := g.lit_published o s.graph v
    have hpublic : p ∈ publicPorts ps := by
      rw [h.publicPorts_eq, hpublished]
      exact List.mem_append_left _ hp
    exact public_mem_known hpublic o.transparency lightRig

/-- **The body of the root function is grounded**, apart from later outputs. -/
theorem grounded_rootBody (h : g.Finished o gr v ps s) : Statement.Grounded (laterOutputs s.graph)
    (scopeNames ps o.transparency) (g.rootBody o.transparency s.graph ps) := by
  have hvertex : ∀ p ∈ vertexPorts ps, p.type ≠ .matrix33 := by
    rw [h.vertexPorts_eq]
    exact fun p hp => (h.created.hosted.vertex p hp).2.2
  rw [rootBody]
  split
  · exact ⟨fun p hp => (by cases hp), trivial⟩
  · rw [Statement.grounded_append, Statement.grounded_append, List.filterMap_append, declared_nodes]
    refine ⟨⟨grounded_bindings o.transparency _ hvertex, ?_⟩, ?_⟩
    · exact grounded_nodes ps h.created.supplied (fun p hp _ => h.ready_mem_known _ p hp)
        fun n hn p hp => List.mem_flatMap.mpr ⟨n, hn, hp⟩
    · refine Statement.grounded_of_reads fun st hst p hp hlater => ?_
      have houtput := h.created.socket p (reads_resultStatements hst hp)
      exact List.mem_append_right _ (List.mem_append_right _
        (List.mem_map_of_mem (mem_outputs houtput hlater)))

/-- What is declared in front of a line is among the names of the root function, or a constant. -/
theorem names_subset (h : g.Finished o gr v ps s) {before after : List Statement}
    (hbody : g.rootBody o.transparency s.graph ps = before ++ after) :
    ∀ x ∈ g.namesBefore o ps before, x ∈ (g.finalRoot o s.graph ps).names ∨
      x ∈ v.constants.map Port.ident := by
  intro x hx
  have hconstants : (ps.constants.ports.map Port.ident).map (g.finalTokens o).replace =
      v.constants.map Port.ident := by
    rw [h.constants_eq]
    exact map_replace_of_quiet g o (List.forall_mem_map.mpr fun p hp => (h.created.clean.constants p hp).quiet)
  rw [finalRoot, RootFunction.names_resolve, RootFunction.names, root, hbody, List.filterMap_append]
  rw [namesBefore, scopeNames, List.map_append, List.map_append, hconstants] at hx
  simp only [List.map_append, List.mem_append] at hx ⊢
  rcases hx with (hx | hx) | hx
  · exact Or.inl (Or.inl hx)
  · exact Or.inr hx
  · exact Or.inl (Or.inr (Or.inl hx))

/-- The account of all ports that are declared, and of the later outputs. -/
theorem ledger_laterOutputs (h : g.Finished o gr v ps s) : Ledger start v.identifiers
    (v.constants ++ v.published ++ (declaredOutputs s.graph ++ laterOutputs s.graph)) :=
  h.created.accounted.subperm
    ((List.Subperm.refl _).append (declared_laterOutputs_subperm s.graph))

/-- No other port has the name of a later output for itself. -/
theorem later_not_mem_ownNames (h : g.Finished o gr v ps s) {p q : Port} (hp : p ∈ laterOutputs s.graph)
    (htype : p.type ≠ .filename) (hq : q ∈ v.constants ++ v.published ++ declaredOutputs s.graph) :
    p.ident ∉ q.ownNames := by
  intro hown
  have hdistinct := h.ledger_laterOutputs.distinct
  rw [← List.append_assoc, List.flatMap_append] at hdistinct
  have hself := List.mem_flatMap.mpr ⟨p, hp, Port.ident_mem_ownNames htype⟩
  exact (List.nodup_append.mp hdistinct).2.2 _ (List.mem_flatMap.mpr ⟨q, hq, hown⟩) _ hself rfl

/-- A later output has a name of its own, which no variable has. -/
theorem later_not_mem_variableNames (h : g.Finished o gr v ps s) {p : Port}
    (hp : p ∈ laterOutputs s.graph) (htype : p.type ≠ .filename) :
    p.ident ∉ variableNames s.graph ps := by
  intro hmem
  obtain ⟨q, hq, hown⟩ := List.mem_flatMap.mp ((variableNames_subperm s.graph ps).subset hmem)
  rcases h.mem_declared hq with hq | hq
  · refine h.later_not_mem_ownNames hp htype ?_ hown
    rw [List.append_assoc]
    exact List.mem_append_right _ hq
  · obtain ⟨_, hrig, hunderscore, _⟩ := lightRig_spelled q hq
    have hident : p.ident = q.ident := List.mem_singleton.mp (hrig ▸ hown)
    have houtput := (declared_laterOutputs_subperm s.graph).subset (List.mem_append_right _ hp)
    exact hunderscore (hident ▸ underscore_mem_outputs h.created.nodes p houtput)

/-- A constant that is called like a later output is a texture. -/
theorem later_shared_of_constants (h : g.Finished o gr v ps s) {p : Port} (hp : p ∈ laterOutputs s.graph)
    (htype : p.type ≠ .filename) (hname : p.ident ∈ v.constants.map Port.ident) :
    p.ident ∈ g.sharedNames o s.graph ps := by
  obtain ⟨q, hq, hident⟩ := List.mem_map.mp hname
  by_cases hfile : q.type = .filename
  · rw [← hident]
    refine texture_mem_sharedNames (List.mem_append_left _ (List.mem_append_right _ ?_)) hfile
    rw [h.constants_eq]
    exact hq
  · have hown := Port.ident_mem_ownNames hfile
    rw [hident] at hown
    exact absurd hown (h.later_not_mem_ownNames hp htype
      (List.mem_append_left _ (List.mem_append_left _ hq)))

/-- What is called like a later output in the scope of the root function is a texture, vertex data or the
local variable. -/
theorem later_shared_of_names (h : g.Finished o gr v ps s) {p : Port} (hp : p ∈ laterOutputs s.graph)
    (htype : p.type ≠ .filename) (hname : p.ident ∈ (g.finalRoot o s.graph ps).names) :
    p.ident ∈ g.sharedNames o s.graph ps := by
  simp only [h.names_perm.mem_iff, List.mem_append] at hname
  rcases hname with hname | ((hname | hname) | hname) | hname
  · exact absurd hname (h.later_not_mem_variableNames hp htype)
  · obtain ⟨q, hq, hident⟩ := List.mem_map.mp hname
    obtain ⟨hq, hfile⟩ := List.mem_filter.mp hq
    rw [← hident]
    refine texture_mem_sharedNames ?_ (beq_iff_eq.mp hfile)
    rcases List.mem_append.mp hq with hq | hq
    · exact List.mem_append_left _ (List.mem_append_left _ hq)
    · exact List.mem_append_right _ hq
  · exact List.mem_append_left _ (List.mem_append_right _ hname)
  · have hmem := List.mem_append_right (v.constants ++ v.published)
      (List.mem_append_right (declaredOutputs s.graph) hp)
    have hnew := h.ledger_laterOutputs.new p hmem _ (Port.ident_mem_ownNames htype)
    rw [(getLast?_transparencyNames hname).1, contains_start] at hnew
    cases hnew
  · exact List.mem_append_right _ hname

/-- **A later output is declared by coincidence only**: it is a texture, or called like one, like vertex
data or like the local variable. -/
theorem shared_of_later (h : g.Finished o gr v ps s) {before after : List Statement}
    (hbody : g.rootBody o.transparency s.graph ps = before ++ after) {p : Port}
    (hp : p ∈ laterOutputs s.graph) (hname : (g.finalTokens o).replace p.ident ∈ g.namesBefore o ps before) :
    p.type = .filename ∨ p.ident ∈ g.sharedNames o s.graph ps := by
  by_cases htype : p.type = .filename
  · exact Or.inl htype
  · refine Or.inr ?_
    have hquiet := (h.ledger_laterOutputs.calm (List.mem_append_right _ (List.mem_append_right _ hp))).quiet
    rw [(g.finalTokens_hosted o).replace_of_quiet hquiet] at hname
    rcases h.names_subset hbody _ hname with hname | hname
    · exact h.later_shared_of_names hp htype hname
    · exact h.later_shared_of_constants hp htype hname

/-- Every line finds what it reads, as long as it finds the later outputs that it reads. -/
theorem reads_iff (h : g.Finished o gr v ps s) :
    (∀ before line after, g.rootBody o.transparency s.graph ps = before ++ line :: after →
      ∀ p ∈ line.reads, (g.finalTokens o).replace p.ident ∈ g.namesBefore o ps before) ↔
    ∀ before line after, g.rootBody o.transparency s.graph ps = before ++ line :: after →
      ∀ p ∈ line.reads, p ∈ laterOutputs s.graph →
        (p.type = .filename ∨ p.ident ∈ g.sharedNames o s.graph ps) ∧
        (g.finalTokens o).replace p.ident ∈ g.namesBefore o ps before := by
  constructor
  · intro hall before line after hbody p hp hlater
    have hname := hall before line after hbody p hp
    exact ⟨h.shared_of_later hbody hlater hname, hname⟩
  · intro hall before line after hbody p hp
    by_cases hlater : p ∈ laterOutputs s.graph
    · exact (hall before line after hbody p hp hlater).2
    · have hgrounded := h.grounded_rootBody
      rw [hbody] at hgrounded
      exact List.mem_map_of_mem (hgrounded.mem_known hp hlater)

end Finished

/-- **Every line of the root function finds what it reads exactly if it finds the later outputs that it
reads.**  The finished pixel stage ends with the text of its root function.  A port that a line reads is
declared in front of it: as an argument, as a matrix that is taken out of a wider one, as a constant, or as
the first output of an earlier node.  Only an output behind the first one is not, unless it is a texture or
shares its name with a texture, with vertex data or with the local variable. -/
theorem root_reads_declared_iff {g : FragmentGenerator} {name : Text} {graph : Option Graph} {o : Options}
    {samples : SampleSetting} {s : Shader}
    (h : (g.generate name graph (g.contextWith o samples)).1 = .ok s) :
    ∃ ps front, s.stage? pixelStage = some ps ∧ ps.code = front ++ (g.finalRoot o s.graph ps).text ∧
      ((∀ before line after, g.rootBody o.transparency s.graph ps = before ++ line :: after →
        ∀ p ∈ line.reads, (g.finalTokens o).replace p.ident ∈ g.namesBefore o ps before) ↔
      ∀ before line after, g.rootBody o.transparency s.graph ps = before ++ line :: after →
        ∀ p ∈ line.reads, p ∈ laterOutputs s.graph →
          (p.type = .filename ∨ p.ident ∈ g.sharedNames o s.graph ps) ∧
          (g.finalTokens o).replace p.ident ∈ g.namesBefore o ps before) := by
  obtain ⟨_, _, _, ps, hfinished⟩ := finished_of_generate h
  obtain ⟨front, hcode⟩ := hfinished.exists_front
  exact ⟨ps, front, hfinished.pixel, hcode, hfinished.reads_iff⟩

/-- A graph that shows the second output of a constant. -/
def secondOutputGraph : Graph :=
  ⟨"G", [], [⟨"a", "ND_constant_float", .float, [], [⟨"x", .float⟩, ⟨"y", .float⟩]⟩],
    ⟨"out", .float, "a", "y", [], none⟩⟩

theorem accepted_secondOutputGraph : secondOutputGraph.Accepted standard.registry :=
  ⟨by decide, by decide, fun _ => ⟨⟨"y", .float⟩, by decide, rfl⟩⟩

theorem root_reads_declared_iff_second : ∃ s,
    (standard.generate "S" (some secondOutputGraph) (standard.contextWith unlitOptions .absent)).1 = .ok s ∧
    ∃ ps front, s.stage? pixelStage = some ps ∧
      ps.code = front ++ (standard.finalRoot unlitOptions s.graph ps).text ∧
      ((∀ before line after, standard.rootBody false s.graph ps = before ++ line :: after →
        ∀ p ∈ line.reads,
          (standard.finalTokens unlitOptions).replace p.ident ∈ standard.namesBefore unlitOptions ps before) ↔
      ∀ before line after, standard.rootBody false s.graph ps = before ++ line :: after →
        ∀ p ∈ line.reads, p ∈ laterOutputs s.graph →
          (p.type = .filename ∨ p.ident ∈ standard.sharedNames unlitOptions s.graph ps) ∧
          (standard.finalTokens unlitOptions).replace p.ident ∈
            standard.namesBefore unlitOptions ps before) := by
  obtain ⟨_, _, _, _, _, hs⟩ :=
    exists_finalShader (o := unlitOptions) accepted_secondOutputGraph "S" (by decide) .absent
  exact ⟨_, hs, root_reads_declared_iff hs⟩

/-- The last line of the root function returns a variable that nothing declares. -/
theorem root_reads_undeclared : ∃ s ps front before line p,
    (standard.generate "S" (some secondOutputGraph) (standard.contextWith unlitOptions .absent)).1 = .ok s ∧
    s.stage? pixelStage = some ps ∧
    ps.code = front ++ (standard.finalRoot unlitOptions s.graph ps).text ∧
    standard.rootBody false s.graph ps = before ++ [line] ∧ p ∈ line.reads ∧
    (standard.finalTokens unlitOptions).replace p.ident ∉ standard.namesBefore unlitOptions ps before := by
  obtain ⟨made, v, _, _, hcreate, hs⟩ :=
    exists_finalShader (o := unlitOptions) accepted_secondOutputGraph "S" (by decide) .absent
  -- The body is known as soon as the shader is made, before any code is written.
  have hcheck : (standard.createShader "S" (some secondOutputGraph)
      (some (standard.contextWith unlitOptions .absent))).toOption.all (fun b =>
        let ps := (b.stage? pixelStage).getD (.empty pixelStage)
        let body := standard.rootBody false b.graph ps
        body.getLast?.any fun line => line.reads.any fun p =>
          decide ((standard.finalTokens unlitOptions).replace p.ident ∉
            standard.namesBefore unlitOptions ps body.dropLast)) = true := by decide +kernel
  rw [hcreate] at hcheck
  obtain ⟨line, hline, hreads⟩ := (Option.any_eq_true _ _).mp hcheck
  obtain ⟨p, hp, hname⟩ := List.any_eq_true.mp hreads
  obtain ⟨_, _, _, ps, hfinished⟩ := finished_of_generate hs
  obtain rfl := Option.some.inj hfinished.pixel
  obtain ⟨front, hcode⟩ := hfinished.exists_front
  exact ⟨_, _, front, _, line, p, hs, hfinished.pixel, hcode,
    (List.dropLast_append_getLast? line hline).symm, hp, of_decide_eq_true hname⟩

end FragmentGenerator
end ShadeGraph
