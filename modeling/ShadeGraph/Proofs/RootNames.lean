/-
  The names that are declared in the scope of the root function.

  1. The names of a root function are those of its arguments, of the matrices that are taken out of wider
     ones, of the first outputs of the nodes, and maybe one local variable (`names_root`).
  2. They fall into families (`names_perm`): variables of ports that are no textures, textures, vertex data,
     the argument for transparency, and the local variable.
  3. Variables are distinct, because the account of names was kept for them (`nodup_variableNames`).  Vertex
     data is distinct too, and the last byte of a name tells the other families from each other.
  4. So names can clash in four ways only (`nodup_names_iff`): a texture with another texture or with a
     variable, vertex data with a variable, the local variable with a variable.  Nothing keeps them from it.
-/
import ShadeGraph.Proofs.Generation

namespace ShadeGraph

namespace FragmentGenerator

/-! ## The names of the root function -/

/-- The outputs that are declared by the calls of the nodes. -/
def declaredOutputs (graph : ShaderGraph) : List Port :=
  if graph.bareClosure then [] else graph.nodes.filterMap fun n => n.outputs.head?

/-- The matrices that are taken out of wider ones. -/
def convertedMatrices (graph : ShaderGraph) (ps : Stage) : List Port :=
  if graph.bareClosure then [] else (publicPorts ps).filter (·.type == .matrix33)

/-- The local variable, if the result is not returned directly. -/
def localNames (graph : ShaderGraph) (transparent : Bool) : List Text :=
  if graph.bareClosure then []
  else (resultStatements graph transparent).filterMap Statement.declared?

/-- The argument for transparency, if there is one. -/
def transparencyNames (transparent : Bool) : List Text :=
  if transparent then [transparencyArgument] else []

/-- In front of the nodes, only matrices are declared.  Vertex data is copied to where there is a place for it.
-/
theorem declared_bindingStatements (ps : Stage) (lightRig : Bool) :
    (bindingStatements ps lightRig).filterMap Statement.declared? =
      ((publicPorts ps).filter (·.type == .matrix33)).map Port.ident := by
  have hcopies : ((vertexPorts ps).map copyStatement).filterMap Statement.declared? = [] := by
    rw [List.filterMap_map]
    exact List.filterMap_eq_nil_iff.mpr fun _ _ => rfl
  have hsamples : (if lightRig then sampleStatements else []).filterMap Statement.declared? = [] := by
    cases lightRig <;> rfl
  rw [bindingStatements, List.filterMap_append, List.filterMap_append, hcopies, hsamples,
    List.filterMap_map]
  exact List.filterMap_eq_map_iff_forall_eq_some.mpr fun _ _ => rfl

/-- A node declares its first output and nothing else. -/
theorem declared_statements (n : ShaderNode) (ps : Stage) :
    (n.statements ps).filterMap Statement.declared? = (n.outputs.head?.map Port.ident).toList := by
  rw [ShaderNode.statements]
  cases n.outputs.head? with
  | none => rfl
  | some out => cases n.implementation.sourcePath? <;> rfl

/-- All nodes declare their first outputs, in order. -/
theorem declared_nodes (nodes : List ShaderNode) (ps : Stage) :
    (nodes.flatMap fun n => n.statements ps).filterMap Statement.declared? =
      (nodes.filterMap fun n => n.outputs.head?).map Port.ident := by
  induction nodes with
  | nil => rfl
  | cons n nodes ih =>
    rw [List.flatMap_cons, List.filterMap_append, declared_statements, ih, List.filterMap_cons]
    cases n.outputs.head? <;> rfl

/-- The names of the root function, before tokens are replaced. -/
theorem names_root (g : FragmentGenerator) (transparent : Bool) (graph : ShaderGraph) (name : Text)
    (ps : Stage) : (g.root transparent graph name ps).names =
      (publicPorts ps ++ vertexPorts ps).map (fun p => (argumentOf p).2) ++
        transparencyNames transparent ++ ((convertedMatrices graph ps).map Port.ident ++
          (declaredOutputs graph).map Port.ident ++ localNames graph transparent) := by
  have harguments : (rootArguments ps transparent).map Prod.snd =
      (publicPorts ps ++ vertexPorts ps).map (fun p => (argumentOf p).2) ++
        transparencyNames transparent := by
    rw [rootArguments, List.map_append, List.map_map]
    cases transparent <;> rfl
  rw [RootFunction.names, root, harguments, rootBody, convertedMatrices, declaredOutputs, localNames]
  congr 1
  split
  · rfl
  · rw [List.filterMap_append, List.filterMap_append, declared_bindingStatements, declared_nodes]

/-- There is one local variable at most, that of the socket. -/
theorem localNames_sublist (graph : ShaderGraph) (transparent : Bool) :
    (localNames graph transparent).Sublist [localName graph.socket] := by
  rw [localNames]
  split
  · exact List.nil_sublist _
  · rw [resultStatements]
    cases graph.socket.connection with
    | some p => exact List.nil_sublist _
    | none =>
      by_cases hdirect : (if transparent = true then graph.socket.port.type.isFloat4
          else graph.socket.port.type.isFloat3) = true
      · simp only [hdirect]
        exact List.nil_sublist _
      · simp only [hdirect]
        exact List.Sublist.refl _

/-! ## Families of names -/

/-- The names of the ports that are no textures: arguments, matrices that are taken out of wider ones, and
outputs of nodes. -/
def variableNames (graph : ShaderGraph) (ps : Stage) : List Text :=
  ((publicPorts ps).filter (·.type != .filename)).map (fun p => (argumentOf p).2) ++
    (convertedMatrices graph ps).map Port.ident ++
    ((declaredOutputs graph).filter (·.type != .filename)).map Port.ident

/-- The names of textures. -/
def textureNames (graph : ShaderGraph) (ps : Stage) : List Text :=
  ((publicPorts ps ++ declaredOutputs graph).filter (·.type == .filename)).map Port.ident

/-- The names of vertex data, as the host has them. -/
def vertexNames (g : FragmentGenerator) (o : Options) (ps : Stage) : List Text :=
  (vertexPorts ps).map fun p => (g.finalTokens o).replace p.ident

/-- Ports with and without textures are all ports. -/
theorem map_filter_perm (f : Port → Text) (ports : List Port) :
    (ports.map f).Perm ((ports.filter (·.type != .filename)).map f ++
      (ports.filter (·.type == .filename)).map f) := by
  have hparts := (List.filter_append_perm (fun p : Port => p.type == .filename) ports).map f
  rw [List.map_append] at hparts
  exact (hparts.symm.trans List.perm_append_comm)

theorem argumentOf_texture {p : Port} (h : p.type = .filename) : (argumentOf p).2 = p.ident := by
  rw [argumentOf, if_neg (by rw [h]; decide)]

/-- An argument has the identifier of its port, with a number behind it for a matrix. -/
theorem quiet_argumentOf {p : Port} (h : p.ident.Quiet) : (argumentOf p).2.Quiet := by
  rw [argumentOf]
  split
  · exact h.append (by decide)
  · exact h

/-- Quiet names stay as they are. -/
theorem map_replace_of_quiet (g : FragmentGenerator) (o : Options) {names : List Text}
    (h : ∀ x ∈ names, x.Quiet) : names.map (g.finalTokens o).replace = names :=
  (List.map_congr_left fun x hx => (g.finalTokens_hosted o).replace_of_quiet (h x hx)).trans
    (List.map_id names)

/-- What the nodes declare is among their outputs. -/
theorem declaredOutputs_sublist (graph : ShaderGraph) :
    (declaredOutputs graph).Sublist (graph.nodes.flatMap ShaderNode.outputs) := by
  rw [declaredOutputs]
  split
  · exact List.nil_sublist _
  · induction graph.nodes with
    | nil => exact List.Sublist.slnil
    | cons n nodes ih =>
      rw [List.filterMap_cons, List.flatMap_cons]
      cases n.outputs with
      | nil => exact ih
      | cons out rest => exact (ih.trans (List.sublist_append_right rest _)).cons_cons out

/-- The matrices that are taken out of wider ones are published. -/
theorem convertedMatrices_subset (graph : ShaderGraph) (ps : Stage) :
    ∀ p ∈ convertedMatrices graph ps, p ∈ publicPorts ps ∧ p.type = .matrix33 := by
  intro p hp
  rw [convertedMatrices] at hp
  split at hp
  · cases hp
  · obtain ⟨hmem, htype⟩ := List.mem_filter.mp hp
    exact ⟨hmem, beq_iff_eq.mp htype⟩

namespace Finished

variable {g : FragmentGenerator} {o : Options} {gr : Graph} {v : Inventory} {ps : Stage} {s : Shader}

theorem quiet_publicPorts (h : g.Finished o gr v ps s) : ∀ p ∈ publicPorts ps, p.ident.Quiet := by
  rw [h.publicPorts_eq]
  exact fun p hp => (h.clean.published p hp).quiet

theorem quiet_declaredOutputs (h : g.Finished o gr v ps s) :
    ∀ p ∈ declaredOutputs s.graph, p.ident.Quiet := fun _ hp =>
  (h.created.accounted.calm (List.mem_append_right _ ((declaredOutputs_sublist s.graph).subset hp))).quiet

/-- The local variable has no tokens in its name. -/
theorem quiet_localNames (h : g.Finished o gr v ps s) (transparent : Bool) :
    ∀ x ∈ localNames s.graph transparent, x.Quiet := by
  intro x hx
  obtain ⟨_, hspelled⟩ := h.created.spelled
  rw [List.mem_singleton.mp ((localNames_sublist s.graph transparent).subset hx)]
  exact hspelled.calm.quiet.append (by decide)

/-- The arguments for vertex data have the names of the host. -/
theorem vertexNames_eq (h : g.Finished o gr v ps s) :
    ((vertexPorts ps).map fun p => (argumentOf p).2).map (g.finalTokens o).replace =
      g.vertexNames o ps := by
  rw [List.map_map]
  refine List.map_congr_left fun p hp => ?_
  rw [h.vertexPorts_eq] at hp
  have htype := (h.created.hosted.vertex p hp).2.2
  show (g.finalTokens o).replace (argumentOf p).2 = _
  rw [argumentOf, if_neg htype]

/-- Every name of the root function belongs to one family. -/
theorem names_perm (h : g.Finished o gr v ps s) : (g.finalRoot o s.graph ps).names.Perm
    (variableNames s.graph ps ++ (textureNames s.graph ps ++ g.vertexNames o ps ++
      transparencyNames o.transparency ++ localNames s.graph o.transparency)) := by
  have hpublic := map_replace_of_quiet g o (List.forall_mem_map.mpr fun p hp =>
    quiet_argumentOf (h.quiet_publicPorts p hp))
  have hmatrices := map_replace_of_quiet g o (List.forall_mem_map.mpr fun p hp =>
    h.quiet_publicPorts p (convertedMatrices_subset s.graph ps p hp).1)
  have houtputs := map_replace_of_quiet g o (List.forall_mem_map.mpr h.quiet_declaredOutputs)
  have hlocal := map_replace_of_quiet g o (h.quiet_localNames o.transparency)
  have htransparent : (transparencyNames o.transparency).map (g.finalTokens o).replace =
      transparencyNames o.transparency := map_replace_of_quiet g o (by cases o.transparency <;> decide)
  have htextures : textureNames s.graph ps =
      ((publicPorts ps).filter (·.type == .filename)).map (fun p => (argumentOf p).2) ++
        ((declaredOutputs s.graph).filter (·.type == .filename)).map Port.ident := by
    rw [textureNames, List.filter_append, List.map_append]
    congr 1
    exact List.map_congr_left fun p hp =>
      (argumentOf_texture (beq_iff_eq.mp (List.mem_filter.mp hp).2)).symm
  have hsplit := map_filter_perm (fun p => (argumentOf p).2) (publicPorts ps)
  have hsplit' := map_filter_perm Port.ident (declaredOutputs s.graph)
  rw [finalRoot, RootFunction.names_resolve, names_root]
  simp only [List.map_append, hpublic, hmatrices, houtputs, hlocal, htransparent, h.vertexNames_eq,
    htextures, variableNames]
  -- The parts are the same, in another order.
  refine List.perm_iff_count.mpr fun x => ?_
  have hcount := hsplit.count_eq x
  have hcount' := hsplit'.count_eq x
  simp only [List.count_append] at hcount hcount' ⊢
  omega

end Finished

/-! ## Variables are distinct -/

/-- The names of public ports that are no textures are the ones that these ports have for themselves. -/
theorem publicNames_perm (ports : List Port) :
    ((ports.filter (·.type != .filename)).map (fun p => (argumentOf p).2) ++
      (ports.filter (·.type == .matrix33)).map Port.ident).Perm (ports.flatMap Port.ownNames) := by
  refine List.perm_iff_count.mpr fun x => ?_
  induction ports with
  | nil => rfl
  | cons p ports ih =>
    rw [List.flatMap_cons, List.filter_cons, List.filter_cons]
    simp only [List.count_append] at ih ⊢
    rw [← ih, Port.ownNames, Port.takenNames]
    by_cases hfile : p.type = .filename
    · simp [hfile]
    · by_cases hmatrix : p.type = .matrix33
      · simp [hmatrix, argumentOf, List.count_cons]
        omega
      · simp [hfile, hmatrix, argumentOf, List.count_cons]
        omega

/-- An output that is no texture is known by its identifier. -/
theorem outputNames_sublist (ports : List Port) :
    ((ports.filter (·.type != .filename)).map Port.ident).Sublist (ports.flatMap Port.ownNames) := by
  induction ports with
  | nil => exact List.Sublist.slnil
  | cons p ports ih =>
    rw [List.flatMap_cons, List.filter_cons, Port.ownNames, Port.takenNames]
    by_cases hfile : p.type = .filename
    · simpa [hfile] using ih
    · by_cases hmatrix : p.type = .matrix33
      · simpa [hmatrix] using ih.cons (p.ident ++ wideSuffix)
      · simpa [hfile, hmatrix] using ih

/-- **Variables have names of their own**: each of them is spelled by the port that it is for, and no name is
counted twice. -/
theorem variableNames_subperm (graph : ShaderGraph) (ps : Stage) : (variableNames graph ps).Subperm
    ((publicPorts ps ++ declaredOutputs graph).flatMap Port.ownNames) := by
  have hmatrices : ((convertedMatrices graph ps).map Port.ident).Sublist
      (((publicPorts ps).filter (·.type == .matrix33)).map Port.ident) := by
    rw [convertedMatrices]
    split
    · exact List.nil_sublist _
    · exact List.Sublist.refl _
  have hpublic := ((List.Sublist.refl (((publicPorts ps).filter (·.type != .filename)).map
    fun p => (argumentOf p).2)).append hmatrices).subperm.trans (publicNames_perm (publicPorts ps)).subperm
  rw [variableNames, List.flatMap_append]
  exact hpublic.append (outputNames_sublist _).subperm

/-- What light adds to the published ports: some of the ports of the light rig, with new names. -/
theorem lit_published (g : FragmentGenerator) (o : Options) (graph : ShaderGraph) (v : Inventory) :
    ∃ added, (g.lit o graph v).published = v.published ++ added ∧ added.Sublist lightRigPorts ∧
      ∀ p ∈ added, ∀ q ∈ v.published, q.name ≠ p.name := by
  have hpublished : (Shader.withEnvironment o graph v).published = v.published := by
    rw [Shader.withEnvironment]
    split <;> rfl
  rw [lit]
  split
  · obtain ⟨added, heq, hsub, hnames⟩ := Port.foldl_addTo_eq lightRigPorts v.published
    exact ⟨added, by rw [Inventory.withPublished, hpublished, heq], hsub, hnames⟩
  · exact ⟨[], by rw [hpublished, List.append_nil], List.nil_sublist _, fun p hp => by cases hp⟩

/-- The names of the light rig are words without underscores and digits at the end. -/
theorem lightRig_spelled : ∀ p ∈ lightRigPorts, p.ident = p.name ∧ p.ownNames = [p.ident] ∧
    Identifier.underscore ∉ p.ident ∧ ∀ b ∈ p.ident.getLast?, Text.isDigit b = false := by
  have hcheck : ∀ p ∈ lightRigPorts, p.ident = p.name ∧ p.ownNames = [p.ident] ∧
      Identifier.underscore ∉ p.ident ∧ p.ident.getLast?.any Text.isDigit = false := by decide
  intro p hp
  obtain ⟨hname, hown, hunderscore, hdigit⟩ := hcheck p hp
  refine ⟨hname, hown, hunderscore, fun b hb => ?_⟩
  rwa [Option.mem_def.mp hb, Option.any_some] at hdigit

/-- A port that has the name of the light rig for itself is named like it. -/
theorem name_of_ownNames {start ids : IdentifierMap} {ports : List Port} (h : Ledger start ids ports)
    {q r : Port} (hq : q ∈ ports) (hr : r ∈ lightRigPorts) (hown : r.ident ∈ q.ownNames) :
    q.ident = r.ident ∧ q.name = r.name := by
  obtain ⟨hname, _, hunderscore, hdigit⟩ := lightRig_spelled r hr
  have hident : q.ident = r.ident := by
    rcases Port.mem_takenNames.mp (Port.mem_ownNames.mp hown).2 with heq | ⟨_, heq⟩
    · exact heq.symm
    · have hlast : r.ident.getLast? = some 52 := by
        rw [heq, List.getLast?_append]
        rfl
      exact absurd (hdigit 52 hlast) (by decide)
  obtain ⟨name, hspelled, hkind⟩ := h.spelled q hq
  rw [hident] at hspelled
  have heq := hspelled.name_eq hunderscore hdigit
  rcases hkind with hkind | hkind
  · exact ⟨hident, by rw [← hkind, heq, hname]⟩
  · rw [heq] at hkind
    exact absurd hkind hunderscore

/-- The argument for transparency is taken from the start. -/
theorem contains_start : start.contains transparencyArgument = true :=
  IdentifierMap.contains_reserve.mpr (Or.inl rfl)

/-- The identifier of an output has an underscore, between the names of the node and of the output. -/
theorem underscore_mem_outputs {registry : Registry} {ns : List Node} {ms : List ShaderNode}
    (h : List.Forall₂ (ShaderNode.StandsFor registry) ns ms) :
    ∀ p ∈ ms.flatMap ShaderNode.outputs, Identifier.underscore ∈ p.ident := by
  have hports : ∀ {os : List NodeOutput} {ps : List Port}, List.Forall₂ Port.OutputOf os ps →
      ∀ p ∈ ps, Identifier.underscore ∈ p.ident := by
    intro os ps hops
    induction hops with
    | nil => exact fun p hp => by cases hp
    | cons hop _ ih => exact List.forall_mem_cons.mpr ⟨hop.2.2, ih⟩
  induction h with
  | nil => exact fun p hp => by cases hp
  | cons hnm _ ih =>
    intro p hp
    rcases List.mem_append.mp hp with hp | hp
    · exact hports hnm.outputs p hp
    · exact ih p hp

namespace Finished

variable {g : FragmentGenerator} {o : Options} {gr : Graph} {v : Inventory} {ps : Stage} {s : Shader}

/-- The account of the published ports and of the outputs that are declared. -/
theorem ledger_declared (h : g.Finished o gr v ps s) :
    Ledger start v.identifiers (v.published ++ declaredOutputs s.graph) := by
  refine h.created.accounted.subperm (List.Sublist.subperm ?_)
  rw [List.append_assoc]
  exact ((List.Sublist.refl _).append (declaredOutputs_sublist s.graph)).trans
    (List.sublist_append_right _ _)

/-- A declared port is accounted for, or belongs to the light rig. -/
theorem mem_declared (h : g.Finished o gr v ps s) {p : Port}
    (hp : p ∈ publicPorts ps ++ declaredOutputs s.graph) :
    p ∈ v.published ++ declaredOutputs s.graph ∨ p ∈ lightRigPorts := by
  obtain ⟨added, hpublished, hsub, _⟩ := g.lit_published o s.graph v
  rw [h.publicPorts_eq, hpublished] at hp
  rcases List.mem_append.mp hp with hp | hp
  · rcases List.mem_append.mp hp with hp | hp
    · exact Or.inl (List.mem_append_left _ hp)
    · exact Or.inr (hsub.subset hp)
  · exact Or.inl (List.mem_append_right _ hp)

/-- **The names of published ports and of outputs are distinct.**  Those that the account covers were handed out
once, and the ports that light adds have no underscore. -/
theorem nodup_ownNames (h : g.Finished o gr v ps s) :
    ((publicPorts ps ++ declaredOutputs s.graph).flatMap Port.ownNames).Nodup := by
  have hledger := h.ledger_declared
  obtain ⟨added, hpublished, hsub, hnames⟩ := g.lit_published o s.graph v
  have hrig : (added.flatMap Port.ownNames).Nodup := by
    have hall : (lightRigPorts.flatMap Port.ownNames).Nodup := by decide
    exact hall.sublist (hsub.flatMap _)
  have hperm : ((v.published ++ added ++ declaredOutputs s.graph).flatMap Port.ownNames).Perm
      ((v.published ++ declaredOutputs s.graph).flatMap Port.ownNames ++
        added.flatMap Port.ownNames) := by
    rw [← List.flatMap_append]
    refine List.Perm.flatMap_right _ ?_
    rw [List.append_assoc, List.append_assoc]
    exact List.perm_append_comm.append_left _
  rw [h.publicPorts_eq, hpublished]
  refine hperm.nodup_iff.mpr (List.nodup_append.mpr ⟨hledger.distinct, hrig, fun x hx y hy hxy => ?_⟩)
  obtain ⟨q, hq, hxq⟩ := List.mem_flatMap.mp hx
  obtain ⟨r, hr, hyr⟩ := List.mem_flatMap.mp hy
  obtain ⟨_, hown, hunderscore, _⟩ := lightRig_spelled r (hsub.subset hr)
  rw [hown, List.mem_singleton] at hyr
  subst hxy hyr
  -- The port that has a name of the light rig would have to be called like it.
  obtain ⟨hident, hname⟩ := name_of_ownNames hledger hq (hsub.subset hr) hxq
  rcases List.mem_append.mp hq with hq | hq
  · exact hnames r hr q hq hname
  · have houtput := underscore_mem_outputs h.created.nodes q ((declaredOutputs_sublist s.graph).subset hq)
    rw [hident] at houtput
    exact hunderscore houtput

/-- **Variables are distinct.** -/
theorem nodup_variableNames (h : g.Finished o gr v ps s) : (variableNames s.graph ps).Nodup := by
  obtain ⟨names, hperm, hsub⟩ := variableNames_subperm s.graph ps
  exact hperm.nodup_iff.mp (h.nodup_ownNames.sublist hsub)

/-- No variable is called like the argument for transparency, which is taken from the start. -/
theorem transparency_not_mem (h : g.Finished o gr v ps s) :
    transparencyArgument ∉ variableNames s.graph ps := by
  intro hmem
  obtain ⟨q, hq, hown⟩ := List.mem_flatMap.mp ((variableNames_subperm s.graph ps).subset hmem)
  rcases h.mem_declared hq with hq | hq
  · have hnew := h.ledger_declared.new q hq _ hown
    rw [contains_start] at hnew
    cases hnew
  · have hother : ∀ p ∈ lightRigPorts, transparencyArgument ∉ p.ownNames := by decide
    exact hother q hq hown

end Finished

/-! ## The other families -/

/-- The bytes that names of vertex data end with. -/
def isVertexEnd (b : UInt8) : Bool := b == 109 || b == 119 || Text.isDigit b

/-- A number ends in a digit. -/
theorem getLast?_ofInt : ∀ i : Int, ∃ b, (Text.ofInt i).getLast? = some b ∧ Text.isDigit b = true := by
  have hnat : ∀ n : Nat, ∃ b, (Text.ofNat n).getLast? = some b ∧ Text.isDigit b = true := by
    intro n
    obtain ⟨b, hb⟩ := Option.ne_none_iff_exists'.mp (mt List.getLast?_eq_none_iff.mp (Text.ofNat_ne_nil n))
    exact ⟨b, hb, Text.isDigit_of_mem_ofNat (List.mem_of_getLast? hb)⟩
  intro i
  cases i with
  | ofNat n => exact hnat n
  | negSucc n =>
    obtain ⟨b, hb, hdigit⟩ := hnat (n + 1)
    refine ⟨b, ?_, hdigit⟩
    show (([45] : Text) ++ Text.ofNat (n + 1)).getLast? = some b
    rw [List.getLast?_append, hb]
    rfl

/-- The names that geometric tokens stand for are different words that end like vertex data. -/
theorem replace_geometric (g : FragmentGenerator) (o : Options) : ∀ t ∈ Inventory.geometricTokens,
    Identifier.underscore ∉ (g.finalTokens o).replace t ∧
    ((g.finalTokens o).replace t).getLast?.any isVertexEnd = true ∧
    ∀ u ∈ Inventory.geometricTokens, (g.finalTokens o).replace t = (g.finalTokens o).replace u → t = u :=
  forall_finalTokens (P := fun ts => ∀ t ∈ Inventory.geometricTokens,
    Identifier.underscore ∉ ts.replace t ∧ (ts.replace t).getLast?.any isVertexEnd = true ∧
    ∀ u ∈ Inventory.geometricTokens, ts.replace t = ts.replace u → t = u)
    (by decide) (by decide) g o

/-- The names of texture coordinates are their tokens without the dollar sign. -/
theorem replace_texcoord (g : FragmentGenerator) (o : Options) (i : Int) :
    (g.finalTokens o).replace (Token.texcoord ++ "_" ++ Text.ofInt i) =
      "texcoord" ++ 95 :: Text.ofInt i := by
  have hosted := g.finalTokens_hosted o
  have hword : (g.finalTokens o).replace Token.texcoord = "texcoord" :=
    forall_finalTokens (P := fun ts => ts.replace Token.texcoord = "texcoord") (by decide)
      (by decide) g o
  have hsplit : Token.texcoord ++ "_" ++ Text.ofInt i = Token.texcoord ++ 95 :: Text.ofInt i := by
    rw [List.append_assoc]
    rfl
  rw [hsplit, hosted.replace_wall (by decide) (by decide), hword,
    hosted.replace_of_quiet (Text.calm_ofInt i).quiet]

/-- The host's name of vertex data ends in `m`, `w` or a digit. -/
theorem getLast?_vertexToken (g : FragmentGenerator) (o : Options) {t : Text}
    (h : Inventory.VertexToken t) :
    ∃ b ∈ ((g.finalTokens o).replace t).getLast?, isVertexEnd b = true := by
  rcases h with h | ⟨i, rfl⟩
  · exact (Option.any_eq_true _ _).mp (g.replace_geometric o t h).2.1
  · obtain ⟨b, hb, hdigit⟩ := getLast?_ofInt i
    refine ⟨b, ?_, by rw [isVertexEnd, hdigit, Bool.or_true]⟩
    rw [replace_texcoord, List.getLast?_append, List.getLast?_cons, hb]
    rfl

/-- **Different vertex data has different names in the host.** -/
theorem replace_vertexToken_injective (g : FragmentGenerator) (o : Options) {t u : Text}
    (ht : Inventory.VertexToken t) (hu : Inventory.VertexToken u)
    (heq : (g.finalTokens o).replace t = (g.finalTokens o).replace u) : t = u := by
  have hunderscore : ∀ i : Int, Identifier.underscore ∈
      (g.finalTokens o).replace (Token.texcoord ++ "_" ++ Text.ofInt i) := by
    intro i
    rw [replace_texcoord]
    exact List.mem_append_right _ List.mem_cons_self
  rcases ht with ht | ⟨i, rfl⟩
  · rcases hu with hu | ⟨j, rfl⟩
    · exact (g.replace_geometric o t ht).2.2 u hu heq
    · exact absurd (heq ▸ hunderscore j) (g.replace_geometric o t ht).1
  · rcases hu with hu | ⟨j, rfl⟩
    · exact absurd (heq ▸ hunderscore i) (g.replace_geometric o u hu).1
    · rw [replace_texcoord, replace_texcoord] at heq
      rw [List.cons.inj (List.append_cancel_left heq) |>.2]

namespace Finished

variable {g : FragmentGenerator} {o : Options} {gr : Graph} {v : Inventory} {ps : Stage} {s : Shader}

/-- Vertex data has distinct tokens, and these have distinct names. -/
theorem nodup_vertexNames (h : g.Finished o gr v ps s) : (g.vertexNames o ps).Nodup := by
  have hnames : g.vertexNames o ps = (v.vertex.map Port.name).map (g.finalTokens o).replace := by
    rw [vertexNames, h.vertexPorts_eq, List.map_map]
    exact List.map_congr_left fun p hp =>
      congrArg (g.finalTokens o).replace (h.created.hosted.vertex p hp).2.1
  have htoken : ∀ t ∈ v.vertex.map Port.name, Inventory.VertexToken t :=
    List.forall_mem_map.mpr fun p hp => (h.created.hosted.vertex p hp).1
  rw [hnames]
  exact h.created.hosted.distinct.map_on fun t ht u hu heq =>
    g.replace_vertexToken_injective o (htoken t ht) (htoken u hu) heq

/-- So the names of vertex data are told by their last byte. -/
theorem getLast?_vertexNames (h : g.Finished o gr v ps s) {x : Text} (hx : x ∈ g.vertexNames o ps) :
    ∃ b ∈ x.getLast?, isVertexEnd b = true := by
  obtain ⟨p, hp, rfl⟩ := List.mem_map.mp hx
  rw [h.vertexPorts_eq] at hp
  obtain ⟨htoken, hident, _⟩ := h.created.hosted.vertex p hp
  rw [hident]
  exact g.getLast?_vertexToken o htoken

/-- Textures end like samplers. -/
theorem getLast?_textureNames (h : g.Finished o gr v ps s) {x : Text}
    (hx : x ∈ textureNames s.graph ps) : x.getLast? = some 114 := by
  obtain ⟨p, hp, rfl⟩ := List.mem_map.mp hx
  obtain ⟨hp, htype⟩ := List.mem_filter.mp hp
  rcases h.mem_declared hp with hp | hp
  · obtain ⟨name, hspelled, _⟩ := h.ledger_declared.spelled p hp
    rw [beq_iff_eq.mp htype] at hspelled
    obtain ⟨front, hfront⟩ := hspelled.back_suffix
    rw [← hfront, List.getLast?_append]
    rfl
  · have hnone : ∀ p ∈ lightRigPorts, (p.type == .filename) = false := by decide
    rw [hnone p hp] at htype
    cases htype

/-- The local variable ends in `p`. -/
theorem getLast?_localNames {graph : ShaderGraph} {transparent : Bool} {x : Text}
    (hx : x ∈ localNames graph transparent) : x.getLast? = some 112 := by
  rw [List.mem_singleton.mp ((localNames_sublist graph transparent).subset hx), localName,
    List.getLast?_append]
  rfl

/-- The argument for transparency ends in `t`. -/
theorem getLast?_transparencyNames {transparent : Bool} {x : Text}
    (hx : x ∈ transparencyNames transparent) : x = transparencyArgument ∧ x.getLast? = some 116 := by
  cases transparent with
  | true => obtain rfl := List.mem_singleton.mp hx; exact ⟨rfl, by decide⟩
  | false => cases hx

/-- Apart from textures, the families besides the variables are distinct, in themselves and from each
other. -/
theorem nodup_families (h : g.Finished o gr v ps s) :
    (textureNames s.graph ps ++ g.vertexNames o ps ++ transparencyNames o.transparency ++
      localNames s.graph o.transparency).Nodup ↔ (textureNames s.graph ps).Nodup := by
  refine ⟨fun hall => ((hall.of_append_left).of_append_left).of_append_left, fun htextures => ?_⟩
  -- The families are told apart by the last bytes of their names.
  have hends : ∀ x ∈ textureNames s.graph ps ++ g.vertexNames o ps,
      ∃ b ∈ x.getLast?, b = 114 ∨ isVertexEnd b = true := by
    intro x hx
    rcases List.mem_append.mp hx with hx | hx
    · exact ⟨114, h.getLast?_textureNames hx, Or.inl rfl⟩
    · obtain ⟨b, hb, hend⟩ := h.getLast?_vertexNames hx
      exact ⟨b, hb, Or.inr hend⟩
  have hfirst : (textureNames s.graph ps ++ g.vertexNames o ps).Nodup := by
    refine List.nodup_append.mpr ⟨htextures, h.nodup_vertexNames, fun x hx y hy hxy => ?_⟩
    obtain ⟨b, hb, hend⟩ := h.getLast?_vertexNames hy
    rw [← hxy, h.getLast?_textureNames hx] at hb
    rw [← Option.some.inj hb] at hend
    exact absurd hend (by decide)
  have htransparency : (transparencyNames o.transparency).Nodup := by cases o.transparency <;> decide
  have hsecond := List.nodup_append.mpr ⟨hfirst, htransparency, fun x hx y hy hxy => by
    obtain ⟨b, hb, hend⟩ := hends x hx
    rw [hxy, (getLast?_transparencyNames hy).2] at hb
    rw [← Option.some.inj hb] at hend
    exact absurd hend (by decide)⟩
  have hlocal := (List.nodup_singleton (localName s.graph.socket)).sublist
    (localNames_sublist s.graph o.transparency)
  refine List.nodup_append.mpr ⟨hsecond, hlocal, fun x hx y hy hxy => ?_⟩
  have hlast := getLast?_localNames hy
  rcases List.mem_append.mp hx with hx | hx
  · obtain ⟨b, hb, hend⟩ := hends x hx
    rw [hxy, hlast] at hb
    rw [← Option.some.inj hb] at hend
    exact absurd hend (by decide)
  · rw [← hxy, (getLast?_transparencyNames hx).2] at hlast
    exact absurd hlast (by decide)

/-- **How names can clash**: a texture with another texture or with a variable, vertex data with a
variable, the local variable with a variable. -/
theorem nodup_names_iff (h : g.Finished o gr v ps s) : (g.finalRoot o s.graph ps).names.Nodup ↔
    (textureNames s.graph ps).Nodup ∧ (∀ x ∈ textureNames s.graph ps, x ∉ variableNames s.graph ps) ∧
    (∀ x ∈ g.vertexNames o ps, x ∉ variableNames s.graph ps) ∧
    ∀ x ∈ localNames s.graph o.transparency, x ∉ variableNames s.graph ps := by
  rw [h.names_perm.nodup_iff, List.nodup_append, h.nodup_families]
  constructor
  · rintro ⟨_, htextures, hother⟩
    refine ⟨htextures, fun x hx hvariable => ?_, fun x hx hvariable => ?_, fun x hx hvariable => ?_⟩
    · exact hother x hvariable x (by simp [hx]) rfl
    · exact hother x hvariable x (by simp [hx]) rfl
    · exact hother x hvariable x (by simp [hx]) rfl
  · rintro ⟨htextures, htexture, hvertex, hlocal⟩
    refine ⟨h.nodup_variableNames, htextures, fun x hx y hy hxy => ?_⟩
    subst hxy
    simp only [List.mem_append] at hy
    rcases hy with ((hy | hy) | hy) | hy
    · exact htexture x hy hx
    · exact hvertex x hy hx
    · exact h.transparency_not_mem ((getLast?_transparencyNames hy).1 ▸ hx)
    · exact hlocal x hy hx

end Finished

/-- **The names in the scope of the root function are distinct exactly if textures, vertex data and the
local variable keep clear of the variables.**  The finished pixel stage ends with the text of its root
function.  Nothing but four kinds of clashes makes two names of that function equal: two textures, a texture
and a variable, vertex data and a variable, or the local variable and a variable. -/
theorem root_names_distinct_iff {g : FragmentGenerator} {name : Text} {graph : Option Graph} {o : Options}
    {samples : SampleSetting} {s : Shader}
    (h : (g.generate name graph (g.contextWith o samples)).1 = .ok s) :
    ∃ ps front, s.stage? pixelStage = some ps ∧ ps.code = front ++ (g.finalRoot o s.graph ps).text ∧
      ((g.finalRoot o s.graph ps).names.Nodup ↔
        (textureNames s.graph ps).Nodup ∧
        (∀ x ∈ textureNames s.graph ps, x ∉ variableNames s.graph ps) ∧
        (∀ x ∈ g.vertexNames o ps, x ∉ variableNames s.graph ps) ∧
        ∀ x ∈ localNames s.graph o.transparency, x ∉ variableNames s.graph ps) := by
  obtain ⟨_, _, _, ps, hfinished⟩ := finished_of_generate h
  obtain ⟨front, hcode⟩ := hfinished.exists_front
  exact ⟨ps, front, hfinished.pixel, hcode, hfinished.nodup_names_iff⟩

/-- Options without lighting from the environment. -/
def unlitOptions : Options := ⟨3, .off, .analytic, false, false⟩

/-- A graph that shows the position, with an interface input that is called like it in the host. -/
def clashGraph : Graph :=
  ⟨"G", [⟨"Pw", .vector3, none⟩], [⟨"p", "ND_position_vector3", .vector3, [], []⟩],
    ⟨"out", .vector3, "p", [], [], none⟩⟩

theorem accepted_clashGraph : clashGraph.Accepted standard.registry :=
  ⟨by decide, by decide, fun _ => ⟨⟨"out", .vector3⟩, by decide, rfl⟩⟩

theorem root_names_distinct_iff_clash : ∃ s,
    (standard.generate "S" (some clashGraph) (standard.contextWith unlitOptions .absent)).1 = .ok s ∧
    ∃ ps front, s.stage? pixelStage = some ps ∧
      ps.code = front ++ (standard.finalRoot unlitOptions s.graph ps).text ∧
      ((standard.finalRoot unlitOptions s.graph ps).names.Nodup ↔
        (textureNames s.graph ps).Nodup ∧
        (∀ x ∈ textureNames s.graph ps, x ∉ variableNames s.graph ps) ∧
        (∀ x ∈ standard.vertexNames unlitOptions ps, x ∉ variableNames s.graph ps) ∧
        ∀ x ∈ localNames s.graph unlitOptions.transparency, x ∉ variableNames s.graph ps) := by
  obtain ⟨_, _, _, _, _, hs⟩ :=
    exists_finalShader (o := unlitOptions) accepted_clashGraph "S" (by decide) .absent
  exact ⟨_, hs, root_names_distinct_iff hs⟩

/-- An input of the interface and the position have one name in the root function. -/
theorem root_names_clash : ∃ s ps front,
    (standard.generate "S" (some clashGraph) (standard.contextWith unlitOptions .absent)).1 = .ok s ∧
    s.stage? pixelStage = some ps ∧
    ps.code = front ++ (standard.finalRoot unlitOptions s.graph ps).text ∧
    ¬ (standard.finalRoot unlitOptions s.graph ps).names.Nodup := by
  obtain ⟨made, v, _, _, hcreate, hs⟩ :=
    exists_finalShader (o := unlitOptions) accepted_clashGraph "S" (by decide) .absent
  -- The names are known as soon as the shader is made, before any code is written.
  have hclash : (standard.createShader "S" (some clashGraph)
      (some (standard.contextWith unlitOptions .absent))).toOption.all (fun b =>
        decide (¬ (standard.finalRoot unlitOptions b.graph
          ((b.stage? pixelStage).getD (.empty pixelStage))).names.Nodup)) = true := by decide
  rw [hcreate] at hclash
  have hnames : ¬ (standard.finalRoot unlitOptions made (standard.lit unlitOptions made v).pixel).names.Nodup :=
    of_decide_eq_true hclash
  obtain ⟨_, _, _, ps, hfinished⟩ := finished_of_generate hs
  obtain rfl := Option.some.inj hfinished.pixel
  obtain ⟨front, hcode⟩ := hfinished.exists_front
  exact ⟨_, _, front, hs, hfinished.pixel, hcode, hnames⟩

end FragmentGenerator
end ShadeGraph
