/-
  The library files that are expanded into the pixel stage.

  The stage starts with no path noted, so what stands in front of the root function is an expansion from
  nothing, and all that is proved of expansions holds of it (`Expands.nodup`, `Expands.closed`).  What is left
  is about this library:

  1. Every node whose implementation has a file asks for it, or a node of the same implementation did before
     (`ask_mem_functionSteps`).  So the file is expanded, and so is all that it asks for.
  2. The files that can be expanded are few (`reachableFiles`): they depend on the light interface, on the flip
     of textures and on the specular method.  Rivals are never both among them.
  3. Two files that define the same function are rivals, by the evaluation of the library.
-/
import ShadeGraph.Proofs.LibraryText

namespace ShadeGraph
namespace FragmentGenerator

/-! ## Files of nodes -/

/-- Implementations have names of their own. -/
theorem nodup_knownNames : (Implementation.known.map Implementation.name).Nodup := by decide +kernel

theorem eq_of_name_eq {i j : Implementation} (hi : i ∈ Implementation.known) (hj : j ∈ Implementation.known)
    (h : i.name = j.name) : i = j :=
  List.inj_on_of_nodup_map nodup_knownNames hi hj h

/-- A node asks for its file, unless its implementation is done already. -/
theorem ask_mem_functionSteps {path : Text} : ∀ {nodes : List ShaderNode} {defined : List Text},
    (∀ n ∈ nodes, n.implementation ∈ Implementation.known) → ∀ n ∈ nodes,
      n.implementation.sourcePath? = some path → n.implementation.name ∉ defined →
      CodeStep.ask path ∈ functionSteps nodes defined := by
  intro nodes
  induction nodes with
  | nil => intro defined _ n hn; cases hn
  | cons m rest ih =>
    intro defined hknown n hn hpath hnew
    have hrest : ∀ k ∈ rest, k.implementation ∈ Implementation.known := fun k hk =>
      hknown k (List.mem_cons_of_mem m hk)
    rw [functionSteps]
    rcases List.mem_cons.mp hn with rfl | hn
    · rw [if_neg (mt List.contains_iff_mem.mp hnew), hpath]
      exact List.mem_append_left _ List.mem_cons_self
    · by_cases hdefined : defined.contains m.implementation.name = true
      · rw [if_pos hdefined]
        exact ih hrest n hn hpath hnew
      · rw [if_neg hdefined]
        by_cases hsame : n.implementation.name = m.implementation.name
        · -- the node in front has the same implementation, so it asks for the same file
          have himplementation := eq_of_name_eq (hrest n hn) (hknown m List.mem_cons_self) hsame
          rw [himplementation] at hpath
          rw [hpath]
          exact List.mem_append_left _ List.mem_cons_self
        · refine List.mem_append_right _ (ih hrest n hn hpath fun hmem => ?_)
          rcases List.mem_cons.mp hmem with hmem | hmem
          · exact hsame hmem
          · exact hnew hmem

/-- Nothing else is asked for by the functions of nodes. -/
theorem exists_node_of_ask {path : Text} : ∀ {nodes : List ShaderNode} {defined : List Text},
    CodeStep.ask path ∈ functionSteps nodes defined →
      ∃ n ∈ nodes, n.implementation.sourcePath? = some path := by
  intro nodes
  induction nodes with
  | nil => intro defined h; cases h
  | cons m rest ih =>
    intro defined h
    have hrest : ∀ {defined}, CodeStep.ask path ∈ functionSteps rest defined →
        ∃ n ∈ m :: rest, n.implementation.sourcePath? = some path := fun h => by
      obtain ⟨n, hn, hpath⟩ := ih h
      exact ⟨n, List.mem_cons_of_mem m hn, hpath⟩
    rw [functionSteps] at h
    split at h
    · exact hrest h
    · rcases List.mem_append.mp h with h | h
      · refine ⟨m, List.mem_cons_self, ?_⟩
        cases hpath : m.implementation.sourcePath? with
        | none => rw [hpath] at h; cases h
        | some path' =>
          rw [hpath] at h
          rcases List.mem_cons.mp h with h | h
          · rw [CodeStep.ask.inj h]
          · cases List.mem_singleton.mp h
      · exact hrest h

/-- What is asked for in front of the root function. -/
theorem ask_cases {g : FragmentGenerator} {o : Options} {samples : SampleSetting} {w : Stage}
    {nodes : List ShaderNode} {path : Text} (h : CodeStep.ask path ∈ g.frontSteps o samples w nodes) :
    path = Path.mathematics ∨ path = g.lightingPath o ∨
      ∃ n ∈ nodes, n.implementation.sourcePath? = some path := by
  rcases List.mem_append.mp h with h | h
  · simp only [preambleSteps, List.mem_cons, CodeStep.ask.injEq, reduceCtorEq, false_or,
      List.not_mem_nil, or_false] at h
    exact h.imp_right Or.inl
  · exact Or.inr (Or.inr (exists_node_of_ask h))

/-! ## Files that can be expanded -/

/-- The files of nodes that are the same for every light interface. -/
def plainPaths : List Text :=
  Path.images ++ [Implementation.diffuseBsdf, .surfaceUnlit].filterMap Implementation.sourcePath?

/-- The files of lit surfaces: the function, and the lights that it asks for. -/
def surfacePaths (legacy : Bool) : List Text :=
  if legacy then [Path.surfaceRig, Path.lightRig] else [Path.surfaceHost, Path.hostLights]

/-- The files that can be expanded with a lighting file and a file that turns texture coordinates. -/
def filesWith (legacy : Bool) (lighting transform : Text) : List Text :=
  [Path.mathematics, lighting, transform] ++ surfacePaths legacy ++ plainPaths

/-- The files that can be expanded for some options. -/
def reachableFiles (g : FragmentGenerator) (o : Options) : List Text :=
  filesWith g.api.isLegacy (g.lightingPath o) (transformPath o)

/-- The lighting files of a light interface. -/
def lightingPaths (legacy : Bool) : List Text :=
  [Path.lightingSampled, if legacy then Path.lightingLegacy else Path.lightingPrefiltered, Path.lightingOff]

/-- The choices of files: they are files of the library, ask for each other or for the file transform, and
hold at most one of any rivals. -/
theorem filesWith_checked : ∀ legacy : Bool, ∀ lighting ∈ lightingPaths legacy,
    ∀ transform ∈ [Path.transform, Path.flippedTransform],
      filesWith legacy lighting transform ⊆ libraryPaths ∧
      (∀ file ∈ filesWith legacy lighting transform,
        requests file ⊆ Token.fileTransform :: surfacePaths legacy) ∧
      ∀ group ∈ rivals, ∀ file ∈ filesWith legacy lighting transform, file ∈ group →
        ∀ file' ∈ filesWith legacy lighting transform, file' ∈ group → file = file' := by
  decide +kernel

/-- The lighting code is one of the files of the interface to lights. -/
theorem lightingPath_mem (g : FragmentGenerator) (o : Options) :
    g.lightingPath o ∈ lightingPaths g.api.isLegacy := by
  rw [lightingPath, lightingPaths]
  by_cases hsampled : o.specular = .sampled
  · rw [if_pos hsampled]
    exact List.mem_cons_self
  rw [if_neg hsampled]
  by_cases hprefiltered : o.specular = .prefiltered
  · rw [if_pos hprefiltered]
    exact List.mem_cons_of_mem _ List.mem_cons_self
  · rw [if_neg hprefiltered]
    exact List.mem_cons_of_mem _ (List.mem_cons_of_mem _ List.mem_cons_self)

theorem transformPath_mem (o : Options) : transformPath o ∈ [Path.transform, Path.flippedTransform] := by
  rw [transformPath]
  split
  · exact List.mem_cons_of_mem _ List.mem_cons_self
  · exact List.mem_cons_self

theorem reachableFiles_subset (g : FragmentGenerator) (o : Options) : g.reachableFiles o ⊆ libraryPaths :=
  (filesWith_checked g.api.isLegacy _ (g.lightingPath_mem o) _ (transformPath_mem o)).1

/-- The file of whatever a registry finds. -/
theorem sourcePath_of_lookup {g : FragmentGenerator} {definition path : Text} {i : Implementation}
    (h : g.registry.lookup definition = some i) (hpath : i.sourcePath? = some path) :
    path ∈ surfacePaths g.api.isLegacy ++ plainPaths := by
  have hlegacy : ∀ e ∈ Registry.standard.entries, ∀ path ∈ e.2.sourcePath?,
      path ∈ surfacePaths true ++ plainPaths := by decide
  have hhost : ∀ e ∈ (Registry.standard.register (Implementation.surface .host).definition
      (.surface .host)).entries, ∀ path ∈ e.2.sourcePath?,
      path ∈ surfacePaths false ++ plainPaths := by decide
  obtain ⟨e, he, rfl⟩ := Registry.mem_of_lookup h
  rw [registry] at he
  cases hapi : g.api.isLegacy with
  | true => rw [hapi] at he; exact hlegacy e he path hpath
  | false => rw [hapi] at he; exact hhost e he path hpath

/-- The file transform becomes the file of the flip. -/
theorem replace_fileTransform (g : FragmentGenerator) (o : Options) :
    (g.finalTokens o).replace Token.fileTransform = transformPath o := by
  have hset : ∀ path ∈ [Path.transform, Path.flippedTransform],
      (g.tokens.set Token.fileTransform path).replace Token.fileTransform = path :=
    forall_tokens (P := fun ts => ∀ path ∈ [Path.transform, Path.flippedTransform],
      (ts.set Token.fileTransform path).replace Token.fileTransform = path) (by decide) (by decide) g
  exact hset _ (transformPath_mem o)

/-- A path of the library is kept by the tokens. -/
theorem replace_libraryPath (g : FragmentGenerator) (o : Options) {path : Text} (h : path ∈ libraryPaths) :
    (g.finalTokens o).replace path = path := by
  have hquiet : ∀ path ∈ libraryPaths, path.Quiet := by decide
  exact (g.finalTokens_hosted o).replace_of_quiet (hquiet path h)

/-- What a file that can be expanded asks for can be expanded. -/
theorem replace_request_mem (g : FragmentGenerator) (o : Options) {file path : Text}
    (hfile : file ∈ g.reachableFiles o) (hpath : path ∈ requests file) :
    (g.finalTokens o).replace path ∈ g.reachableFiles o := by
  obtain ⟨_, hrequests, _⟩ :=
    filesWith_checked g.api.isLegacy _ (g.lightingPath_mem o) _ (transformPath_mem o)
  rcases List.mem_cons.mp (hrequests file hfile hpath) with rfl | hsurface
  · rw [replace_fileTransform]
    simp [reachableFiles, filesWith]
  · have hmem : path ∈ g.reachableFiles o :=
      List.mem_append_left _ (List.mem_append_right _ hsurface)
    rw [g.replace_libraryPath o (g.reachableFiles_subset o hmem)]
    exact hmem

/-! ## Files that are expanded -/

namespace Written

variable {g : FragmentGenerator} {o : Options} {samples : SampleSetting} {gr : Graph} {v : Inventory}
  {e : Expansion} {w : Stage} {s : Shader}

/-- What stands in front of the root function asks for files that can be expanded. -/
theorem replace_ask_mem (h : g.Written o samples gr v e w s) {path : Text}
    (hask : CodeStep.ask path ∈ g.frontSteps o samples w s.graph.nodes) :
    (g.finalTokens o).replace path ∈ g.reachableFiles o := by
  have hmem : path ∈ g.reachableFiles o := by
    rw [reachableFiles, filesWith, List.append_assoc]
    rcases ask_cases hask with rfl | rfl | ⟨m, hm, hpath⟩
    · exact List.mem_append_left _ List.mem_cons_self
    · exact List.mem_append_left _ (List.mem_cons_of_mem _ List.mem_cons_self)
    · obtain ⟨n, _, hstands⟩ := exists_of_mem_right h.finished.created.nodes hm
      exact List.mem_append_right _ (sourcePath_of_lookup hstands.implementation hpath)
  rw [g.replace_libraryPath o (g.reachableFiles_subset o hmem)]
  exact hmem

/-- Only files that can be expanded are. -/
theorem files_subset (h : g.Written o samples gr v e w s) : e.files ⊆ g.reachableFiles o := by
  refine h.expands.files_subset ?_ fun path hask => h.replace_ask_mem hask
  intro file hfile source hread path hask
  refine g.replace_request_mem o hfile ?_
  rw [← SearchPath.standard_texts.2.2.1 file (g.reachableFiles_subset o hfile)]
  exact (SearchPath.mem_askedBy_iff hread).mpr hask

/-- The file of every node of the graph is expanded. -/
theorem sourcePath_mem_files (h : g.Written o samples gr v e w s) {n : Node} (hn : n ∈ gr.nodes)
    {i : Implementation} (hi : g.registry.lookup n.definition = some i) {path : Text}
    (hpath : i.sourcePath? = some path) : path ∈ e.files := by
  obtain ⟨m, hm, hstands⟩ := exists_of_mem_right h.finished.created.nodes.flip hn
  obtain rfl := Option.some.inj (hi.symm.trans hstands.implementation)
  have hknown := fun m hm => (known_of_standsFor h.finished.created.nodes m hm).1
  have hask := ask_mem_functionSteps hknown m hm hpath (List.not_mem_nil (a := m.implementation.name))
  have hquiet := Implementation.quiet_sourcePath (hknown m hm) hpath
  rcases h.expands.asked path (List.mem_append_right _ hask) with hnoted | hfile
  · cases hnoted
  · rwa [(g.finalTokens_hosted o).replace_of_quiet hquiet] at hfile

/-- What an expanded file asks for is expanded. -/
theorem replace_askedBy_mem_files (h : g.Written o samples gr v e w s) {file path : Text}
    (hfile : file ∈ e.files) (hpath : path ∈ SearchPath.standard.askedBy file) :
    (g.finalTokens o).replace path ∈ e.files := by
  obtain ⟨source, hread, hasked⟩ := h.expands.closed file hfile
  rcases hasked path ((SearchPath.mem_askedBy_iff hread).mp hpath) with hnoted | hmem
  · cases hnoted
  · exact hmem

/-- Rivals are not both expanded. -/
theorem eq_of_rivals (h : g.Written o samples gr v e w s) {group : List Text} (hgroup : group ∈ rivals)
    {file file' : Text} (hfile : file ∈ e.files) (hfile' : file' ∈ e.files) (hmem : file ∈ group)
    (hmem' : file' ∈ group) : file = file' :=
  (filesWith_checked g.api.isLegacy _ (g.lightingPath_mem o) _ (transformPath_mem o)).2.2 group hgroup
    file (h.files_subset hfile) hmem file' (h.files_subset hfile') hmem'

/-- No function is defined by two expanded files. -/
theorem signature_not_mem (h : g.Written o samples gr v e w s) {file file' : Text} (hfile : file ∈ e.files)
    (hfile' : file' ∈ e.files) (hne : file ≠ file') {f : Source.Signature}
    (hf : f ∈ SearchPath.standard.signaturesOf file) : f ∉ SearchPath.standard.signaturesOf file' := by
  have hlibrary := fun {path} hpath => g.reachableFiles_subset o (h.files_subset (a := path) hpath)
  intro hf'
  -- files with a function in common are rivals
  obtain ⟨group, hgroup, hmem, hmem'⟩ := (SearchPath.standard_texts.2.1 file (hlibrary hfile)
    file' (hlibrary hfile') hne).mp ⟨f, hf, hf'⟩
  exact hne (h.eq_of_rivals hgroup hfile hfile' hmem hmem')

end Written

/-- **Every file is expanded at most once, and all that is needed is**: the code of the pixel stage is an
expansion and the root function behind it.  No file is in the expansion twice.  The file of every node is in
it, and with each file all that the file asks for.  No function is defined by two of its files, so that of
rivals at most one is there. -/
theorem files_expanded_once {g : FragmentGenerator} {name : Text} {gr : Graph} {o : Options}
    {samples : SampleSetting} {s : Shader}
    (h : (g.generate name (some gr) (g.contextWith o samples)).1 = .ok s) :
    ∃ w ps e, g.writtenPixel name (some gr) (g.contextWith o samples) = .ok w ∧
      finish w (g.finalTokens o) = .ok ps ∧ s.stage? pixelStage = some ps ∧
      Expands .standard (g.finalTokens o) [] (g.frontSteps o samples w s.graph.nodes) e ∧
      w.code = e.code ++ (g.root o.transparency s.graph w.functionName w).text ∧
      e.files.Nodup ∧
      (∀ n ∈ gr.nodes, ∀ i ∈ g.registry.lookup n.definition, ∀ path ∈ i.sourcePath?, path ∈ e.files) ∧
      (∀ file ∈ e.files, ∀ path ∈ SearchPath.standard.askedBy file,
        (g.finalTokens o).replace path ∈ e.files) ∧
      (∀ file ∈ e.files, ∀ file' ∈ e.files, file ≠ file' → ∀ f ∈ SearchPath.standard.signaturesOf file,
        f ∉ SearchPath.standard.signaturesOf file') ∧
      ∀ group ∈ rivals, ∀ file ∈ e.files, ∀ file' ∈ e.files, file ∈ group → file' ∈ group →
        file = file' := by
  obtain ⟨_, hgr, v, e, w, hw, hwritten⟩ := written_of_generate h
  obtain rfl := Option.some.inj hgr
  exact ⟨w, _, e, hw, hwritten.finish_eq, hwritten.finished.pixel, hwritten.expands, hwritten.code,
    hwritten.expands.nodup.1,
    fun n hn i hi path hpath => hwritten.sourcePath_mem_files hn hi hpath,
    fun file hfile path hpath => hwritten.replace_askedBy_mem_files hfile hpath,
    fun file hfile file' hfile' hne f hf => hwritten.signature_not_mem hfile hfile' hne hf,
    fun group hgroup file hfile file' hfile' hmem hmem' =>
      hwritten.eq_of_rivals hgroup hfile hfile' hmem hmem'⟩

/-- A lit surface with a texture. -/
def texturedGraph : Graph :=
  ⟨"G", [],
    [⟨"tex", "ND_image_color3", .color3, [], []⟩,
      ⟨"bsdf", "ND_diffuse_bsdf", .bsdf, [⟨"color", .color3, none, "tex", [], []⟩], []⟩,
      ⟨"srf", "ND_surface", .surfaceShader, [⟨"bsdf", .bsdf, none, "bsdf", [], []⟩], []⟩],
    ⟨"out", .surfaceShader, "srf", [], [], none⟩⟩

theorem accepted_texturedGraph : texturedGraph.Accepted standard.registry :=
  ⟨by decide, by decide, fun _ => ⟨⟨"out", .surfaceShader⟩, by decide, rfl⟩⟩

/-- For the textured surface, the surface of the host is expanded with its lights, and the other is not. -/
theorem files_expanded_once_textured : ∃ s w e,
    (standard.generate "lit" (some texturedGraph) (standard.contextWith .standard .absent)).1 = .ok s ∧
      Expands .standard (standard.finalTokens .standard) []
        (standard.frontSteps .standard .absent w s.graph.nodes) e ∧ e.files.Nodup ∧
      Path.surfaceHost ∈ e.files ∧ Path.hostLights ∈ e.files ∧ Path.surfaceRig ∉ e.files := by
  obtain ⟨_, _, _, _, _, hs⟩ := exists_finalShader accepted_texturedGraph "lit" (o := .standard)
    (by decide) .absent
  obtain ⟨w, _, e, _, _, _, hexpands, _, hnodup, hnodes, hasked, _, hrivals⟩ := files_expanded_once hs
  have hsurface : Path.surfaceHost ∈ e.files :=
    hnodes ⟨"srf", "ND_surface", .surfaceShader, [⟨"bsdf", .bsdf, none, "bsdf", [], []⟩], []⟩
      (by decide) (.surface .host) (by decide) _ rfl
  have hlights : Path.hostLights ∈ e.files := by
    have hpath : Path.hostLights ∈ SearchPath.standard.askedBy Path.surfaceHost := by
      rw [SearchPath.standard_texts.2.2.1 _ (by decide)]
      decide
    have hlibrary : Path.hostLights ∈ libraryPaths := by decide
    exact standard.replace_libraryPath .standard hlibrary ▸ hasked _ hsurface _ hpath
  refine ⟨_, w, e, hs, hexpands, hnodup, hsurface, hlights, fun hrig => ?_⟩
  have heq := hrivals [Path.surfaceRig, Path.surfaceHost] List.mem_cons_self _ hrig _ hsurface
    (by decide) (by decide)
  exact absurd heq (by decide)

end FragmentGenerator
end ShadeGraph
