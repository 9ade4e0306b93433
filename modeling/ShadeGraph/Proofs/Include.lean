/-
  Expanding includes, from any stage.

  1. What an expansion does to a stage is written lines of library files, and paths that are noted
     (`Stage.Expanded`).  One line is written or includes a file (`expandLine_cases`), and a file is passed over
     or gone through line by line (`expandWithin_cases`), so all nested files keep to that
     (`expandWithin_expanded`).
  2. Whether an expansion succeeds does not depend on the stage: `SearchPath.expandable` follows the include
     lines alone.  What is expandable with some depth is so with any larger one, and a stage in which some
     paths are noted already only saves work (`expandWithin_succeeds`).
  3. The built-in library is checked once: every path that the generator or an implementation asks for is
     expandable, every line that can be written is tidy, and every implementation finds its function.
-/
import ShadeGraph.Proofs.Brackets
import ShadeGraph.Proofs.Computation
import ShadeGraph.Proofs.SpelledLibrary

namespace ShadeGraph

/-! ## Lines of library files -/

namespace SearchPath

/-- The lines of the library files that are written as they are. -/
def codeLines (libraries : SearchPath) : List Text :=
  libraries.flatMap fun l => l.files.flatMap fun f =>
    (Context.sourceLines f.2).filter fun line => (Source.includePath? line).isNone

/-- What is found is in one of the files. -/
theorem exists_file_of_lookup {files : List (Text × Text)} {path source : Text}
    (h : files.lookup path = some source) : ∃ f ∈ files, f.2 = source := by
  induction files with
  | nil => cases h
  | cons f files ih =>
    rw [List.lookup_cons] at h
    split at h
    · exact ⟨f, List.mem_cons_self, Option.some.inj h⟩
    · obtain ⟨f', hf', heq⟩ := ih h
      exact ⟨f', List.mem_cons_of_mem f hf', heq⟩

/-- Libraries are tried in order, and what is read is in a file of one of them. -/
theorem exists_file_of_readFrom {path source : Text} :
    ∀ {libraries : List Library} {refused : List LibraryError},
      readFrom path refused libraries = .ok source →
      ∃ l ∈ libraries, ∃ f ∈ l.files, f.2 = source := by
  intro libraries
  induction libraries with
  | nil => intro refused h; cases h
  | cons l libraries ih =>
    intro refused h
    rw [readFrom] at h
    cases hread : l.read path with
    | ok content =>
      rw [hread] at h
      obtain rfl : content = source := Except.ok.inj h
      refine ⟨l, List.mem_cons_self, ?_⟩
      rw [Library.read] at hread
      split at hread
      · cases hread
      · split at hread
        · next hlookup => exact Except.ok.inj hread ▸ exists_file_of_lookup hlookup
        · split at hread <;> cases hread
    | error e =>
      rw [hread] at h
      obtain ⟨l', hl', hf⟩ := ih h
      exact ⟨l', List.mem_cons_of_mem l hl', hf⟩

/-- What is read is in a file. -/
theorem exists_file_of_read {libraries : SearchPath} {path source : Text}
    (h : libraries.read path = .ok source) : ∃ l ∈ libraries, ∃ f ∈ l.files, f.2 = source := by
  rw [SearchPath.read] at h
  split at h
  · next hfrom => exact Except.ok.inj h ▸ exists_file_of_readFrom hfrom
  · cases h
  · cases h

/-- A line of a file that was read is an include line or one that is written as it is. -/
theorem mem_codeLines {libraries : SearchPath} {path source line : Text}
    (hread : libraries.read path = .ok source) (hline : line ∈ Context.sourceLines source)
    (hplain : Source.includePath? line = none) : line ∈ libraries.codeLines := by
  obtain ⟨l, hl, f, hf, rfl⟩ := exists_file_of_read hread
  refine List.mem_flatMap.mpr ⟨l, hl, List.mem_flatMap.mpr ⟨f, hf, List.mem_filter.mpr ⟨hline, ?_⟩⟩⟩
  rw [hplain]; rfl

end SearchPath

/-! ## What an expansion does to a stage -/

namespace Stage

/-- `t` is `s` with lines written and include paths noted, and nothing else is changed. -/
def Expanded (lines : List Text) (s t : Stage) : Prop :=
  ∃ (written includes : List Text), (∀ l ∈ written, l ∈ lines) ∧
    t = { s with code := s.code ++ written.flatMap (· ++ [10]), includes := includes }

theorem Expanded.refl (lines : List Text) (s : Stage) : Expanded lines s s :=
  ⟨[], s.includes, fun _ h => absurd h List.not_mem_nil, by rw [List.flatMap_nil, List.append_nil]⟩

/-- Expanding twice writes both texts. -/
theorem Expanded.trans {lines : List Text} {s t u : Stage} (hst : Expanded lines s t)
    (htu : Expanded lines t u) : Expanded lines s u := by
  obtain ⟨first, inc, hfirst, rfl⟩ := hst
  obtain ⟨second, inc', hsecond, rfl⟩ := htu
  refine ⟨first ++ second, inc', fun l hl => ?_, ?_⟩
  · rcases List.mem_append.mp hl with hl | hl
    · exact hfirst l hl
    · exact hsecond l hl
  · simp only [List.flatMap_append, List.append_assoc]

/-- Noting a path writes nothing. -/
theorem expanded_addInclude (lines : List Text) (s : Stage) (path : Text) :
    Expanded lines s (s.addInclude path) := by
  rw [addInclude]
  split
  · exact Expanded.refl lines s
  · exact ⟨[], path :: s.includes, fun _ h => absurd h List.not_mem_nil,
      by rw [List.flatMap_nil, List.append_nil]⟩

theorem expanded_line {lines : List Text} {line : Text} (h : line ∈ lines) (s : Stage) :
    Expanded lines s (s.write line).newline :=
  ⟨[line], s.includes, fun l hl => List.mem_singleton.mp hl ▸ h,
    by simp only [write, newline, List.flatMap_cons, List.flatMap_nil, List.append_nil,
      List.append_assoc]⟩

/-- A run of steps that each expand a stage expands it. -/
theorem expanded_foldlM {lines : List Text} {ε : Type} {f : Stage → Text → Except ε Stage} :
    ∀ {xs : List Text}, (∀ x ∈ xs, ∀ s t, f s x = .ok t → Expanded lines s t) →
      ∀ {s t : Stage}, xs.foldlM f s = .ok t → Expanded lines s t := by
  intro xs
  induction xs with
  | nil => intro _ s t h; exact Except.ok.inj h ▸ Expanded.refl lines s
  | cons x xs ih =>
    intro hstep s t h
    rw [List.foldlM_cons] at h
    obtain ⟨u, hx, hrest⟩ := bind_eq_ok.mp h
    exact (hstep x List.mem_cons_self s u hx).trans
      (ih (fun y hy => hstep y (List.mem_cons_of_mem x hy)) hrest)

/-- A run of steps that succeed from every stage succeeds. -/
theorem foldlM_succeeds {ε : Type} {f : Stage → Text → Except ε Stage} :
    ∀ {xs : List Text}, (∀ x ∈ xs, ∀ s, ∃ t, f s x = .ok t) → ∀ s, ∃ t, xs.foldlM f s = .ok t := by
  intro xs
  induction xs with
  | nil => intro _ s; exact ⟨s, rfl⟩
  | cons x xs ih =>
    intro hstep s
    obtain ⟨s', hs'⟩ := hstep x List.mem_cons_self s
    obtain ⟨t, ht⟩ := ih (fun y hy => hstep y (List.mem_cons_of_mem x hy)) s'
    exact ⟨t, by rw [List.foldlM_cons, hs']; exact ht⟩

end Stage

namespace Context

variable {c : Context} {libraries : SearchPath}

/-- A path that is not noted yet is noted, and the lines of its file are gone through. -/
theorem expandWithin_new {fuel : Nat} {path source : Text} {stage : Stage}
    (hlibraries : c.includer = some libraries) (hnew : stage.hasInclude (c.resolve path) = false)
    (hread : libraries.read (c.resolve path) = .ok source) :
    c.expandWithin (fuel + 1) path stage =
      (sourceLines source).foldlM (c.expandLine (c.expandWithin fuel) (c.resolve path))
        (stage.addInclude (c.resolve path)) := by
  rw [expandWithin]
  simp only [hnew, hlibraries, hread]
  rfl

/-- What one line does, if it succeeds: it is written, or the file that it includes is expanded. -/
theorem expandLine_cases {expand : Text → Stage → Except (Failed EmitError Stage) Stage} {resolved line : Text}
    {s t : Stage} (h : c.expandLine expand resolved s line = .ok t) :
    (Source.includePath? line = none ∧ t = (s.write line).newline) ∨
      ∃ inner, Source.includePath? line = some inner ∧ expand inner s = .ok t := by
  rw [expandLine] at h
  split at h
  · next hplain => exact Or.inl ⟨hplain, (Except.ok.inj h).symm⟩
  · next inner hinner =>
    split at h
    · cases h
    · split at h
      · next hexpand => exact Or.inr ⟨inner, hinner, hexpand.trans h⟩
      · cases h

/-- What an include does, if it succeeds: the file was noted before, or it is noted and its lines are gone
through. -/
theorem expandWithin_cases {fuel : Nat} {path : Text} {s t : Stage} (hlibraries : c.includer = some libraries)
    (h : c.expandWithin (fuel + 1) path s = .ok t) :
    (s.hasInclude (c.resolve path) = true ∧ t = s) ∨
      ∃ source, s.hasInclude (c.resolve path) = false ∧ libraries.read (c.resolve path) = .ok source ∧
        (sourceLines source).foldlM (c.expandLine (c.expandWithin fuel) (c.resolve path))
          (s.addInclude (c.resolve path)) = .ok t := by
  cases hnew : s.hasInclude (c.resolve path) with
  | true =>
    rw [expandWithin, if_pos hnew] at h
    exact Or.inl ⟨rfl, (Except.ok.inj h).symm⟩
  | false =>
    cases hread : libraries.read (c.resolve path) with
    | error e =>
      rw [expandWithin, if_neg (by rw [hnew]; exact Bool.false_ne_true)] at h
      simp only [hlibraries, hread] at h
      cases h
    | ok source => exact Or.inr ⟨source, rfl, rfl, expandWithin_new hlibraries hnew hread ▸ h⟩

/-- **An expansion writes lines of the libraries** and changes nothing else but the noted paths. -/
theorem expandWithin_expanded (hlibraries : c.includer = some libraries) :
    ∀ {fuel : Nat} {path : Text} {s t : Stage},
      c.expandWithin fuel path s = .ok t → Stage.Expanded libraries.codeLines s t := by
  intro fuel
  induction fuel with
  | zero => intro path s t h; cases h
  | succ fuel ih =>
    intro path s t h
    rcases expandWithin_cases hlibraries h with ⟨_, rfl⟩ | ⟨source, _, hread, hlines⟩
    · exact Stage.Expanded.refl _ t
    · refine (Stage.expanded_addInclude _ s _).trans (Stage.expanded_foldlM (fun line hline u v hstep => ?_) hlines)
      rcases expandLine_cases hstep with ⟨hplain, rfl⟩ | ⟨inner, _, hinner⟩
      · exact Stage.expanded_line (SearchPath.mem_codeLines hread hline hplain) u
      · exact ih hinner

end Context

/-! ## When an expansion succeeds -/

namespace SearchPath

/-- Whether a path and all that its file includes can be read, with at most `fuel` files in a chain. -/
def expandable (libraries : SearchPath) (ts : TokenTable) : (fuel : Nat) → (path : Text) → Bool
  | 0, _ => false
  | fuel + 1, path =>
    match libraries.read (ts.replace path) with
    | .error _ => false
    | .ok source =>
      (Context.sourceLines source).all fun line =>
        match Source.includePath? line with
        | none => true
        | some inner => expandable libraries ts fuel inner

/-- A path can be expanded within a depth if there is a file of it, and what its include lines ask for can be
expanded within one less. -/
theorem expandable_succ {libraries : SearchPath} {ts : TokenTable} {fuel : Nat} {path : Text} :
    libraries.expandable ts (fuel + 1) path = true ↔
      ∃ source, libraries.read (ts.replace path) = .ok source ∧
        ∀ line ∈ Context.sourceLines source, ∀ inner, Source.includePath? line = some inner →
          libraries.expandable ts fuel inner = true := by
  rw [expandable]
  cases hread : libraries.read (ts.replace path) with
  | error e => exact ⟨fun h => (by cases h), fun ⟨_, h, _⟩ => (by cases h)⟩
  | ok source =>
    simp only [List.all_eq_true, Except.ok.injEq, exists_eq_left']
    refine forall₂_congr fun line _ => ?_
    cases Source.includePath? line with
    | none => exact ⟨fun _ _ h => (by cases h), fun _ => rfl⟩
    | some inner => exact ⟨fun h _ heq => Option.some.inj heq ▸ h, fun h => h inner rfl⟩

/-- A larger depth allows as much. -/
theorem expandable_mono {libraries : SearchPath} {ts : TokenTable} (extra : Nat) :
    ∀ {fuel : Nat} {path : Text}, libraries.expandable ts fuel path = true →
      libraries.expandable ts (fuel + extra) path = true := by
  intro fuel
  induction fuel with
  | zero => intro path h; cases h
  | succ fuel ih =>
    intro path h
    obtain ⟨source, hread, hlines⟩ := expandable_succ.mp h
    rw [Nat.succ_add]
    exact expandable_succ.mpr
      ⟨source, hread, fun line hline inner hinner => ih (hlines line hline inner hinner)⟩

/-- The paths that a file includes; none for a path without a file. -/
def includesOf? (libraries : SearchPath) (path : Text) : Option (List Text) :=
  match libraries.read path with
  | .error _ => none
  | .ok source => some ((Context.sourceLines source).filterMap Source.includePath?)

/-- A file is expandable if the files that it includes are there and include none. -/
theorem expandable_two {libraries : SearchPath} {ts : TokenTable} {path : Text} {inner : List Text}
    (hpath : libraries.includesOf? (ts.replace path) = some inner)
    (hinner : ∀ p ∈ inner, libraries.includesOf? (ts.replace p) = some []) :
    libraries.expandable ts 2 path = true := by
  have hfile : ∀ {p : Text} {ps : List Text}, libraries.includesOf? p = some ps →
      ∃ source, libraries.read p = .ok source ∧
        ∀ line ∈ Context.sourceLines source, ∀ q, Source.includePath? line = some q → q ∈ ps := by
    intro p ps h
    rw [includesOf?] at h
    split at h
    · cases h
    · next source hread =>
      obtain rfl := Option.some.inj h
      exact ⟨source, hread, fun line hline q hq => List.mem_filterMap.mpr ⟨line, hline, hq⟩⟩
  obtain ⟨source, hread, hlines⟩ := hfile hpath
  refine expandable_succ.mpr ⟨source, hread, fun line hline q hq => ?_⟩
  obtain ⟨leaf, hleaf, hnone⟩ := hfile (hinner q (hlines line hline q hq))
  exact expandable_succ.mpr
    ⟨leaf, hleaf, fun line' hline' r hr => absurd (hnone line' hline' r hr) List.not_mem_nil⟩

end SearchPath

namespace Context

variable {c : Context} {libraries : SearchPath} {ts : TokenTable}

theorem resolve_of_tokens (h : c.tokens = some ts) (t : Text) : c.resolve t = ts.replace t := by
  rw [resolve, h]

/-- **An expandable path is expanded from every stage**, whatever paths are noted in it. -/
theorem expandWithin_succeeds (hlibraries : c.includer = some libraries) (htokens : c.tokens = some ts)
    (hdeclarations : c.declarations.isNone = false) :
    ∀ {fuel : Nat} {path : Text}, libraries.expandable ts fuel path = true →
      ∀ s, ∃ t, c.expandWithin fuel path s = .ok t := by
  intro fuel
  induction fuel with
  | zero => intro path h; cases h
  | succ fuel ih =>
    intro path h s
    obtain ⟨source, hread, hlines⟩ := SearchPath.expandable_succ.mp h
    rw [← resolve_of_tokens htokens] at hread
    cases hnew : s.hasInclude (c.resolve path) with
    | true => exact ⟨s, by rw [expandWithin, if_pos hnew]⟩
    | false =>
      rw [expandWithin_new hlibraries hnew hread]
      refine Stage.foldlM_succeeds (fun line hline u => ?_) _
      rw [expandLine]
      split
      · exact ⟨_, rfl⟩
      · next inner hinner =>
        obtain ⟨t, ht⟩ := ih (hlines line hline inner hinner) u
        rw [if_neg (by rw [hdeclarations]; exact Bool.false_ne_true), ht]
        exact ⟨t, rfl⟩

/-- The depth that is allowed is more than what an expandable path of the built-in library needs. -/
theorem expandInclude_succeeds (hlibraries : c.includer = some libraries) (htokens : c.tokens = some ts)
    (hdeclarations : c.declarations.isNone = false) {path : Text}
    (h : libraries.expandable ts 2 path = true) (s : Stage) :
    ∃ t, c.expandInclude path s = .ok t ∧ Stage.Expanded libraries.codeLines s t := by
  have hdepth : c.includeDepth = 2 + libraries.includePaths.length := by
    rw [includeDepth, hlibraries, Nat.add_comm]; rfl
  obtain ⟨t, ht⟩ := expandWithin_succeeds hlibraries htokens hdeclarations
    (SearchPath.expandable_mono libraries.includePaths.length h) s
  rw [← hdepth] at ht
  exact ⟨t, ht, expandWithin_expanded hlibraries ht⟩

end Context

/-! ## The built-in library -/

/-- The implementations that the registry of a generator can hold. -/
def Implementation.known : List Implementation := Registry.standardImplementations ++ [.surface .host]

/-- The function that a library file defines; empty for a file without one. -/
def Implementation.functionIn (path : Text) : Text :=
  match SearchPath.standard.read path with
  | .error _ => []
  | .ok source => (Source.functionName source).toOption.getD []

/-- The files that the generator includes by itself. -/
def FragmentGenerator.sharedPaths : List Text :=
  [Path.mathematics, Path.lightingSampled, Path.lightingLegacy, Path.lightingPrefiltered,
    Path.lightingOff]

namespace FragmentGenerator.Path

def lightRig : Text := "pbrlib/genglsl/ogsxml/mx_light_rig_maya.glsl"
def hostLights : Text := "pbrlib/genglsl/ogsxml/mx_lights_maya.glsl"

end FragmentGenerator.Path

/-- The files that others include. -/
def FragmentGenerator.innerPaths : List Text := [Path.lightRig, Path.hostLights]

open FragmentGenerator in
/-- **What the built-in library holds**: its lines are tidy, the file of every known implementation defines a
function, and files include the inner ones at most, which include nothing.  All of it is read in one
evaluation, so that the bytes of the library are spelled once. -/
theorem SearchPath.standard_checked :
    (∀ l ∈ standard.codeLines, l.tidy = true) ∧
    (∀ i ∈ Implementation.known, ∀ path ∈ i.sourcePath?,
      ((standard.read path).toOption.bind fun source => (Source.functionName source).toOption).isSome ∧
      (Implementation.functionIn path).Calm ∧
      ∃ inner ∈ standard.includesOf? path, inner ⊆ Token.fileTransform :: innerPaths) ∧
    (∀ path ∈ sharedPaths, ∃ inner ∈ standard.includesOf? path, inner ⊆ innerPaths) ∧
    ∀ path ∈ Path.flippedTransform :: Path.transform :: innerPaths, standard.includesOf? path = some [] := by
  simp only [Implementation.functionIn, standard_eq_spelled]
  decide +kernel

theorem SearchPath.tidy_codeLines : ∀ l ∈ standard.codeLines, l.tidy = true := standard_checked.1

namespace Implementation

/-- The file of every known implementation is there and defines a function. -/
theorem read_sourcePath {i : Implementation} (hi : i ∈ known) {path : Text}
    (hpath : i.sourcePath? = some path) : ∃ source, SearchPath.standard.read path = .ok source ∧
      Source.functionName source = .ok (functionIn path) := by
  have hfile := (SearchPath.standard_checked.2.1 i hi path hpath).1
  rw [functionIn]
  cases hread : SearchPath.standard.read path with
  | error e => rw [hread] at hfile; cases hfile
  | ok source =>
    rw [hread] at hfile
    refine ⟨source, rfl, ?_⟩
    cases hname : Source.functionName source with
    | error e => simp only [Except.toOption, Option.bind_some, hname] at hfile; cases hfile
    | ok name => simp only [hname]; rfl

/-- The paths of library files have no tokens in them. -/
theorem quiet_sourcePath {i : Implementation} (hi : i ∈ known) {path : Text}
    (hpath : i.sourcePath? = some path) : path.Quiet := by
  have hall : ∀ i ∈ known, ∀ path ∈ i.sourcePath?, path.Quiet := by decide
  exact hall i hi path hpath

/-- The functions of library files have calm names. -/
theorem calm_functionIn {i : Implementation} (hi : i ∈ known) {path : Text}
    (hpath : i.sourcePath? = some path) : (functionIn path).Calm :=
  (SearchPath.standard_checked.2.1 i hi path hpath).2.1

end Implementation

namespace Registry

theorem mem_of_lookup {es : List (Text × Implementation)} {definition : Text} {i : Implementation}
    (h : es.lookup definition = some i) : ∃ e ∈ es, e.2 = i := by
  induction es with
  | nil => cases h
  | cons e es ih =>
    rw [List.lookup_cons] at h
    split at h
    · exact ⟨e, List.mem_cons_self, Option.some.inj h⟩
    · obtain ⟨e', he', heq⟩ := ih h
      exact ⟨e', List.mem_cons_of_mem e he', heq⟩

/-- Registering keeps all other entries. -/
theorem mem_setEntry {definition : Text} {i : Implementation} {e : Text × Implementation} :
    ∀ {es : List (Text × Implementation)}, e ∈ setEntry definition i es →
      e = (definition, i) ∨ e ∈ es := by
  intro es
  induction es with
  | nil => intro h; exact Or.inl (List.mem_singleton.mp h)
  | cons e' es ih =>
    intro h
    rw [setEntry] at h
    split at h
    · rcases List.mem_cons.mp h with h | h
      · exact Or.inl h
      · exact Or.inr (List.mem_cons_of_mem e' h)
    · rcases List.mem_cons.mp h with rfl | h
      · exact Or.inr List.mem_cons_self
      · exact (ih h).imp_right (List.mem_cons_of_mem e')

end Registry

namespace FragmentGenerator

/-- Whatever a generator finds in its registry is a known implementation. -/
theorem known_of_lookup {g : FragmentGenerator} {definition : Text} {i : Implementation}
    (h : g.registry.lookup definition = some i) : i ∈ Implementation.known := by
  have hstandard : ∀ e ∈ Registry.standard.entries, e.2 ∈ Implementation.known := by
    intro e he
    obtain ⟨j, hj, rfl⟩ := List.mem_map.mp he
    exact List.mem_append_left _ hj
  obtain ⟨e, he, rfl⟩ := Registry.mem_of_lookup h
  rw [registry] at he
  split at he
  · exact hstandard e he
  · rcases Registry.mem_setEntry he with rfl | he
    · exact List.mem_append_right _ (List.mem_singleton_self _)
    · exact hstandard e he

/-- The paths that the generator includes by itself have no tokens in them. -/
theorem quiet_sharedPaths : ∀ path ∈ sharedPaths ++ innerPaths, path.Quiet := by decide

/-- **What the generator includes by itself can be expanded**: two levels are enough. -/
theorem expandable_shared (g : FragmentGenerator) {path : Text} (hpath : path ∈ sharedPaths) :
    SearchPath.standard.expandable g.tokens 2 path = true := by
  have hkept : ∀ p ∈ sharedPaths ++ innerPaths, g.tokens.replace p = p := fun p hp =>
    g.tokens_hosted.replace_of_quiet (quiet_sharedPaths p hp)
  obtain ⟨inner, hinner, hsub⟩ := SearchPath.standard_checked.2.2.1 path hpath
  rw [← hkept path (List.mem_append_left _ hpath)] at hinner
  refine SearchPath.expandable_two hinner fun p hp => ?_
  rw [hkept p (List.mem_append_right _ (hsub hp))]
  exact SearchPath.standard_checked.2.2.2 p (List.mem_cons_of_mem _ (List.mem_cons_of_mem _ (hsub hp)))

/-- **So can the file of every known implementation**: its include lines ask for inner files, or for the
transformation of coordinates. -/
theorem expandable_sourcePath (g : FragmentGenerator) (o : Options) {i : Implementation}
    (hi : i ∈ Implementation.known) {path : Text} (hpath : i.sourcePath? = some path) :
    SearchPath.standard.expandable (g.finalTokens o) 2 path = true := by
  have hosted := g.finalTokens_hosted o
  obtain ⟨_, _, inner, hinner, hsub⟩ := SearchPath.standard_checked.2.1 i hi path hpath
  rw [← hosted.replace_of_quiet (Implementation.quiet_sourcePath hi hpath)] at hinner
  refine SearchPath.expandable_two hinner fun p hp => SearchPath.standard_checked.2.2.2 _ ?_
  rcases List.mem_cons.mp (hsub hp) with rfl | hp
  · exact forall_finalTokens (P := fun ts => ts.replace Token.fileTransform ∈ _)
      (by decide) (by decide) g o
  · rw [hosted.replace_of_quiet (quiet_sharedPaths p (List.mem_append_right _ hp))]
    exact List.mem_cons_of_mem _ (List.mem_cons_of_mem _ hp)

end FragmentGenerator
end ShadeGraph
