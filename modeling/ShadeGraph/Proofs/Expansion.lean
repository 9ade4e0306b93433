/-
  What an include becomes: a tree of the files that were expanded.

  1. Code is written in steps: a text, or a path that is asked for.  A library file is a list of such steps, one
     for each line.
  2. An `Expansion` is what steps have become.  It holds the texts that were written and, where a file was
     expanded, what its own steps have become.  Its `code` and its `files` are read off the tree.
  3. `Expands` says which tree belongs to which steps: a path that is noted is passed over, any other is noted
     and its file is gone through.  Running the steps on a stage follows it (`Context.expandWithin_performs`).
  4. The crux is how the noted paths are handed on.  They go into a file, and what the file adds comes out
     with them (`Expands.append`).  So no file is expanded twice (`Expands.nodup`), and every path that is
     asked for, by a step or by a file, is expanded or was noted before (`Expands.asked`, `Expands.closed`).
-/
import ShadeGraph.Proofs.Include

namespace ShadeGraph

/-! ## Steps and trees -/

/-- A step of writing code. -/
inductive CodeStep where
  /-- A text is written. -/
  | write (text : Text)
  /-- A library file is asked for. -/
  | ask (path : Text)
  deriving DecidableEq

/-- What is done with one line of a library file. -/
def CodeStep.ofLine (line : Text) : CodeStep :=
  match Source.includePath? line with
  | none => .write (line ++ [10])
  | some inner => .ask inner

/-- A library file as steps. -/
def Source.steps (source : Text) : List CodeStep := (Context.sourceLines source).map CodeStep.ofLine

/-- What steps have become: texts, and files with what their own steps have become. -/
inductive Expansion where
  | done
  | text (t : Text) (rest : Expansion)
  | file (path : Text) (content rest : Expansion)

namespace Expansion

/-- The code that was written. -/
def code : Expansion → Text
  | done => []
  | text t rest => t ++ rest.code
  | file _ content rest => content.code ++ rest.code

/-- The files that were expanded, in the order in which their code starts. -/
def files : Expansion → List Text
  | done => []
  | text _ rest => rest.files
  | file path content rest => path :: (content.files ++ rest.files)

/-- One expansion behind another. -/
def append : Expansion → Expansion → Expansion
  | done, e => e
  | text t rest, e => text t (rest.append e)
  | file path content rest, e => file path content (rest.append e)

theorem code_append (d e : Expansion) : (d.append e).code = d.code ++ e.code := by
  induction d with
  | done => rfl
  | text t rest ih => rw [append, code, ih, code, List.append_assoc]
  | file path content rest _ ih => rw [append, code, ih, code, List.append_assoc]

theorem files_append (d e : Expansion) : (d.append e).files = d.files ++ e.files := by
  induction d with
  | done => rfl
  | text t rest ih => rw [append, files, ih, files]
  | file path content rest _ ih => rw [append, files, ih, files, List.cons_append, List.append_assoc]

variable {noted : List Text} {path x : Text} {content rest : Expansion}

/-- What was noted when a file was gone through, or is in the file, is noted before it or in the tree. -/
theorem found_of_content (h : x ∈ path :: noted ∨ x ∈ content.files) :
    x ∈ noted ∨ x ∈ (file path content rest).files := by
  rw [List.mem_cons] at h
  rw [files, List.mem_cons, List.mem_append]
  tauto

/-- The same for what was noted behind the file, or comes later. -/
theorem found_of_rest (h : x ∈ content.files.reverse ++ path :: noted ∨ x ∈ rest.files) :
    x ∈ noted ∨ x ∈ (file path content rest).files := by
  rw [List.mem_append, List.mem_reverse, List.mem_cons] at h
  rw [files, List.mem_cons, List.mem_append]
  tauto

end Expansion

/-! ## Which tree belongs to which steps -/

/-- `Expands libraries ts noted steps e`: with the paths in `noted` noted already, the steps become `e`. -/
inductive Expands (libraries : SearchPath) (ts : TokenTable) :
    (noted : List Text) → List CodeStep → Expansion → Prop
  | done {noted} : Expands libraries ts noted [] .done
  | write {noted t steps e} (hrest : Expands libraries ts noted steps e) :
      Expands libraries ts noted (.write t :: steps) (.text t e)
  | known {noted path steps e} (hknown : ts.replace path ∈ noted)
      (hrest : Expands libraries ts noted steps e) :
      Expands libraries ts noted (.ask path :: steps) e
  | file {noted path source steps content e} (hnew : ts.replace path ∉ noted)
      (hread : libraries.read (ts.replace path) = .ok source)
      (hcontent : Expands libraries ts (ts.replace path :: noted) (Source.steps source) content)
      (hrest : Expands libraries ts (content.files.reverse ++ ts.replace path :: noted) steps e) :
      Expands libraries ts noted (.ask path :: steps) (.file (ts.replace path) content e)

namespace Expands

variable {libraries : SearchPath} {ts : TokenTable} {noted : List Text} {steps : List CodeStep}
  {e : Expansion}

/-- Steps behind others find noted what those have noted. -/
theorem append {before : List CodeStep} {d : Expansion} (hbefore : Expands libraries ts noted before d)
    (hsteps : Expands libraries ts (d.files.reverse ++ noted) steps e) :
    Expands libraries ts noted (before ++ steps) (d.append e) := by
  induction hbefore with
  | done => exact hsteps
  | write _ ih => exact .write (ih hsteps)
  | known hknown _ ih => exact .known hknown (ih hsteps)
  | file hnew hread hcontent _ _ ih =>
    refine .file hnew hread hcontent (ih ?_)
    simpa [Expansion.files] using hsteps

/-- **No file is expanded twice**, and none that was noted before. -/
theorem nodup (h : Expands libraries ts noted steps e) :
    e.files.Nodup ∧ ∀ path ∈ e.files, path ∉ noted := by
  induction h with
  | done => exact ⟨List.nodup_nil, fun path hpath => absurd hpath List.not_mem_nil⟩
  | write _ ih => exact ih
  | known _ _ ih => exact ih
  | file hnew _ _ _ ihcontent ihrest =>
    obtain ⟨hcontent, hinner⟩ := ihcontent
    obtain ⟨hrest, hlater⟩ := ihrest
    -- what comes later was not noted, and by then the file and all that it includes are
    have hfresh : ∀ {path}, path ∈ Expansion.files _ →
        path ∉ Expansion.files _ ∧ path ≠ ts.replace _ ∧ path ∉ _ := fun {path} hpath => by
      have hnot := hlater path hpath
      rw [List.mem_append, List.mem_reverse, List.mem_cons, not_or, not_or] at hnot
      exact hnot
    constructor
    · refine List.nodup_cons.mpr ⟨fun hmem => ?_, ?_⟩
      · rcases List.mem_append.mp hmem with hmem | hmem
        · exact hinner _ hmem List.mem_cons_self
        · exact (hfresh hmem).2.1 rfl
      · refine List.nodup_append.mpr ⟨hcontent, hrest, ?_⟩
        rintro path hfirst _ hsecond rfl
        exact (hfresh hsecond).1 hfirst
    · intro path hpath
      rcases List.mem_cons.mp hpath with rfl | hpath
      · exact hnew
      · rcases List.mem_append.mp hpath with hpath | hpath
        · exact fun hmem => hinner path hpath (List.mem_cons_of_mem _ hmem)
        · exact (hfresh hpath).2.2

/-- Every path that is asked for is expanded, or was noted before. -/
theorem asked (h : Expands libraries ts noted steps e) :
    ∀ path, CodeStep.ask path ∈ steps → ts.replace path ∈ noted ∨ ts.replace path ∈ e.files := by
  induction h with
  | done => intro path hpath; cases hpath
  | write _ ih =>
    intro path hpath
    rcases List.mem_cons.mp hpath with hpath | hpath
    · cases hpath
    · exact ih path hpath
  | known hknown _ ih =>
    intro path hpath
    rcases List.mem_cons.mp hpath with hpath | hpath
    · cases hpath
      exact Or.inl hknown
    · exact ih path hpath
  | file _ _ _ _ _ ih =>
    intro path hpath
    rcases List.mem_cons.mp hpath with hpath | hpath
    · cases hpath
      exact Or.inr List.mem_cons_self
    · exact Expansion.found_of_rest (ih path hpath)

/-- The same holds of every path that an expanded file asks for. -/
theorem closed (h : Expands libraries ts noted steps e) :
    ∀ file ∈ e.files, ∃ source, libraries.read file = .ok source ∧
      ∀ path, CodeStep.ask path ∈ Source.steps source →
        ts.replace path ∈ noted ∨ ts.replace path ∈ e.files := by
  induction h with
  | done => intro file hfile; cases hfile
  | write _ ih => exact ih
  | known _ _ ih => exact ih
  | @file noted path source steps content e hnew hread hcontent hrest ihcontent ihrest =>
    intro file hfile
    rcases List.mem_cons.mp hfile with rfl | hfile
    · exact ⟨source, hread, fun inner hinner => Expansion.found_of_content (hcontent.asked inner hinner)⟩
    · rcases List.mem_append.mp hfile with hfile | hfile
      · obtain ⟨source', hread', hasked⟩ := ihcontent file hfile
        exact ⟨source', hread', fun inner hinner => Expansion.found_of_content (hasked inner hinner)⟩
      · obtain ⟨source', hread', hasked⟩ := ihrest file hfile
        exact ⟨source', hread', fun inner hinner => Expansion.found_of_rest (hasked inner hinner)⟩

/-- Every expanded file is asked for, by a step or by an expanded file. -/
theorem origin (h : Expands libraries ts noted steps e) : ∀ file ∈ e.files,
    (∃ path, CodeStep.ask path ∈ steps ∧ ts.replace path = file) ∨
      ∃ parent ∈ e.files, ∃ source, libraries.read parent = .ok source ∧
        ∃ path, CodeStep.ask path ∈ Source.steps source ∧ ts.replace path = file := by
  induction h with
  | done => intro file hfile; cases hfile
  | write _ ih =>
    intro file hfile
    exact (ih file hfile).imp_left fun ⟨path, hask, heq⟩ => ⟨path, List.mem_cons_of_mem _ hask, heq⟩
  | known _ _ ih =>
    intro file hfile
    exact (ih file hfile).imp_left fun ⟨path, hask, heq⟩ => ⟨path, List.mem_cons_of_mem _ hask, heq⟩
  | @file noted path source steps content e hnew hread hcontent hrest ihcontent ihrest =>
    intro file hfile
    rcases List.mem_cons.mp hfile with rfl | hfile
    · exact Or.inl ⟨path, List.mem_cons_self, rfl⟩
    · rcases List.mem_append.mp hfile with hfile | hfile
      · right
        rcases ihcontent file hfile with hown | ⟨parent, hparent, hasks⟩
        · exact ⟨ts.replace path, List.mem_cons_self, source, hread, hown⟩
        · exact ⟨parent, List.mem_cons_of_mem _ (List.mem_append_left _ hparent), hasks⟩
      · rcases ihrest file hfile with ⟨inner, hask, heq⟩ | ⟨parent, hparent, hasks⟩
        · exact Or.inl ⟨inner, List.mem_cons_of_mem _ hask, heq⟩
        · exact Or.inr ⟨parent, List.mem_cons_of_mem _ (List.mem_append_right _ hparent), hasks⟩

/-- Files stay within a list of paths that holds what the steps ask for and what its own files ask for. -/
theorem files_subset {paths : List Text}
    (hpaths : ∀ file ∈ paths, ∀ source, libraries.read file = .ok source →
      ∀ path, CodeStep.ask path ∈ Source.steps source → ts.replace path ∈ paths)
    (h : Expands libraries ts noted steps e)
    (hsteps : ∀ path, CodeStep.ask path ∈ steps → ts.replace path ∈ paths) : e.files ⊆ paths := by
  induction h with
  | done => exact List.nil_subset _
  | write _ ih => exact ih fun path hpath => hsteps path (List.mem_cons_of_mem _ hpath)
  | known _ _ ih => exact ih fun path hpath => hsteps path (List.mem_cons_of_mem _ hpath)
  | file _ hread _ _ ihcontent ihrest =>
    have hpath := hsteps _ List.mem_cons_self
    refine List.cons_subset.mpr ⟨hpath, List.append_subset.mpr ⟨?_, ?_⟩⟩
    · exact ihcontent (hpaths _ hpath _ hread)
    · exact ihrest fun path hpath => hsteps path (List.mem_cons_of_mem _ hpath)

end Expands

/-! ## Running steps on a stage -/

namespace Stage

/-- The stage with an expansion written and its files noted. -/
def expanded (s : Stage) (e : Expansion) : Stage :=
  { s with code := s.code ++ e.code, includes := e.files.reverse ++ s.includes }

/-- Two expansions one after the other are written as one. -/
theorem expanded_append (s : Stage) (d e : Expansion) :
    (s.expanded d).expanded e = s.expanded (d.append e) := by
  simp only [expanded, Expansion.code_append, Expansion.files_append, List.reverse_append, List.append_assoc]

/-- `t` is what `s` becomes by some steps. -/
def Performs (libraries : SearchPath) (ts : TokenTable) (steps : List CodeStep) (s t : Stage) : Prop :=
  ∃ e, Expands libraries ts s.includes steps e ∧ t = s.expanded e

namespace Performs

variable {libraries : SearchPath} {ts : TokenTable} {steps more : List CodeStep} {s t u : Stage}

theorem refl (s : Stage) : Performs libraries ts [] s s :=
  ⟨.done, .done, by rw [expanded, Expansion.code, List.append_nil]; rfl⟩

theorem write (s : Stage) (t : Text) : Performs libraries ts [.write t] s (s.write t) :=
  ⟨.text t .done, .write .done, by rw [expanded, Expansion.code, Expansion.code, List.append_nil]; rfl⟩

/-- Steps one after the other are performed as one list. -/
theorem trans (hst : Performs libraries ts steps s t) (htu : Performs libraries ts more t u) :
    Performs libraries ts (steps ++ more) s u := by
  obtain ⟨d, hd, rfl⟩ := hst
  obtain ⟨e, he, rfl⟩ := htu
  exact ⟨d.append e, hd.append he, expanded_append s d e⟩

theorem depth (h : Performs libraries ts steps s t) : t.depth = s.depth := by
  obtain ⟨_, _, rfl⟩ := h
  rfl

theorem scopes (h : Performs libraries ts steps s t) : t.scopes = s.scopes := by
  obtain ⟨_, _, rfl⟩ := h
  rfl

end Performs
end Stage

namespace Context

variable {c : Context} {libraries : SearchPath} {ts : TokenTable}

/-- The lines of a file are gone through in steps, if nested files are. -/
theorem expandLines_performs {fuel : Nat} {resolved : Text}
    (hfuel : ∀ {path : Text} {s t : Stage}, c.expandWithin fuel path s = .ok t →
      Stage.Performs libraries ts [.ask path] s t) : ∀ (lines : List Text) {s t : Stage},
    lines.foldlM (c.expandLine (c.expandWithin fuel) resolved) s = .ok t →
      Stage.Performs libraries ts (lines.map CodeStep.ofLine) s t := by
  intro lines
  induction lines with
  | nil =>
    intro s t h
    exact Except.ok.inj h ▸ Stage.Performs.refl s
  | cons line rest ih =>
    intro s t h
    rw [List.foldlM_cons] at h
    obtain ⟨u, hline, hrest⟩ := bind_eq_ok.mp h
    show Stage.Performs libraries ts ([CodeStep.ofLine line] ++ rest.map CodeStep.ofLine) s t
    refine Stage.Performs.trans ?_ (ih hrest)
    rw [CodeStep.ofLine]
    rcases expandLine_cases hline with ⟨hplain, rfl⟩ | ⟨inner, hinner, hnested⟩
    · have hwritten : (s.write line).newline = s.write (line ++ [10]) := by
        rw [Stage.newline, Stage.write, Stage.write, Stage.write, List.append_assoc]
      rw [hplain, hwritten]
      exact Stage.Performs.write s _
    · rw [hinner]
      exact hfuel hnested

/-- **An include that succeeds asks for its path**, and nothing else happens to the stage. -/
theorem expandWithin_performs (hlibraries : c.includer = some libraries) (htokens : c.tokens = some ts) :
    ∀ {fuel : Nat} {path : Text} {s t : Stage}, c.expandWithin fuel path s = .ok t →
      Stage.Performs libraries ts [.ask path] s t := by
  intro fuel
  induction fuel with
  | zero => intro path s t h; cases h
  | succ fuel ih =>
    intro path s t h
    have hresolve := resolve_of_tokens htokens path
    rcases expandWithin_cases hlibraries h with ⟨hknown, rfl⟩ | ⟨source, hnew, hread, hlines⟩
    · refine ⟨.done, .known ?_ .done, ?_⟩
      · rw [← hresolve]
        exact List.contains_iff_mem.mp hknown
      · rw [Stage.expanded, Expansion.code, List.append_nil]
        rfl
    · have hnot : ts.replace path ∉ s.includes := by
        rw [← hresolve, ← List.contains_iff_mem]
        exact Bool.eq_false_iff.mp hnew
      -- The file is noted before its lines are expanded, so it cannot hold itself.
      obtain ⟨content, hcontent, rfl⟩ := expandLines_performs ih (sourceLines source) hlines
      have hadd : s.addInclude (c.resolve path) = { s with includes := ts.replace path :: s.includes } := by
        rw [Stage.addInclude, if_neg (by rw [hnew]; exact Bool.false_ne_true), hresolve]
      rw [hadd] at hcontent ⊢
      rw [hresolve] at hread
      refine ⟨.file (ts.replace path) content .done, .file hnot hread hcontent .done, ?_⟩
      simp [Stage.expanded, Expansion.code, Expansion.files]

end Context
end ShadeGraph
