/-
  Includes one after the other, into one stage.

  1. Events account for what happens to paths (`Accounted`): a path is noted once, it is passed over only when
     it is noted, its file is begun if there is one, and what is gone through to the end was begun.  One run
     keeps such accounts, so calls one after the other do (`IncludeRuns.accounted`).
  2. Paths are noted as they are spelled, while a file is found by its cleaned path.  So a file is expanded as
     often as there are new spellings of it among the paths that are asked for (`expansions_eq_spellings`).
  3. A path is noted before its file is read, and stays so if that fails.  So a failure is told once: later the
     path is passed over, though its text is not there (`failed_path_passed_over`).
-/
import ShadeGraph.Proofs.IncludeRun

namespace ShadeGraph

open IncludeEvent

/-! ## Files and their spellings -/

namespace SearchPath

/-- **What is read depends on the cleaned path alone.** -/
theorem read_toOption {path file : Text} (h : Library.cleanPath path = .ok file) (libraries : SearchPath) :
    (libraries.read path).toOption = libraries.findSome? fun l => l.files.lookup file := by
  have hfrom : ∀ (libraries : List Library) (refused : List LibraryError),
      (readFrom path refused libraries).toOption = libraries.findSome? fun l => l.files.lookup file := by
    intro libraries
    induction libraries with
    | nil => intro refused; rfl
    | cons l libraries ih =>
      intro refused
      rw [List.findSome?_cons, readFrom, Library.read, h]
      cases hfile : l.files.lookup file with
      | some content => simp only [hfile]; rfl
      | none =>
        simp only [hfile]
        split
        · next hread => split at hread <;> cases hread
        · exact ih _
  rw [← hfrom libraries [], read]
  split
  · next hok => rw [hok]; rfl
  · next herror => rw [herror]; rfl
  · next _ herror => rw [herror]; rfl

end SearchPath

namespace Context

/-- The text that a path is expanded to. -/
def read? (c : Context) (path : Text) : Option Text :=
  c.includer.bind fun libraries => (libraries.read path).toOption

/-- The library file that a path is a spelling of. -/
def fileOf? (c : Context) (path : Text) : Option Text :=
  (c.read? path).bind fun _ => (Library.cleanPath path).toOption

variable {c : Context} {p q file : Text}

/-- The file of a path is the one that the path comes to when it is cleaned. -/
theorem cleanPath_of_fileOf? (h : c.fileOf? p = some file) : Library.cleanPath p = .ok file := by
  obtain ⟨_, _, hclean⟩ := Option.bind_eq_some_iff.mp h
  cases hpath : Library.cleanPath p with
  | error e => rw [hpath] at hclean; cases hclean
  | ok cleaned => rw [hpath] at hclean; exact congrArg Except.ok (Option.some.inj hclean)

/-- All spellings of a file have the same text. -/
theorem read?_eq_of_fileOf? (hp : c.fileOf? p = some file) (hq : c.fileOf? q = some file) :
    c.read? p = c.read? q := by
  rw [read?, read?]
  cases c.includer with
  | none => rfl
  | some libraries =>
    exact (SearchPath.read_toOption (cleanPath_of_fileOf? hp) libraries).trans
      (SearchPath.read_toOption (cleanPath_of_fileOf? hq) libraries).symm

end Context

/-! ## Accounts of a run -/

variable {c : Context} {task : IncludeTask} {path : Text} {calls known : List Text} {s t t' : Stage}
  {events later events' : List IncludeEvent} {r : IncludeResult}

/-- How events account for what happens to paths, if some are noted before. -/
structure IncludeEvent.Accounted (c : Context) (known : List Text) (events : List IncludeEvent) : Prop where
  nodup : (noted events).Nodup
  fresh : ∀ path ∈ noted events, path ∉ known
  passed : ∀ path, .passed path ∈ events → path ∈ known ∨ path ∈ noted events
  refused : ∀ path, .refused path ∈ events → c.read? path = none
  opened : ∀ path, .opened path ∈ events → (c.read? path).isSome = true
  closed : ∀ path, .closed path ∈ events → .opened path ∈ events

namespace IncludeEvent.Accounted

theorem nil : Accounted c known [] := by
  constructor <;> simp

/-- A path that is noted may be passed over. -/
theorem passing (h : path ∈ known) : Accounted c known [.passed path] := by
  constructor <;> simp [h]

/-- A path without a file is noted and refused. -/
theorem refusing (h : path ∉ known) (hread : c.read? path = none) : Accounted c known [.refused path] := by
  constructor <;> simp [h, hread]

/-- Later events find noted what the earlier ones have noted. -/
theorem append (h : Accounted c known events)
    (hlater : Accounted c ((noted events).reverse ++ known) later) : Accounted c known (events ++ later) := by
  -- What is noted later is new to all that was known then, the earlier events included.
  have hnew : ∀ path ∈ noted later, path ∉ noted events ∧ path ∉ known := by
    intro path hpath
    have hnot := hlater.fresh path hpath
    rw [List.mem_append, List.mem_reverse, not_or] at hnot
    exact hnot
  constructor
  case nodup =>
    rw [noted_append]
    refine List.nodup_append.mpr ⟨h.nodup, hlater.nodup, ?_⟩
    rintro path hearlier _ hpath rfl
    exact (hnew path hpath).1 hearlier
  case fresh =>
    intro path hpath
    rw [noted_append] at hpath
    rcases List.mem_append.mp hpath with hpath | hpath
    · exact h.fresh path hpath
    · exact (hnew path hpath).2
  case passed =>
    intro path hpath
    rw [noted_append, List.mem_append]
    rcases List.mem_append.mp hpath with hpath | hpath
    · exact (h.passed path hpath).imp_right Or.inl
    · have hfound := hlater.passed path hpath
      rw [List.mem_append, List.mem_reverse] at hfound
      tauto
  case refused =>
    intro path hpath
    exact (List.mem_append.mp hpath).elim (h.refused path) (hlater.refused path)
  case opened =>
    intro path hpath
    exact (List.mem_append.mp hpath).elim (h.opened path) (hlater.opened path)
  case closed =>
    intro path hpath
    rw [List.mem_append]
    exact (List.mem_append.mp hpath).imp (h.closed path) (hlater.closed path)

/-- A file may be begun whose path is new. -/
theorem begun (hnew : s.hasInclude path = false) (hread : (c.read? path).isSome = true)
    (h : Accounted c (s.addInclude path).includes events) :
    Accounted c s.includes (.opened path :: events) := by
  have hfirst : Accounted c s.includes [.opened path] := by
    constructor <;> simp [Stage.hasInclude_eq_false.mp hnew, hread]
  rw [Stage.addInclude_new hnew] at h
  exact hfirst.append h

/-- A file that was begun may be gone through to its end. -/
theorem close (h : Accounted c known events) (hopened : .opened path ∈ events) :
    Accounted c known (events ++ [.closed path]) := by
  have hnoted : noted (events ++ [.closed path]) = noted events := by simp
  constructor
  case nodup => rw [hnoted]; exact h.nodup
  case fresh => rw [hnoted]; exact h.fresh
  case passed => rw [hnoted]; simpa using h.passed
  case refused => simpa using h.refused
  case opened => simpa using h.opened
  case closed =>
    intro p hp
    rw [List.mem_append]
    rcases List.mem_append.mp hp with hp | hp
    · exact Or.inl (h.closed p hp)
    · obtain rfl : p = path := by simpa using hp
      exact Or.inl hopened

end IncludeEvent.Accounted

/-- **One run keeps account of paths**, by induction over the run: what is asked for inside a file finds the
paths that were noted so far. -/
theorem IncludeRun.accounted (h : IncludeRun c task s events r) :
    task.Lined → Accounted c s.includes events := by
  have hread : ∀ {libraries : SearchPath} {path : Text}, c.includer = some libraries →
      c.read? path = (libraries.read path).toOption := fun hlibraries => by
    rw [Context.read?, hlibraries, Option.bind_some]
  induction h with
  | passed hknown => intro _; exact .passing (Stage.hasInclude_iff.mp hknown)
  | noLibrary hnew hnone =>
    intro _
    exact .refusing (Stage.hasInclude_eq_false.mp hnew) (by rw [Context.read?, hnone, Option.bind_none])
  | unreadable hnew hlibraries herror =>
    intro _
    exact .refusing (Stage.hasInclude_eq_false.mp hnew) (by rw [hread hlibraries, herror]; rfl)
  | finished hnew hlibraries hok _ ih =>
    intro _
    have hbegun := Accounted.begun hnew (by rw [hread hlibraries, hok]; rfl)
      (ih (IncludeTask.lined_sourceLines _ _))
    exact hbegun.close List.mem_cons_self
  | brokenOff hnew hlibraries hok _ ih =>
    intro _
    exact .begun hnew (by rw [hread hlibraries, hok]; rfl) (ih (IncludeTask.lined_sourceLines _ _))
  | atEnd => intro _; exact .nil
  | @written file line rest s events r _ _ ih =>
    intro hlined
    exact ih fun l hl => hlined l (List.mem_cons_of_mem line hl)
  | stuck _ _ => intro _; exact .nil
  | @nested file line rest inner s events t later r _ _ hask _ ihask ihrest =>
    intro hlined
    refine (ihask trivial).append ?_
    -- The rest starts from what the nested file has left noted.
    rw [← (hask.after trivial).includes_eq]
    exact ihrest fun l hl => hlined l (List.mem_cons_of_mem line hl)
  | failed _ _ _ ih => intro _; exact ih trivial

/-! ## Calls one after the other -/

/-- `IncludeRuns c calls s events t`: paths that are asked for one after the other, whether they fail or not,
take the stage `s` to `t`. -/
inductive IncludeRuns (c : Context) : List Text → Stage → List IncludeEvent → Stage → Prop
  | done {s : Stage} : IncludeRuns c [] s [] s
  | call {path : Text} {calls : List Text} {s t : Stage} {events later : List IncludeEvent}
      {r : IncludeResult} (hrun : IncludeRun c (.ask path) s events r)
      (hrest : IncludeRuns c calls r.stage later t) : IncludeRuns c (path :: calls) s (events ++ later) t

/-- The stage after calls one after the other. -/
def Context.afterIncludes (c : Context) (calls : List Text) (s : Stage) : Stage :=
  calls.foldl (fun s path => IncludeResult.stage (c.expandInclude path s)) s

/-- Calls one after the other have a run, whatever they ask for. -/
theorem Context.afterIncludes_runs (c : Context) (calls : List Text) (s : Stage) :
    ∃ events, IncludeRuns c calls s events (c.afterIncludes calls s) := by
  induction calls generalizing s with
  | nil => exact ⟨[], .done⟩
  | cons path calls ih =>
    obtain ⟨events, hrun⟩ := c.expandInclude_run path s
    obtain ⟨later, hrest⟩ := ih (IncludeResult.stage (c.expandInclude path s))
    exact ⟨events ++ later, .call hrun hrest⟩

namespace IncludeRuns

/-- Calls determine the events and the stage that is left. -/
theorem unique (h : IncludeRuns c calls s events t) (h' : IncludeRuns c calls s events' t') :
    events = events' ∧ t = t' := by
  induction h generalizing events' t' with
  | done => cases h'; exact ⟨rfl, rfl⟩
  | call hrun _ ih =>
    cases h' with
    | call hrun' hrest' =>
      obtain ⟨rfl, rfl⟩ := hrun.unique hrun'
      obtain ⟨rfl, rfl⟩ := ih hrest'
      exact ⟨rfl, rfl⟩

/-- What calls do to a stage, from what each of them does. -/
theorem after (h : IncludeRuns c calls s events t) : s.After events t := by
  induction h with
  | @done s => exact Stage.After.refl s
  | call hrun _ ih => exact (hrun.after trivial).trans ih

/-- **Calls one after the other keep account of paths.** -/
theorem accounted (h : IncludeRuns c calls s events t) : Accounted c s.includes events := by
  induction h with
  | done => exact .nil
  | call hrun _ ih =>
    refine (hrun.accounted trivial).append ?_
    rw [← (hrun.after trivial).includes_eq]
    exact ih

end IncludeRuns

/-! ## How often a file is expanded -/

namespace IncludeEvent

/-- The path that an event says is asked for. -/
def asked? : IncludeEvent → Option Text
  | .passed path | .refused path | .opened path => some path
  | .closed _ => none

/-- The paths that are asked for, by calls and by include lines. -/
def asked (events : List IncludeEvent) : List Text := events.filterMap asked?

/-- The path whose file an event begins. -/
def opened? : IncludeEvent → Option Text
  | .opened path => some path
  | _ => none

/-- The paths whose files are expanded, in their order. -/
def openedPaths (events : List IncludeEvent) : List Text := events.filterMap opened?

theorem asked_append (events later : List IncludeEvent) :
    asked (events ++ later) = asked events ++ asked later := List.filterMap_append

theorem asked_opened (path : Text) (events : List IncludeEvent) :
    asked (.opened path :: events) = path :: asked events := rfl

theorem asked_closed (path : Text) : asked [.closed path] = [] := rfl

/-- A path that is asked for is passed over or noted. -/
theorem mem_asked : path ∈ asked events ↔ .passed path ∈ events ∨ path ∈ noted events := by
  rw [asked, List.mem_filterMap, mem_noted]
  constructor
  · rintro ⟨e, he, heq⟩
    cases e with
    | passed p => cases heq; exact Or.inl he
    | refused p => cases heq; exact Or.inr (Or.inl he)
    | opened p => cases heq; exact Or.inr (Or.inr he)
    | closed p => cases heq
  · rintro (h | h | h)
    · exact ⟨_, h, rfl⟩
    · exact ⟨_, h, rfl⟩
    · exact ⟨_, h, rfl⟩

/-- A path is expanded if its file is begun. -/
theorem mem_openedPaths : path ∈ openedPaths events ↔ .opened path ∈ events := by
  rw [openedPaths, List.mem_filterMap]
  constructor
  · rintro ⟨e, he, heq⟩
    cases e with
    | opened p => cases heq; exact he
    | passed p => cases heq
    | refused p => cases heq
    | closed p => cases heq
  · intro h
    exact ⟨_, h, rfl⟩

/-- Paths are noted when their files are begun, and some are noted without a file. -/
theorem openedPaths_sublist (events : List IncludeEvent) : (openedPaths events).Sublist (noted events) := by
  induction events with
  | nil => exact List.Sublist.refl _
  | cons e events ih =>
    cases e with
    | passed path => exact ih
    | refused path => exact ih.cons path
    | opened path => exact ih.cons_cons path
    | closed path => exact ih

end IncludeEvent

/-- The paths that a task asks for by itself. -/
def IncludeTask.asks (c : Context) : IncludeTask → List Text
  | .ask path => [c.resolve path]
  | .lines _ rest => (rest.filterMap Source.includePath?).map c.resolve

/-- What the lines of a library file ask for is known beforehand. -/
theorem IncludeTask.asks_sourceLines {libraries : SearchPath} {source : Text} (file : Text)
    (hlibraries : c.includer = some libraries) (hread : libraries.read path = .ok source) :
    ∀ p ∈ (IncludeTask.lines file (Context.sourceLines source)).asks c, p ∈ c.askable := by
  intro p hp
  obtain ⟨inner, hinner, rfl⟩ := List.mem_map.mp hp
  obtain ⟨line, hline, heq⟩ := List.mem_filterMap.mp hinner
  exact Context.resolve_mem_askable hlibraries hread hline heq

/-- The first line may be an include line. -/
theorem IncludeTask.asks_cons (c : Context) (file line : Text) (rest : List Text) :
    (IncludeTask.lines file (line :: rest)).asks c =
      ((Source.includePath? line).map c.resolve).toList ++ (IncludeTask.lines file rest).asks c := by
  rw [asks, asks, List.filterMap_cons]
  cases Source.includePath? line <;> rfl

/-- Whatever is asked for in a run, the task asks for it or an include line of the libraries. -/
theorem IncludeRun.asked_cases (h : IncludeRun c task s events r) :
    ∀ p ∈ asked events, p ∈ task.asks c ∨ p ∈ c.askable := by
  induction h with
  | passed _ => intro p hp; exact Or.inl hp
  | noLibrary _ _ => intro p hp; exact Or.inl hp
  | unreadable _ _ _ => intro p hp; exact Or.inl hp
  -- What the lines of a file ask for can be asked for by a file of the library.
  | finished _ hlibraries hread _ ih =>
    intro p hp
    rw [asked_opened, asked_append, asked_closed, List.append_nil] at hp
    rcases List.mem_cons.mp hp with rfl | hp
    · exact Or.inl List.mem_cons_self
    · exact Or.inr ((ih p hp).elim (IncludeTask.asks_sourceLines _ hlibraries hread p) id)
  | brokenOff _ hlibraries hread _ ih =>
    intro p hp
    rw [asked_opened] at hp
    rcases List.mem_cons.mp hp with rfl | hp
    · exact Or.inl List.mem_cons_self
    · exact Or.inr ((ih p hp).elim (IncludeTask.asks_sourceLines _ hlibraries hread p) id)
  | atEnd => intro p hp; cases hp
  | written _ _ ih =>
    intro p hp
    rw [IncludeTask.asks_cons]
    exact (ih p hp).imp_left (List.mem_append_right _)
  | stuck _ _ => intro p hp; cases hp
  | nested hinner _ _ _ ihask ihrest =>
    intro p hp
    rw [IncludeTask.asks_cons, hinner]
    rw [asked_append] at hp
    rcases List.mem_append.mp hp with hp | hp
    · exact (ihask p hp).imp_left (List.mem_append_left _)
    · exact (ihrest p hp).imp_left (List.mem_append_right _)
  | failed hinner _ _ ih =>
    intro p hp
    rw [IncludeTask.asks_cons, hinner]
    exact (ih p hp).imp_left (List.mem_append_left _)

namespace IncludeRuns

/-- What is asked for comes from a call, or from an include line of the libraries. -/
theorem asked_cases (h : IncludeRuns c calls s events t) :
    ∀ p ∈ asked events, p ∈ calls.map c.resolve ∨ p ∈ c.askable := by
  induction h with
  | done => intro p hp; cases hp
  | call hrun _ ih =>
    intro p hp
    rw [asked_append] at hp
    rw [List.map_cons, List.mem_cons]
    rcases List.mem_append.mp hp with hp | hp
    · exact (hrun.asked_cases p hp).imp_left fun h => Or.inl (List.mem_singleton.mp h)
    · exact (ih p hp).imp_left Or.inr

/-- What is called is asked for. -/
theorem resolve_mem_asked (h : IncludeRuns c calls s events t) :
    ∀ p ∈ calls, c.resolve p ∈ asked events := by
  induction h with
  | done => intro p hp; cases hp
  | call hrun _ ih =>
    intro p hp
    rw [asked_append, List.mem_append]
    rcases List.mem_cons.mp hp with rfl | hp
    · left
      cases hrun <;> exact List.mem_cons_self
    · exact Or.inr (ih p hp)

end IncludeRuns

namespace Context

/-- How often the text of a file is expanded. -/
def expansions (c : Context) (file : Text) (events : List IncludeEvent) : Nat :=
  (openedPaths events).countP fun path => c.fileOf? path = some file

/-- The spellings of a file, among the paths that are asked for, that were not noted before. -/
def newSpellings (c : Context) (known : List Text) (file : Text) (events : List IncludeEvent) : Finset Text :=
  (asked events).toFinset.filter fun path => known.contains path = false ∧ c.fileOf? path = some file

/-- A new spelling of a file: asked for, not noted before, and leading to the file. -/
theorem mem_newSpellings {file : Text} : path ∈ c.newSpellings known file events ↔
    path ∈ asked events ∧ path ∉ known ∧ c.fileOf? path = some file := by
  rw [newSpellings, Finset.mem_filter, List.mem_toFinset, Bool.eq_false_iff, Ne, List.contains_iff_mem]

/-- **A file is expanded once for each new spelling.** -/
theorem expansions_eq_card (h : Accounted c known events) (file : Text) :
    c.expansions file events = (c.newSpellings known file events).card := by
  have hnodup : (openedPaths events).Nodup := h.nodup.sublist (openedPaths_sublist events)
  rw [expansions, List.countP_eq_length_filter,
    ← List.toFinset_card_of_nodup (hnodup.filter _)]
  congr 1
  ext path
  simp only [mem_newSpellings, List.mem_toFinset, List.mem_filter, decide_eq_true_eq, mem_openedPaths,
    mem_asked]
  constructor
  · rintro ⟨hopened, hfile⟩
    have hnoted := mem_noted.mpr (Or.inr hopened)
    exact ⟨Or.inr hnoted, h.fresh path hnoted, hfile⟩
  · rintro ⟨hasked, hnew, hfile⟩
    -- a new path is noted when it is asked for, and one with a file is not refused
    have hnoted : path ∈ noted events := by
      rcases hasked with hpassed | hnoted
      · exact (h.passed path hpassed).resolve_left hnew
      · exact hnoted
    rcases mem_noted.mp hnoted with hrefused | hopened
    · rw [fileOf?, h.refused path hrefused] at hfile
      cases hfile
    · exact ⟨hopened, hfile⟩

/-- **Files are told apart by their spellings.**  Calls one after the other ask for their own paths and for
paths of include lines.  They expand the text of a file as often as there are spellings of it, not noted
before, among the paths that are asked for, although all of these have the same text.  So it is expanded at
most once exactly if they are all the same. -/
theorem expansions_eq_spellings (c : Context) (calls : List Text) (s : Stage) :
    (∃! events, IncludeRuns c calls s events (c.afterIncludes calls s)) ∧
    ∀ events, IncludeRuns c calls s events (c.afterIncludes calls s) →
      (∀ p ∈ calls, c.resolve p ∈ asked events) ∧
      (∀ p ∈ asked events, p ∈ calls.map c.resolve ∨ p ∈ c.askable) ∧
      ∀ file, (∀ p q, c.fileOf? p = some file → c.fileOf? q = some file → c.read? p = c.read? q) ∧
        c.expansions file events = (c.newSpellings s.includes file events).card ∧
        (c.expansions file events ≤ 1 ↔ ∀ p ∈ asked events, ∀ q ∈ asked events,
          p ∉ s.includes → q ∉ s.includes → c.fileOf? p = some file → c.fileOf? q = some file → p = q) := by
  obtain ⟨events, hruns⟩ := c.afterIncludes_runs calls s
  refine ⟨⟨events, hruns, fun _ h => (h.unique hruns).1⟩, fun events hruns =>
    ⟨hruns.resolve_mem_asked, hruns.asked_cases, fun file => ?_⟩⟩
  have hcount := expansions_eq_card hruns.accounted file
  refine ⟨fun p q => read?_eq_of_fileOf?, hcount, ?_⟩
  rw [hcount, Finset.card_le_one]
  simp only [mem_newSpellings]
  constructor
  · intro h p hp q hq hpnew hqnew hpfile hqfile
    exact h p ⟨hp, hpnew, hpfile⟩ q ⟨hq, hqnew, hqfile⟩
  · rintro h p ⟨hp, hpnew, hpfile⟩ q ⟨hq, hqnew, hqfile⟩
    exact h p hp q hq hpnew hqnew hpfile hqfile

/-- A library with a file that another one includes, and a token for it. -/
def spelled : Context :=
  { plain .standard with
    includer := some [.ofFiles [("a.glsl", "x\n"), ("b.glsl", "#include \"a.glsl\"\ny")]]
    tokens := some ⟨[("$file", "a.glsl")]⟩ }

/-- Asked for by one spelling, which the token and the include line come to as well, the file is expanded
once. -/
theorem expansions_eq_spellings_same : ∃ events,
    IncludeRuns spelled ["b.glsl", "$file", "a.glsl"] (Stage.empty "p") events
      (spelled.afterIncludes ["b.glsl", "$file", "a.glsl"] (Stage.empty "p")) ∧
    (spelled.afterIncludes ["b.glsl", "$file", "a.glsl"] (Stage.empty "p")).code = Text.ofString "x\ny\n" ∧
    spelled.expansions "a.glsl" events ≤ 1 := by
  obtain ⟨⟨events, hruns, _⟩, hevents⟩ :=
    spelled.expansions_eq_spellings ["b.glsl", "$file", "a.glsl"] (Stage.empty "p")
  obtain ⟨_, hasked, hcount⟩ := hevents events hruns
  have haskable : spelled.askable = {Text.ofString "a.glsl"} := by decide
  have hpaths : ∀ p ∈ asked events, p = Text.ofString "b.glsl" ∨ p = Text.ofString "a.glsl" := by
    intro p hp
    rcases hasked p hp with hp | hp
    · have hcalls : ∀ p ∈ [Text.ofString "b.glsl", "$file", "a.glsl"].map spelled.resolve,
          p = Text.ofString "b.glsl" ∨ p = Text.ofString "a.glsl" := by decide
      exact hcalls p hp
    · rw [haskable] at hp
      exact Or.inr (Finset.mem_singleton.mp hp)
  have hother : spelled.fileOf? "b.glsl" ≠ some (Text.ofString "a.glsl") := by decide
  refine ⟨events, hruns, by decide, (hcount "a.glsl").2.2.mpr fun p hp q hq _ _ hpfile hqfile => ?_⟩
  have honly : ∀ p ∈ asked events, spelled.fileOf? p = some (Text.ofString "a.glsl") →
      p = Text.ofString "a.glsl" := fun p hp hfile =>
    (hpaths p hp).resolve_left fun heq => hother (heq ▸ hfile)
  rw [honly p hp hpfile, honly q hq hqfile]

/-- Ways to spell the path of one file. -/
def spellings : List Text := ["a.glsl", "./a.glsl", "/a.glsl", "x/../a.glsl"]

/-- **One file, expanded four times**: by four spellings of its path. -/
theorem spellings_expanded : ∃ events,
    IncludeRuns spelled spellings (Stage.empty "p") events
      (spelled.afterIncludes spellings (Stage.empty "p")) ∧
    4 ≤ spelled.expansions "a.glsl" events ∧
    (spelled.afterIncludes spellings (Stage.empty "p")).code = Text.ofString "x\nx\nx\nx\n" := by
  obtain ⟨events, hruns⟩ := spelled.afterIncludes_runs spellings (Stage.empty "p")
  have hfiles : ∀ p ∈ spellings, spelled.resolve p = p ∧ spelled.fileOf? p = some (Text.ofString "a.glsl") := by
    decide
  have hsubset : spellings.toFinset ⊆ spelled.newSpellings [] "a.glsl" events := by
    intro p hp
    rw [List.mem_toFinset] at hp
    obtain ⟨hresolve, hfile⟩ := hfiles p hp
    exact mem_newSpellings.mpr ⟨hresolve ▸ hruns.resolve_mem_asked p hp, List.not_mem_nil, hfile⟩
  refine ⟨events, hruns, ?_, by decide⟩
  rw [expansions_eq_card hruns.accounted]
  exact Finset.card_le_card hsubset

end Context

/-! ## Paths that fail -/

namespace IncludeRun

/-- In a run that succeeds, every file that is noted is gone through to its end. -/
theorem closed_of_ok (h : IncludeRun c task s events r) :
    r = .ok t → ∀ p ∈ noted events, .closed p ∈ events := by
  induction h generalizing t with
  | passed _ => intro _ p hp; cases hp
  | noLibrary _ _ => intro heq; cases heq
  | unreadable _ _ _ => intro heq; cases heq
  | finished _ _ _ _ ih =>
    intro _ p hp
    rw [noted_opened, noted_append, noted_closed, noted_nil, List.append_nil] at hp
    refine List.mem_cons_of_mem _ (List.mem_append.mpr ?_)
    rcases List.mem_cons.mp hp with rfl | hp
    · exact Or.inr List.mem_cons_self
    · exact Or.inl (ih rfl p hp)
  | brokenOff _ _ _ _ _ => intro heq; cases heq
  | atEnd => intro _ p hp; cases hp
  | written _ _ ih => exact ih
  | stuck _ _ => intro heq; cases heq
  | nested _ _ _ _ ihask ihrest =>
    intro heq p hp
    rw [noted_append] at hp
    exact List.mem_append.mpr ((List.mem_append.mp hp).imp (ihask rfl p) (ihrest heq p))
  | failed _ _ _ _ => intro heq; cases heq

/-- An include that fails has noted its path, but has not gone through its file. -/
theorem unfinished {f : Failed EmitError Stage} (h : IncludeRun c (.ask path) s events (.error f)) :
    c.resolve path ∈ noted events ∧ .closed (c.resolve path) ∉ events := by
  cases h with
  | noLibrary _ _ => exact ⟨List.mem_cons_self, by simp⟩
  | unreadable _ _ _ => exact ⟨List.mem_cons_self, by simp⟩
  | brokenOff hnew _ _ hlines =>
    refine ⟨List.mem_cons_self, fun hclosed => ?_⟩
    -- inside its own file the path is noted, so that it cannot be begun there
    have haccounts := hlines.accounted (IncludeTask.lined_sourceLines _ _)
    have hopened := haccounts.closed _ ((List.mem_cons.mp hclosed).resolve_left (by simp))
    refine haccounts.fresh _ (mem_noted.mpr (Or.inr hopened)) ?_
    rw [Stage.addInclude_new hnew]
    exact List.mem_cons_self

end IncludeRun

namespace Context

/-- Calls keep what is noted. -/
theorem includes_subset_afterIncludes (c : Context) (calls : List Text) (s : Stage) :
    s.includes ⊆ (c.afterIncludes calls s).includes := by
  obtain ⟨_, hruns⟩ := c.afterIncludes_runs calls s
  exact hruns.after.includes_subset

/-- **A failure is told once.**  After an include, failed or not, and any calls behind it, the same path is
passed over: the include succeeds and changes nothing.  And only an include that succeeds has gone through to
the end of the file of every path that is noted now and was not before. -/
theorem failed_path_passed_over (c : Context) (path : Text) (s : Stage) :
    (∀ calls later, later = c.afterIncludes calls (IncludeResult.stage (c.expandInclude path s)) →
      c.expandInclude path later = .ok later) ∧
    (∃! events, IncludeRun c (.ask path) s events (c.expandInclude path s)) ∧
    ∀ events, IncludeRun c (.ask path) s events (c.expandInclude path s) →
      ((∀ p, (IncludeResult.stage (c.expandInclude path s)).hasInclude p = true →
          s.hasInclude p = true ∨ .closed p ∈ events) ↔
        ∃ t, c.expandInclude path s = .ok t) := by
  refine ⟨fun calls later hlater => ?_, ?_, fun events hrun => ?_⟩
  · have hnoted := c.includes_subset_afterIncludes calls _ (c.resolve_mem_includes path s)
    rw [← hlater] at hnoted
    exact expandInclude_noted (Stage.hasInclude_iff.mpr hnoted)
  · obtain ⟨events, hrun⟩ := c.expandInclude_run path s
    exact ⟨events, hrun, fun _ h => (h.unique hrun).1⟩
  · have hafter := hrun.after trivial
    simp only [Stage.hasInclude_iff, hafter.mem_includes]
    cases hresult : c.expandInclude path s with
    | ok t =>
      rw [hresult] at hrun
      exact ⟨fun _ => ⟨t, rfl⟩, fun _ p hp => hp.imp_right (hrun.closed_of_ok rfl p)⟩
    | error f =>
      rw [hresult] at hrun
      -- The file in which expansion stopped is noted and was not finished.
      obtain ⟨hnoted, hnot⟩ := hrun.unfinished
      refine ⟨fun h => ?_, fun ⟨_, heq⟩ => by cases heq⟩
      rcases h _ (Or.inr hnoted) with hknown | hclosed
      · exact absurd hknown ((hrun.accounted trivial).fresh _ hnoted)
      · exact absurd hclosed hnot

/-- A library with a file that includes another, which is missing. -/
def lacking : Context :=
  { plain .standard with
    includer := some [.ofFiles [("a.glsl", "x\n#include \"b.glsl\"\ny\n")]], tokens := none }

/-- The first include breaks off after one line, the second succeeds, and the last line is never written. -/
theorem failed_path_passed_over_nested : ∃ f,
    lacking.expandInclude "a.glsl" (Stage.empty "p") = .error f ∧ f.left.code = Text.ofString "x\n" ∧
    lacking.expandInclude "a.glsl" f.left = .ok f.left ∧
    ∃ events, IncludeRun lacking (.ask "a.glsl") (Stage.empty "p") events (.error f) ∧
      ∃ p, f.left.hasInclude p = true ∧ .closed p ∉ events := by
  obtain ⟨f, hf, hcode⟩ : ∃ f, lacking.expandInclude "a.glsl" (Stage.empty "p") = .error f ∧
      f.left.code = Text.ofString "x\n" := ⟨_, rfl, by decide⟩
  obtain ⟨hlater, ⟨events, hrun, _⟩, hfinished⟩ := lacking.failed_path_passed_over "a.glsl" (Stage.empty "p")
  have hiff := hfinished events hrun
  rw [hf] at hlater hrun hiff
  refine ⟨f, hf, hcode, hlater [] f.left rfl, events, hrun, ?_⟩
  by_contra hall
  push Not at hall
  obtain ⟨t, ht⟩ := hiff.mp fun p hp => Or.inr (hall p hp)
  cases ht

/-- **A missing file is missed once**: asked for again, it is taken as included. -/
theorem missing_file_passed_over : ∃ f,
    lacking.expandInclude "b.glsl" (Stage.empty "p") = .error f ∧
      lacking.expandInclude "b.glsl" f.left = .ok f.left ∧ f.left.hasInclude "b.glsl" = true ∧
      f.left.code = [] :=
  ⟨_, rfl, rfl, by decide, rfl⟩

end Context
end ShadeGraph
