/-
  Includes, run to their end without a bound on their depth.

  1. `IncludeRun` is what an include does, event by event, for includes that succeed and for includes that
     fail.  Nothing in it bounds how deep files are nested, so a run is there only if the recursion ends.
  2. A run writes lines that are no include lines, notes the new paths that are asked for, and does nothing
     else (`IncludeRun.after`).
  3. The crux is that there is a run from every stage.  Files can only be asked for by the include lines of
     the libraries, which are finitely many, and a nested file takes one of them away: it was not noted and
     now it is (`room_addInclude`).  So the depth that `expandInclude` allows is never used up
     (`expandInclude_run`).
  4. A run is unique, so `expandInclude` gives what the unbounded recursion gives.
-/
import Mathlib.Data.Finset.Card
import ShadeGraph.Proofs.Include
import ShadeGraph.Proofs.Pieces

namespace ShadeGraph

/-! ## Runs -/

/-- What happens to a path that is asked for. -/
inductive IncludeEvent where
  /-- It is noted already. -/
  | passed (path : Text)
  /-- It is noted, but there is no file of it. -/
  | refused (path : Text)
  /-- It is noted, and its file is begun. -/
  | opened (path : Text)
  /-- Its file is gone through to the end. -/
  | closed (path : Text)
  deriving DecidableEq

/-- What is to be done. -/
inductive IncludeTask where
  /-- A path is asked for. -/
  | ask (path : Text)
  /-- Lines are left of a file. -/
  | lines (file : Text) (rest : List Text)

/-- What comes of an include. -/
abbrev IncludeResult := Except (Failed EmitError Stage) Stage

/-- The stage that is left, by an include that fails as well. -/
def IncludeResult.stage : IncludeResult → Stage
  | .ok t => t
  | .error f => f.left

open Context in
/-- `IncludeRun c task s events r`: done on the stage `s`, the task ends with `r`, after the events. -/
inductive IncludeRun (c : Context) : IncludeTask → Stage → List IncludeEvent → IncludeResult → Prop
  | passed {path s} (hknown : s.hasInclude (c.resolve path) = true) :
      IncludeRun c (.ask path) s [.passed (c.resolve path)] (.ok s)
  | noLibrary {path s} (hnew : s.hasInclude (c.resolve path) = false) (hnone : c.includer = none) :
      IncludeRun c (.ask path) s [.refused (c.resolve path)]
        (.error ⟨.noIncluder (c.resolve path), s.addInclude (c.resolve path)⟩)
  | unreadable {path s libraries e} (hnew : s.hasInclude (c.resolve path) = false)
      (hlibraries : c.includer = some libraries) (hread : libraries.read (c.resolve path) = .error e) :
      IncludeRun c (.ask path) s [.refused (c.resolve path)]
        (.error ⟨.unreadable e, s.addInclude (c.resolve path)⟩)
  | finished {path s libraries source events t} (hnew : s.hasInclude (c.resolve path) = false)
      (hlibraries : c.includer = some libraries) (hread : libraries.read (c.resolve path) = .ok source)
      (hlines : IncludeRun c (.lines (c.resolve path) (sourceLines source))
        (s.addInclude (c.resolve path)) events (.ok t)) :
      IncludeRun c (.ask path) s
        (.opened (c.resolve path) :: (events ++ [.closed (c.resolve path)])) (.ok t)
  | brokenOff {path s libraries source events f} (hnew : s.hasInclude (c.resolve path) = false)
      (hlibraries : c.includer = some libraries) (hread : libraries.read (c.resolve path) = .ok source)
      (hlines : IncludeRun c (.lines (c.resolve path) (sourceLines source))
        (s.addInclude (c.resolve path)) events (.error f)) :
      IncludeRun c (.ask path) s (.opened (c.resolve path) :: events) (.error f)
  | atEnd {file s} : IncludeRun c (.lines file []) s [] (.ok s)
  | written {file line rest s events r} (hplain : Source.includePath? line = none)
      (hrest : IncludeRun c (.lines file rest) (s.write line).newline events r) :
      IncludeRun c (.lines file (line :: rest)) s events r
  | stuck {file line rest inner s} (hinner : Source.includePath? line = some inner)
      (hmissing : c.declarations.isNone = true) :
      IncludeRun c (.lines file (line :: rest)) s [] (.error ⟨.missingPart, s⟩)
  | nested {file line rest inner s events t later r} (hinner : Source.includePath? line = some inner)
      (hpart : c.declarations.isNone = false) (hask : IncludeRun c (.ask inner) s events (.ok t))
      (hrest : IncludeRun c (.lines file rest) t later r) :
      IncludeRun c (.lines file (line :: rest)) s (events ++ later) r
  | failed {file line rest inner s events f} (hinner : Source.includePath? line = some inner)
      (hpart : c.declarations.isNone = false) (hask : IncludeRun c (.ask inner) s events (.error f)) :
      IncludeRun c (.lines file (line :: rest)) s events (.error ⟨.nested file f.error, f.left⟩)

variable {c : Context} {task : IncludeTask} {path : Text} {s t u : Stage}
  {events later events' : List IncludeEvent} {r r' : IncludeResult}

/-- **A run is unique**: the conditions of any two rules for one task exclude each other. -/
theorem IncludeRun.unique (h : IncludeRun c task s events r) (h' : IncludeRun c task s events' r') :
    events = events' ∧ r = r' := by
  induction h generalizing events' r' with
  | passed hknown => cases h' <;> grind
  | noLibrary hnew hnone => cases h' <;> grind
  | unreadable hnew hlibraries hread => cases h' <;> grind
  | finished hnew hlibraries hread _ ih => cases h' <;> grind
  | brokenOff hnew hlibraries hread _ ih => cases h' <;> grind
  | atEnd => cases h'; exact ⟨rfl, rfl⟩
  | written hplain _ ih => cases h' <;> grind
  | stuck hinner hmissing => cases h' <;> grind
  | nested hinner hpart _ _ ihask ihrest => cases h' <;> grind
  | failed hinner hpart _ ih => cases h' <;> grind

/-! ## Lines of a file -/

/-- The lines that are gone through are lines of the text. -/
theorem Context.sourceLines_subset (source : Text) : sourceLines source ⊆ Text.lines source := by
  -- a line feed at the end only adds an empty line
  induction source using List.reverseRecOn with
  | nil => exact List.Subset.refl _
  | append_singleton front b ih =>
    rw [sourceLines, Text.dropTrailing, List.reverse_append, List.reverse_singleton, List.singleton_append,
      List.dropWhile_cons]
    by_cases hb : b = 10
    · rw [if_pos (beq_iff_eq.mpr hb), hb, Text.lines, Text.lines, Text.splitOn_append]
      exact List.subset_append_of_subset_left _ ih
    · rw [if_neg (by rw [beq_iff_eq]; exact hb), List.reverse_cons, List.reverse_reverse]
      exact List.Subset.refl _

/-! ## What a run does to a stage -/

namespace IncludeEvent

/-- The path that an event notes. -/
def noted? : IncludeEvent → Option Text
  | .refused path | .opened path => some path
  | .passed _ | .closed _ => none

/-- The paths that are noted by events, in their order. -/
def noted (events : List IncludeEvent) : List Text := events.filterMap noted?

@[simp] theorem noted_nil : noted [] = [] := rfl

@[simp] theorem noted_append (events later : List IncludeEvent) :
    noted (events ++ later) = noted events ++ noted later := List.filterMap_append

@[simp] theorem noted_passed (path : Text) (events : List IncludeEvent) :
    noted (.passed path :: events) = noted events := rfl

@[simp] theorem noted_refused (path : Text) (events : List IncludeEvent) :
    noted (.refused path :: events) = path :: noted events := rfl

@[simp] theorem noted_opened (path : Text) (events : List IncludeEvent) :
    noted (.opened path :: events) = path :: noted events := rfl

@[simp] theorem noted_closed (path : Text) (events : List IncludeEvent) :
    noted (.closed path :: events) = noted events := rfl

/-- A path is noted when it is refused, and when its file is begun. -/
theorem mem_noted : path ∈ noted events ↔ .refused path ∈ events ∨ .opened path ∈ events := by
  rw [noted, List.mem_filterMap]
  constructor
  · rintro ⟨e, he, heq⟩
    cases e with
    | refused p => cases heq; exact Or.inl he
    | opened p => cases heq; exact Or.inr he
    | passed p => cases heq
    | closed p => cases heq
  · rintro (h | h)
    · exact ⟨_, h, rfl⟩
    · exact ⟨_, h, rfl⟩

end IncludeEvent

open IncludeEvent

namespace Stage

/-- A path that is not noted is put in front of those that are. -/
theorem addInclude_new (h : s.hasInclude path = false) :
    s.addInclude path = { s with includes := path :: s.includes } := by
  rw [addInclude, if_neg (by rw [h]; exact Bool.false_ne_true)]

theorem hasInclude_iff : s.hasInclude path = true ↔ path ∈ s.includes := List.contains_iff_mem

theorem hasInclude_eq_false : s.hasInclude path = false ↔ path ∉ s.includes := by
  rw [← hasInclude_iff, Bool.eq_false_iff]

/-- `t` is `s` after some events: lines are written that are no include lines, paths are noted, and nothing
else is changed. -/
def After (s : Stage) (events : List IncludeEvent) (t : Stage) : Prop :=
  ∃ written : List Text, (∀ line ∈ written, Source.includePath? line = none ∧ 10 ∉ line) ∧
    t = { s with
      code := s.code ++ written.flatMap (· ++ [10]), includes := (noted events).reverse ++ s.includes }

namespace After

theorem refl (s : Stage) : s.After [] s :=
  ⟨[], fun _ h => absurd h List.not_mem_nil, by simp⟩

/-- What comes after two runs of events comes after both of them. -/
theorem trans (hst : s.After events t) (htu : t.After later u) : s.After (events ++ later) u := by
  obtain ⟨first, hfirst, rfl⟩ := hst
  obtain ⟨second, hsecond, rfl⟩ := htu
  refine ⟨first ++ second, fun line hline => ?_, by simp⟩
  rcases List.mem_append.mp hline with hline | hline
  · exact hfirst line hline
  · exact hsecond line hline

/-- Events that note the same paths leave the same stage. -/
theorem congr (h : s.After events t) (hnoted : noted events' = noted events) : s.After events' t := by
  obtain ⟨written, hwritten, rfl⟩ := h
  exact ⟨written, hwritten, by rw [hnoted]⟩

/-- A plain line is written, and no path is noted for it. -/
theorem line {line : Text} (hplain : Source.includePath? line = none) (hline : 10 ∉ line) (s : Stage) :
    s.After [] (s.write line).newline := by
  refine ⟨[line], fun l hl => ?_, by simp [write, newline]⟩
  rw [List.mem_singleton.mp hl]
  exact ⟨hplain, hline⟩

/-- A path without a file is noted, and nothing is written. -/
theorem note (h : s.hasInclude path = false) : s.After [.refused path] (s.addInclude path) :=
  ⟨[], fun _ h => absurd h List.not_mem_nil, by simp [addInclude_new h]⟩

/-- The paths that are noted are those of the events, the last one in front. -/
theorem includes_eq (h : s.After events t) : t.includes = (noted events).reverse ++ s.includes := by
  obtain ⟨_, _, rfl⟩ := h
  rfl

/-- No path that is noted is forgotten. -/
theorem includes_subset (h : s.After events t) : s.includes ⊆ t.includes := by
  rw [h.includes_eq]
  exact List.subset_append_right _ _

/-- A path is noted afterwards if it was before, or if it is by an event. -/
theorem mem_includes (h : s.After events t) :
    path ∈ t.includes ↔ path ∈ s.includes ∨ path ∈ noted events := by
  rw [h.includes_eq, List.mem_append, List.mem_reverse, or_comm]

end After
end Stage

/-- The lines that are left hold no line feeds. -/
def IncludeTask.Lined : IncludeTask → Prop
  | .ask _ => True
  | .lines _ rest => ∀ line ∈ rest, 10 ∉ line

/-- The lines of a text hold no line feeds. -/
theorem IncludeTask.lined_sourceLines (file source : Text) :
    (IncludeTask.lines file (Context.sourceLines source)).Lined := fun _ => Text.not_mem_of_mem_splitOn

/-- **What a run does to a stage**: it writes plain lines, notes the paths of its events, and that is all. -/
theorem IncludeRun.after (h : IncludeRun c task s events r) : task.Lined → s.After events r.stage := by
  induction h with
  | @passed path s _ => intro _; exact (Stage.After.refl s).congr rfl
  | noLibrary hnew _ => intro _; exact Stage.After.note hnew
  | unreadable hnew _ _ => intro _; exact Stage.After.note hnew
  | finished hnew _ _ _ ih =>
    intro _
    exact ((Stage.After.note hnew).trans (ih (IncludeTask.lined_sourceLines _ _))).congr (by simp)
  | brokenOff hnew _ _ _ ih =>
    intro _
    exact ((Stage.After.note hnew).trans (ih (IncludeTask.lined_sourceLines _ _))).congr (by simp)
  | @atEnd file s => intro _; exact Stage.After.refl s
  | @written file line rest s events r hplain _ ih =>
    intro hlined
    exact (Stage.After.line hplain (hlined line List.mem_cons_self) s).trans
      (ih fun l hl => hlined l (List.mem_cons_of_mem line hl))
  | @stuck file line rest inner s _ _ => intro _; exact Stage.After.refl s
  | @nested file line rest inner s events t later r _ _ _ _ ihask ihrest =>
    intro hlined
    exact (ihask trivial).trans (ihrest fun l hl => hlined l (List.mem_cons_of_mem line hl))
  | failed _ _ _ ih => intro _; exact ih trivial

/-! ## The depth of nested files -/

namespace Context

/-- The paths that the include lines of the libraries ask for. -/
def askable (c : Context) : Finset Text := ((c.includer.getD []).includePaths.map c.resolve).toFinset

/-- How many of them are not noted yet. -/
def room (c : Context) (s : Stage) : Nat := (c.askable.filter fun path => s.hasInclude path = false).card

/-- There are no more paths left to ask for than include lines in the libraries. -/
theorem room_le (c : Context) (s : Stage) : c.room s ≤ (c.includer.getD []).includePaths.length := by
  calc c.room s ≤ c.askable.card := Finset.card_filter_le _ _
    _ ≤ ((c.includer.getD []).includePaths.map c.resolve).length := List.toFinset_card_le _
    _ = (c.includer.getD []).includePaths.length := List.length_map _

/-- More noted paths leave no more room. -/
theorem room_mono (h : s.includes ⊆ t.includes) : c.room t ≤ c.room s := by
  refine Finset.card_le_card fun path hpath => ?_
  rw [Finset.mem_filter, Stage.hasInclude_eq_false] at hpath ⊢
  exact ⟨hpath.1, fun hmem => hpath.2 (h hmem)⟩

/-- **A nested file takes room away**: its path was not noted, and now it is. -/
theorem room_addInclude (hpath : path ∈ c.askable) (hnew : s.hasInclude path = false) :
    c.room (s.addInclude path) < c.room s := by
  rw [Stage.addInclude_new hnew]
  refine Finset.card_lt_card (Finset.ssubset_iff_of_subset (fun p hp => ?_) |>.mpr ⟨path, ?_, ?_⟩)
  · rw [Finset.mem_filter, Stage.hasInclude_eq_false, List.mem_cons, not_or] at hp
    exact Finset.mem_filter.mpr ⟨hp.1, Stage.hasInclude_eq_false.mpr hp.2.2⟩
  · exact Finset.mem_filter.mpr ⟨hpath, hnew⟩
  · rw [Finset.mem_filter, Stage.hasInclude_eq_false]
    exact fun hmem => hmem.2 List.mem_cons_self

/-- What a file asks for is askable. -/
theorem resolve_mem_askable {libraries : SearchPath} {source line inner : Text}
    (hlibraries : c.includer = some libraries) (hread : libraries.read path = .ok source)
    (hline : line ∈ sourceLines source) (hinner : Source.includePath? line = some inner) :
    c.resolve inner ∈ c.askable := by
  obtain ⟨l, hl, f, hf, rfl⟩ := SearchPath.exists_file_of_read hread
  refine List.mem_toFinset.mpr (List.mem_map_of_mem ?_)
  rw [hlibraries]
  exact List.mem_flatMap.mpr ⟨l, hl, List.mem_flatMap.mpr
    ⟨f, hf, List.mem_filterMap.mpr ⟨line, sourceLines_subset f.2 hline, hinner⟩⟩⟩

/-- Some depth is enough for includes: from every stage with less room, they are run to their end. -/
def Enough (c : Context) (fuel : Nat) : Prop :=
  ∀ (path : Text) (s : Stage), c.resolve path ∈ c.askable → c.room s < fuel →
    ∃ events, IncludeRun c (.ask path) s events (c.expandWithin fuel path s)

variable {fuel : Nat}

/-- Then the lines of a file are gone through to their end. -/
theorem Enough.lines (h : c.Enough fuel) (file : Text) : ∀ (lines : List Text) (s : Stage),
    (∀ line ∈ lines, ∀ inner, Source.includePath? line = some inner → c.resolve inner ∈ c.askable) →
    c.room s < fuel →
    ∃ events, IncludeRun c (.lines file lines) s events (lines.foldlM (c.expandLine (c.expandWithin fuel) file) s) := by
  intro lines
  induction lines with
  | nil => intro s _ _; exact ⟨[], .atEnd⟩
  | cons line rest ih =>
    intro s hlines hroom
    have hrest := fun l hl => hlines l (List.mem_cons_of_mem line hl)
    rw [List.foldlM_cons, expandLine]
    cases hinner : Source.includePath? line with
    | none =>
      obtain ⟨events, hrun⟩ := ih (s.write line).newline hrest hroom
      exact ⟨events, .written hinner hrun⟩
    | some inner =>
      cases hpart : c.declarations.isNone with
      | true => exact ⟨[], .stuck hinner hpart⟩
      | false =>
        obtain ⟨events, hask⟩ := h inner s (hlines line List.mem_cons_self inner hinner) hroom
        dsimp only
        rw [if_neg Bool.false_ne_true]
        cases hresult : c.expandWithin fuel inner s with
        | error f =>
          rw [hresult] at hask
          exact ⟨events, .failed hinner hpart hask⟩
        | ok t =>
          rw [hresult] at hask
          -- A nested file only adds to what is noted, so there is no more room than before.
          have hroom' : c.room t < fuel :=
            Nat.lt_of_le_of_lt (room_mono (hask.after trivial).includes_subset) hroom
          obtain ⟨later, hlater⟩ := ih t hrest hroom'
          exact ⟨events ++ later, .nested hinner hpart hask hlater⟩

/-- And an include that leaves enough room for its lines is run to its end. -/
theorem Enough.ask (h : c.Enough fuel) (hroom : c.room (s.addInclude (c.resolve path)) < fuel) :
    ∃ events, IncludeRun c (.ask path) s events (c.expandWithin (fuel + 1) path s) := by
  cases hnew : s.hasInclude (c.resolve path) with
  | true =>
    rw [expandWithin, if_pos hnew]
    exact ⟨_, .passed hnew⟩
  | false =>
    have hnot : ¬ s.hasInclude (c.resolve path) = true := by rw [hnew]; exact Bool.false_ne_true
    cases hlibraries : c.includer with
    | none =>
      rw [expandWithin, if_neg hnot]
      simp only [hlibraries]
      exact ⟨_, .noLibrary hnew hlibraries⟩
    | some libraries =>
      cases hread : libraries.read (c.resolve path) with
      | error e =>
        rw [expandWithin, if_neg hnot]
        simp only [hlibraries, hread]
        exact ⟨_, .unreadable hnew hlibraries hread⟩
      | ok source =>
        rw [expandWithin_new hlibraries hnew hread]
        -- Noting the file takes up room, and that is what makes the smaller bound enough for its lines.
        obtain ⟨events, hlines⟩ := h.lines (c.resolve path) (sourceLines source)
          (s.addInclude (c.resolve path))
          (fun line hline inner hinner => resolve_mem_askable hlibraries hread hline hinner) hroom
        cases hresult : (sourceLines source).foldlM (c.expandLine (c.expandWithin fuel) (c.resolve path))
            (s.addInclude (c.resolve path)) with
        | ok t =>
          rw [hresult] at hlines
          exact ⟨_, .finished hnew hlibraries hread hlines⟩
        | error f =>
          rw [hresult] at hlines
          exact ⟨_, .brokenOff hnew hlibraries hread hlines⟩

/-- Every depth is enough for the room that it says: a file that is begun leaves less. -/
theorem enough (c : Context) : ∀ fuel, c.Enough fuel := by
  intro fuel
  induction fuel with
  | zero => intro path s _ hroom; exact absurd hroom (Nat.not_lt_zero _)
  | succ fuel ih =>
    intro path s hpath hroom
    cases hnew : s.hasInclude (c.resolve path) with
    | true =>
      rw [expandWithin, if_pos hnew]
      exact ⟨_, .passed hnew⟩
    | false => exact ih.ask (Nat.lt_of_lt_of_le (room_addInclude hpath hnew) (Nat.le_of_lt_succ hroom))

/-- **Every include comes to its end**, and `expandInclude` gives what it ends with. -/
theorem expandInclude_run (c : Context) (path : Text) (s : Stage) :
    ∃ events, IncludeRun c (.ask path) s events (c.expandInclude path s) := by
  rw [expandInclude, includeDepth]
  exact (c.enough _).ask (Nat.lt_succ_of_le (c.room_le _))

/-- A path that is noted is passed over. -/
theorem expandInclude_noted (h : s.hasInclude (c.resolve path) = true) : c.expandInclude path s = .ok s := by
  rw [expandInclude, includeDepth, expandWithin, if_pos h]

/-- A path that was asked for is noted, whatever came of it. -/
theorem resolve_mem_includes (c : Context) (path : Text) (s : Stage) :
    c.resolve path ∈ (IncludeResult.stage (c.expandInclude path s)).includes := by
  obtain ⟨events, hrun⟩ := c.expandInclude_run path s
  rw [(hrun.after trivial).mem_includes]
  generalize c.expandInclude path s = r at hrun
  cases hrun with
  | passed hknown => exact Or.inl (Stage.hasInclude_iff.mp hknown)
  | noLibrary _ _ => exact Or.inr List.mem_cons_self
  | unreadable _ _ _ => exact Or.inr List.mem_cons_self
  | finished _ _ _ _ => exact Or.inr List.mem_cons_self
  | brokenOff _ _ _ _ => exact Or.inr List.mem_cons_self

/-- **Every include ends**, whatever the files include: the unbounded recursion has one result, and
`expandInclude` gives it.  Text is only written at the end of the code, in lines that are no include lines;
paths are only added, and nothing else of the stage changes.  An include that succeeds has noted its path, and
asked for again it succeeds and changes nothing. -/
theorem expandInclude_ends (c : Context) (path : Text) (s : Stage) :
    (∃! r, ∃ events, IncludeRun c (.ask path) s events r) ∧
    (∃ events, IncludeRun c (.ask path) s events (c.expandInclude path s)) ∧
    (∃ added paths, IncludeResult.stage (c.expandInclude path s) =
        { s with code := s.code ++ added, includes := paths ++ s.includes } ∧
      ∀ line ∈ Text.lines added, Source.includePath? line = none) ∧
    ∀ t, c.expandInclude path s = .ok t →
      t.hasInclude (c.resolve path) = true ∧ c.expandInclude path t = .ok t := by
  obtain ⟨events, hrun⟩ := c.expandInclude_run path s
  refine ⟨⟨_, ⟨events, hrun⟩, fun r ⟨_, hr⟩ => (hr.unique hrun).2⟩, ⟨events, hrun⟩, ?_, fun t ht => ?_⟩
  · obtain ⟨written, hwritten, hstage⟩ := hrun.after trivial
    refine ⟨_, _, hstage, fun line hline => ?_⟩
    rw [Text.lines_flatMap fun l hl => (hwritten l hl).2] at hline
    rcases List.mem_append.mp hline with hline | hline
    · exact (hwritten line hline).1
    · rw [List.mem_singleton.mp hline]
      rfl
  · have hmem := c.resolve_mem_includes path s
    rw [ht] at hmem
    have hnoted := Stage.hasInclude_iff.mpr hmem
    exact ⟨hnoted, expandInclude_noted hnoted⟩

/-- A library with two files that include each other, one of them by a token, and itself. -/
def cyclic : Context :=
  { plain .standard with
    includer := some [.ofFiles [("a.glsl", "x\n#include \"b.glsl\"\ny\n"),
      ("b.glsl", "#include \"$first\"\n  #include\t\"b.glsl\"\nz")]]
    tokens := some ⟨[("$first", "a.glsl")]⟩ }

/-- Each of the two files is expanded once. -/
theorem expandInclude_ends_cyclic : ∃ t,
    cyclic.expandInclude "a.glsl" (Stage.empty "p") = .ok t ∧ t.code = Text.ofString "x\nz\ny\n" ∧
      t.hasInclude "a.glsl" = true ∧ cyclic.expandInclude "a.glsl" t = .ok t := by
  obtain ⟨t, ht, hcode⟩ : ∃ t, cyclic.expandInclude "a.glsl" (Stage.empty "p") = .ok t ∧
      t.code = Text.ofString "x\nz\ny\n" := ⟨_, rfl, by decide⟩
  obtain ⟨_, _, _, hagain⟩ := cyclic.expandInclude_ends "a.glsl" (Stage.empty "p")
  exact ⟨t, ht, hcode, hagain t ht⟩

end Context
end ShadeGraph
