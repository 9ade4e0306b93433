/-
  Include paths do not lead out of the library.

  1. A path is followed element by element from the root (`follow`, `walk`): names go down, `..` goes up, and
     above the root there is nothing.
  2. Cleaning keeps the names on the way to where the path leads (`foldl_cleanStep_of_walk`).  A path that leads
     out leaves a `..` in front of all it keeps (`getLast?_foldl_of_walk`), and is not cleaned to a plain one.
  3. So a path is accepted exactly if it leads somewhere, and becomes the path of that place
     (`cleanPath_eq_ok_iff`), which leads there as well: it is cleaned to itself (`LeadsTo.self`).
-/
import ShadeGraph.Proofs.IncludeHistory
import ShadeGraph.Proofs.Pieces

namespace ShadeGraph

namespace Text

variable {e p : Text} {place place' kept elements names : List Text}

/-! ## Following a path -/

/-- An element that goes down: it is neither empty nor `.` nor `..`, and it is one element. -/
structure IsName (e : Text) : Prop where
  nonempty : e ≠ []
  ne_here : e ≠ here
  ne_above : e ≠ above
  single : slash ∉ e

/-- Where an element leads.  A place is given by the names on the way to it from the root, the last one first;
there is nothing above the root. -/
def follow (place : List Text) (e : Text) : Option (List Text) :=
  if e = [] ∨ e = here then some place else if e = above then place.tail? else some (e :: place)

/-- Where elements lead, one after the other. -/
def walk (place elements : List Text) : Option (List Text) := elements.foldlM follow place

/-- The path of a place. -/
def pathTo (place : List Text) : Text := if place = [] then here else joinWith [slash] place.reverse

theorem walk_cons : walk place (e :: elements) = (follow place e).bind fun place' => walk place' elements := rfl

/-- A name goes down. -/
theorem follow_name (he : IsName e) : follow place e = some (e :: place) := by
  rw [follow, if_neg (not_or.mpr ⟨he.nonempty, he.ne_here⟩), if_neg he.ne_above]

/-- Names lead down. -/
theorem walk_names (h : ∀ e ∈ names, IsName e) : walk place names = some (names.reverse ++ place) := by
  induction names generalizing place with
  | nil => rfl
  | cons e names ih =>
    obtain ⟨he, hnames⟩ := List.forall_mem_cons.mp h
    rw [walk_cons, follow_name he, Option.bind_some, ih hnames, List.reverse_cons, List.append_assoc,
      List.singleton_append]

/-- One element keeps the way made of names. -/
theorem isName_of_follow (h : follow place e = some place') (he : slash ∉ e) (hplace : ∀ x ∈ place, IsName x) :
    ∀ x ∈ place', IsName x := by
  rw [follow] at h
  split at h
  · exact Option.some.inj h ▸ hplace
  · next hstay =>
    split at h
    · cases place with
      | nil => cases h
      | cons last outer =>
        exact Option.some.inj h ▸ (List.forall_mem_cons.mp hplace).2
    · next habove =>
      rw [← Option.some.inj h]
      obtain ⟨hnil, hhere⟩ := not_or.mp hstay
      exact List.forall_mem_cons.mpr ⟨⟨hnil, hhere, habove, he⟩, hplace⟩

/-- A place that elements lead to is given by names, because nothing else goes down. -/
theorem isName_of_walk (h : walk place elements = some place') (helements : ∀ e ∈ elements, slash ∉ e)
    (hplace : ∀ x ∈ place, IsName x) : ∀ x ∈ place', IsName x := by
  induction elements generalizing place with
  | nil => exact Option.some.inj h ▸ hplace
  | cons e elements ih =>
    obtain ⟨he, helements⟩ := List.forall_mem_cons.mp helements
    obtain ⟨next, hnext, h⟩ := Option.bind_eq_some_iff.mp (walk_cons ▸ h)
    exact ih h helements (isName_of_follow hnext he hplace)

/-! ## What cleaning keeps -/

/-- Cleaning keeps elements, and makes none. -/
theorem mem_cleanStep {rooted : Bool} {x : Text} (h : e ∈ cleanStep rooted kept x) : e ∈ kept ∨ e = x := by
  rw [cleanStep.eq_def] at h
  split at h
  · exact Or.inl h
  · split at h
    · next habove =>
      split at h
      · split at h
        · cases h
        · exact Or.inr (habove ▸ List.mem_singleton.mp h)
      · split at h
        · rcases List.mem_cons.mp h with rfl | h
          · exact Or.inr habove.symm
          · exact Or.inl h
        · exact Or.inl (List.mem_cons_of_mem _ h)
    · rcases List.mem_cons.mp h with rfl | h
      · exact Or.inr rfl
      · exact Or.inl h

/-- So what a cleaned path keeps are elements of the path. -/
theorem mem_foldl_cleanStep {rooted : Bool} (h : e ∈ elements.foldl (cleanStep rooted) kept) :
    e ∈ kept ∨ e ∈ elements := by
  induction elements generalizing kept with
  | nil => exact Or.inl h
  | cons x elements ih =>
    rcases ih h with hstep | hrest
    · rcases mem_cleanStep hstep with hkept | rfl
      · exact Or.inl hkept
      · exact Or.inr List.mem_cons_self
    · exact Or.inr (List.mem_cons_of_mem x hrest)

/-- As long as a path leads somewhere, an element does to what is kept what it does to the place. -/
theorem cleanStep_of_follow (hplace : ∀ x ∈ place, IsName x) (h : follow place e = some place') :
    cleanStep false place e = place' := by
  rw [follow] at h
  simp only [cleanStep, Bool.or_eq_true, decide_eq_true_eq]
  split at h
  · next hstay => rw [if_pos hstay, Option.some.inj h]
  · next hstay =>
    rw [if_neg hstay]
    split at h
    · next habove =>
      rw [if_pos habove]
      cases place with
      | nil => cases h
      | cons last outer =>
        rw [← Option.some.inj h]
        exact if_neg (hplace last List.mem_cons_self).ne_above
    · next habove => rw [if_neg habove, Option.some.inj h]

/-- Only `..` at the root leads nowhere; it is kept. -/
theorem cleanStep_of_follow_none (h : follow place e = none) : cleanStep false place e = [above] := by
  rw [follow] at h
  split at h
  · cases h
  · next hstay =>
    split at h
    · next habove =>
      cases place with
      | nil => rw [habove]; rfl
      | cons last outer => cases h
    · cases h

/-- A `..` in front of all that is kept stays there. -/
theorem getLast?_cleanStep (h : kept.getLast? = some above) : (cleanStep false kept e).getLast? = some above := by
  obtain ⟨front, rfl⟩ := List.getLast?_eq_some_iff.mp h
  rw [cleanStep.eq_def]
  split
  · exact h
  · split
    · cases front with
      | nil => rfl
      | cons last front =>
        simp only [List.cons_append]
        split <;> simp [List.getLast?_cons]
    · rw [List.getLast?_cons, h]
      rfl

/-- **Cleaning keeps the way to where the path leads.** -/
theorem foldl_cleanStep_of_walk (h : walk place elements = some place') (helements : ∀ e ∈ elements, slash ∉ e)
    (hplace : ∀ x ∈ place, IsName x) : elements.foldl (cleanStep false) place = place' := by
  induction elements generalizing place with
  | nil => exact Option.some.inj h
  | cons e elements ih =>
    obtain ⟨he, helements⟩ := List.forall_mem_cons.mp helements
    obtain ⟨next, hnext, h⟩ := Option.bind_eq_some_iff.mp (walk_cons ▸ h)
    rw [List.foldl_cons, cleanStep_of_follow hplace hnext]
    exact ih h helements (isName_of_follow hnext he hplace)

/-- A `..` in front of all that is kept stays there. -/
theorem getLast?_foldl_cleanStep (h : kept.getLast? = some above) :
    (elements.foldl (cleanStep false) kept).getLast? = some above := by
  induction elements generalizing kept with
  | nil => exact h
  | cons e elements ih => exact ih (getLast?_cleanStep h)

/-- **A path that leads out shows it**: in front of all that cleaning keeps stands `..`. -/
theorem getLast?_foldl_of_walk (h : walk place elements = none) (helements : ∀ e ∈ elements, slash ∉ e)
    (hplace : ∀ x ∈ place, IsName x) : (elements.foldl (cleanStep false) place).getLast? = some above := by
  induction elements generalizing place with
  | nil => cases h
  | cons e elements ih =>
    obtain ⟨he, helements⟩ := List.forall_mem_cons.mp helements
    rw [List.foldl_cons]
    cases hnext : follow place e with
    | none =>
      rw [cleanStep_of_follow_none hnext]
      exact getLast?_foldl_cleanStep rfl
    | some next =>
      rw [cleanStep_of_follow hplace hnext]
      rw [walk_cons, hnext] at h
      exact ih h helements (isName_of_follow hnext he hplace)

/-! ## Cleaned paths -/

/-- The elements of a place's path are the names on the way to the place, the first one first. -/
theorem splitOn_pathTo (h : ∀ x ∈ place, IsName x) (hne : place ≠ []) :
    splitOn slash (pathTo place) = place.reverse := by
  rw [pathTo, if_neg hne]
  exact splitOn_joinWith (fun x hx => (h x (List.mem_reverse.mp hx)).single) (mt List.reverse_eq_nil_iff.mp hne)

/-- The path of a place leads there. -/
theorem walk_pathTo (h : ∀ x ∈ place, IsName x) : walk [] (splitOn slash (pathTo place)) = some place := by
  by_cases hne : place = []
  · rw [hne]; rfl
  · rw [splitOn_pathTo h hne, walk_names fun x hx => h x (List.mem_reverse.mp hx), List.reverse_reverse,
      List.append_nil]

/-- No element of a place's path is empty, so there is no slash at its ends. -/
theorem nil_notMem_splitOn_pathTo (h : ∀ x ∈ place, IsName x) : [] ∉ splitOn slash (pathTo place) := by
  by_cases hne : place = []
  · rw [hne]; decide
  · rw [splitOn_pathTo h hne, List.mem_reverse]
    exact fun hempty => (h [] hempty).nonempty rfl

/-- The path of a place is not empty: that of the root is a point. -/
theorem pathTo_ne_nil (h : ∀ x ∈ place, IsName x) : pathTo place ≠ [] := by
  intro hnil
  refine nil_notMem_splitOn_pathTo h ?_
  rw [hnil]
  exact List.mem_cons_self

/-- It does not start with a slash. -/
theorem head?_pathTo (h : ∀ x ∈ place, IsName x) : (pathTo place).head? ≠ some slash := by
  intro hhead
  obtain ⟨rest, hpath⟩ := List.head?_eq_some_iff.mp hhead
  refine nil_notMem_splitOn_pathTo h ?_
  rw [hpath, splitOn, if_pos rfl]
  exact List.mem_cons_self

/-- It does not end with a slash. -/
theorem getLast?_pathTo (h : ∀ x ∈ place, IsName x) : (pathTo place).getLast? ≠ some slash := by
  intro hlast
  obtain ⟨front, hpath⟩ := List.getLast?_eq_some_iff.mp hlast
  refine nil_notMem_splitOn_pathTo h ?_
  rw [hpath, splitOn_append]
  exact List.mem_append_right _ List.mem_cons_self

/-- The path of a place is plain as soon as its text is well-formed. -/
theorem isPlain_pathTo (h : ∀ x ∈ place, IsName x) : isPlain (pathTo place) = isUtf8 (pathTo place) := by
  by_cases hne : place = []
  · rw [hne]; decide
  · have hall :
        (splitOn slash (pathTo place)).all (fun e => !(e == []) && !(e == here) && !(e == above)) = true := by
      rw [splitOn_pathTo h hne, List.all_eq_true]
      intro x hx
      obtain ⟨hnil, hhere, habove, -⟩ := h x (List.mem_reverse.mp hx)
      simp [hnil, hhere, habove]
    rw [isPlain, hall, Bool.or_true, Bool.and_true]

/-- A path with `..` in it is not plain. -/
theorem isPlain_of_above (h : above ∈ splitOn slash p) : isPlain p = false := by
  have hhere : (p == here) = false := by
    refine beq_eq_false_iff_ne.mpr fun heq => ?_
    rw [heq] at h
    exact absurd h (by decide)
  have hall : (splitOn slash p).all (fun e => !(e == []) && !(e == here) && !(e == above)) = false := by
    rw [List.all_eq_false]
    exact ⟨above, h, by decide⟩
  rw [isPlain, hhere, hall, Bool.false_or, Bool.and_false]

/-- What a relative path is cleaned to, by where it leads. -/
theorem clean_of_walk (hrel : p.head? ≠ some slash) (h : walk [] (splitOn slash p) = some place) :
    clean p = pathTo place := by
  have hpieces : ∀ e ∈ splitOn slash p, slash ∉ e := fun e => not_mem_of_mem_splitOn
  have hnames := isName_of_walk h hpieces (List.forall_mem_nil _)
  have hrooted : (p.head? == some slash) = false := beq_eq_false_iff_ne.mpr hrel
  simp only [clean, hrooted, foldl_cleanStep_of_walk h hpieces (List.forall_mem_nil _), Bool.false_eq_true,
    if_false]
  by_cases hne : place = []
  · rw [hne]; rfl
  · have hbody := pathTo_ne_nil hnames
    rw [pathTo, if_neg hne] at hbody ⊢
    exact if_neg hbody

/-- A relative path that leads out is not cleaned to a plain one. -/
theorem isPlain_clean_of_walk (hrel : p.head? ≠ some slash) (h : walk [] (splitOn slash p) = none) :
    isPlain (clean p) = false := by
  have hpieces : ∀ e ∈ splitOn slash p, slash ∉ e := fun e => not_mem_of_mem_splitOn
  have hrooted : (p.head? == some slash) = false := beq_eq_false_iff_ne.mpr hrel
  have hlast := getLast?_foldl_of_walk h hpieces (List.forall_mem_nil _)
  have hkept : ∀ e ∈ (splitOn slash p).foldl (cleanStep false) [], slash ∉ e := fun e he =>
    hpieces e ((mem_foldl_cleanStep he).resolve_left List.not_mem_nil)
  simp only [clean, hrooted, Bool.false_eq_true, if_false]
  generalize (splitOn slash p).foldl (cleanStep false) [] = kept at hlast hkept
  have habove : above ∈ splitOn slash (joinWith [slash] kept.reverse) := by
    have hmem : above ∈ kept.reverse := List.mem_reverse.mpr (List.mem_of_getLast? hlast)
    rwa [splitOn_joinWith (fun e he => hkept e (List.mem_reverse.mp he)) (List.ne_nil_of_mem hmem)]
  split
  · next hnil =>
    rw [hnil] at habove
    exact absurd habove (by decide)
  · exact isPlain_of_above habove

/-- A rooted path stays rooted. -/
theorem isPlain_clean_of_rooted (hroot : p.head? = some slash) : isPlain (clean p) = false := by
  have hrooted : (p.head? == some slash) = true := beq_iff_eq.mpr hroot
  simp only [clean, hrooted, if_true]
  have hhere : ∀ body : Text, (slash :: body == here) = false := fun body => rfl
  rw [isPlain, splitOn, if_pos rfl, List.all_cons, hhere]
  exact Bool.and_false _

end Text

/-! ## The paths of a library -/

namespace Library

open Text

variable {p c : Text} {place : List Text}

/-- A path without the slash that it may start with. -/
def unrooted (p : Text) : Text := if p.head? = some slash then p.drop 1 else p

/-- A path of well-formed text, with no token left in it, leads to the place that `c` is the path of. -/
structure LeadsTo (p c : Text) : Prop where
  nonempty : p ≠ []
  settled : tokenMark ∉ p
  relative : (unrooted p).head? ≠ some slash
  leads : ∃ place, walk [] (splitOn slash (unrooted p)) = some place ∧ c = pathTo place
  wellFormed : isUtf8 c = true

/-- A path that cannot leave the root. -/
structure Confined (c : Text) : Prop where
  down : c = here ∨ ∃ names, names ≠ [] ∧ (∀ e ∈ names, IsName e) ∧ c = joinWith [slash] names
  notRooted : c.head? ≠ some slash
  notOpen : c.getLast? ≠ some slash
  settled : tokenMark ∉ c

/-- What is left to decide for a path without tokens is whether it is plain when it is cleaned. -/
theorem cleanPath_of_settled (hne : p ≠ []) (hsettled : tokenMark ∉ p) :
    cleanPath p = if isPlain (clean (unrooted p)) then .ok (clean (unrooted p)) else .error (.outside p) := by
  have hmark : p.contains tokenMark = false := by rwa [← Bool.not_eq_true, List.contains_iff_mem]
  rw [cleanPath, if_neg hne, hmark]
  rfl

/-- **A path is accepted exactly if it leads somewhere**, and becomes the path of that place. -/
theorem cleanPath_eq_ok_iff : cleanPath p = .ok c ↔ LeadsTo p c := by
  constructor
  · intro h
    have hne : p ≠ [] := by
      rintro rfl
      cases h
    have hsettled : tokenMark ∉ p := by
      intro hmark
      rw [cleanPath, if_neg hne, if_pos (List.contains_iff_mem.mpr hmark)] at h
      cases h
    rw [cleanPath_of_settled hne hsettled] at h
    split at h
    · next hplain =>
      have hrel : (unrooted p).head? ≠ some slash := by
        intro hroot
        rw [isPlain_clean_of_rooted hroot] at hplain
        cases hplain
      cases hwalk : walk [] (splitOn slash (unrooted p)) with
      | none =>
        rw [isPlain_clean_of_walk hrel hwalk] at hplain
        cases hplain
      | some place =>
        have hc : c = pathTo place := by rw [← Except.ok.inj h, clean_of_walk hrel hwalk]
        have hutf8 : isUtf8 (clean (unrooted p)) = true := (Bool.and_eq_true_iff.mp hplain).1
        exact ⟨hne, hsettled, hrel, ⟨place, hwalk, hc⟩, Except.ok.inj h ▸ hutf8⟩
    · cases h
  · rintro ⟨hne, hsettled, hrel, ⟨place, hwalk, rfl⟩, hutf8⟩
    have hnames := isName_of_walk hwalk (fun e => not_mem_of_mem_splitOn) (List.forall_mem_nil _)
    rw [cleanPath_of_settled hne hsettled, clean_of_walk hrel hwalk, isPlain_pathTo hnames, hutf8, if_pos rfl]

namespace LeadsTo

variable (h : LeadsTo p c)
include h

/-- A path that was accepted is the path of a place, whose names hold no token. -/
theorem exists_place : ∃ place, (∀ e ∈ place, IsName e ∧ tokenMark ∉ e) ∧ c = pathTo place := by
  obtain ⟨place, hwalk, hc⟩ := h.leads
  have hpieces : ∀ e ∈ splitOn slash (unrooted p), slash ∉ e := fun e => not_mem_of_mem_splitOn
  refine ⟨place, fun e he => ⟨isName_of_walk hwalk hpieces (List.forall_mem_nil _) e he, fun hmark => ?_⟩, hc⟩
  -- the names on the way are elements of the path
  rw [← foldl_cleanStep_of_walk hwalk hpieces (List.forall_mem_nil _)] at he
  have hpiece : e ∈ splitOn slash (unrooted p) := (mem_foldl_cleanStep he).resolve_left List.not_mem_nil
  have hsub : e <:+: unrooted p := joinWith_splitOn slash (unrooted p) ▸ infix_joinWith hpiece
  have hmem : tokenMark ∈ unrooted p := hsub.subset hmark
  rw [unrooted] at hmem
  split at hmem
  · exact h.settled (List.mem_of_mem_drop hmem)
  · exact h.settled hmem

/-- **A path that was accepted cannot leave the root.** -/
theorem confined : Confined c := by
  obtain ⟨place, hplace, rfl⟩ := h.exists_place
  have hnames : ∀ e ∈ place, IsName e := fun e he => (hplace e he).1
  by_cases hne : place = []
  · rw [hne]
    exact ⟨Or.inl rfl, by decide, by decide, by decide⟩
  · have hpath : pathTo place = joinWith [slash] place.reverse := if_neg hne
    refine ⟨Or.inr ⟨place.reverse, mt List.reverse_eq_nil_iff.mp hne, ?_, hpath⟩, head?_pathTo hnames,
      getLast?_pathTo hnames, ?_⟩
    · exact fun e he => hnames e (List.mem_reverse.mp he)
    · rw [hpath]
      refine joinWith_induction (P := fun t => tokenMark ∉ t) List.not_mem_nil ?_ (by decide) fun e he => ?_
      · intro s t hs ht hmem
        exact (List.mem_append.mp hmem).elim hs ht
      · exact (hplace e (List.mem_reverse.mp he)).2

/-- The path that a path is cleaned to leads to the same place. -/
theorem self : LeadsTo c c := by
  have hconfined := h.confined
  obtain ⟨place, hplace, rfl⟩ := h.exists_place
  have hnames : ∀ e ∈ place, IsName e := fun e he => (hplace e he).1
  have hunrooted : unrooted (pathTo place) = pathTo place := if_neg hconfined.notRooted
  exact ⟨pathTo_ne_nil hnames, hconfined.settled, hunrooted.symm ▸ hconfined.notRooted,
    ⟨place, hunrooted.symm ▸ walk_pathTo hnames, rfl⟩, h.wellFormed⟩

end LeadsTo

/-- Reading a path looks up the file that the path is cleaned to. -/
theorem read_toOption (h : cleanPath p = .ok c) (l : Library) : (l.read p).toOption = l.files.lookup c := by
  rw [read, h]
  cases hfile : l.files.lookup c with
  | some content => simp only [hfile]; rfl
  | none =>
    simp only [hfile]
    split <;> rfl

/-- **Every spelling of a path is cleaned to one path below the root.**  A path is accepted exactly if, followed
from the root, it never goes above it; then it is cleaned to the path of the place that it leads to.  That one is
confined and cleaned to itself, and whatever else is cleaned to it, each library and each search path gives the
same file for it, or none. -/
theorem include_paths_confined (p : Text) :
    (∀ c, cleanPath p = .ok c ↔ LeadsTo p c) ∧
    ∀ c, cleanPath p = .ok c → Confined c ∧ cleanPath c = .ok c ∧
      ∀ q, cleanPath q = .ok c →
        (∀ l : Library, (l.read q).toOption = (l.read c).toOption) ∧
        ∀ libraries : SearchPath, (libraries.read q).toOption = (libraries.read c).toOption := by
  refine ⟨fun c => cleanPath_eq_ok_iff, fun c hp => ?_⟩
  have hleads : LeadsTo p c := cleanPath_eq_ok_iff.mp hp
  have hself : cleanPath c = .ok c := cleanPath_eq_ok_iff.mpr hleads.self
  refine ⟨hleads.confined, hself, fun q hq => ⟨fun l => ?_, fun libraries => ?_⟩⟩
  · rw [read_toOption hq, read_toOption hself]
  · rw [SearchPath.read_toOption hq, SearchPath.read_toOption hself]

/-- A path with a slash in front, empty elements, `.` and `..`. -/
theorem include_paths_confined_detour :
    Confined "a/c.glsl" ∧ ∀ libraries : SearchPath,
      (libraries.read "/a//./b/../c.glsl").toOption = (libraries.read "a/c.glsl").toOption := by
  have hdetour : cleanPath "/a//./b/../c.glsl" = .ok "a/c.glsl" := by decide +kernel
  obtain ⟨hconfined, -, hspellings⟩ := (include_paths_confined "/a//./b/../c.glsl").2 _ hdetour
  exact ⟨hconfined, (hspellings _ hdetour).2⟩

/-- Going up and down again does not help: above the root there is nothing. -/
example : cleanPath "a/../../a/c.glsl" = .error (.outside "a/../../a/c.glsl") := by decide +kernel

end Library
end ShadeGraph
