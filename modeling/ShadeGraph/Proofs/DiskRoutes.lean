/-
  Places that a path does not lead to.

  1. The `route` of a path holds every place that is looked at when the path is followed.  The routes of a
     path above it, or of the path without the slashes at its end, are parts of it.
  2. A step keeps `Away` from some places if it does the same whatever stands there, leaves that as it is, and
     takes no directory away.  Steps one after the other keep away if each of them does.
  3. Making directories and writing files keep away from all places that are not on the route.
-/
import ShadeGraph.Command.Disk
import ShadeGraph.Command.Run
import ShadeGraph.Proofs.Computation
import ShadeGraph.Proofs.Pieces

namespace ShadeGraph

/-! ## Routes -/

namespace Disk

/-- The place that one path element leads to. -/
def next (here : Location) (e : Text) : Location :=
  if e = [] ∨ e = Text.here then here else if e = Text.above then parent here else here ++ [e]

/-- The places that path elements lead through, from the first to the last. -/
def passes : Location → List Text → List Location
  | here, [] => [here]
  | here, e :: rest => here :: passes (next here e) rest

/-- Where a path starts. -/
def startOf (path : Text) : Location := if path.head? = some Text.slash then top else []

/-- The places that a path leads through, from the first to the last. -/
def route (path : Text) : List Location := passes (startOf path) (Text.splitOn Text.slash path)

/-- The place where the elements start is one of them. -/
theorem head_mem_passes (here : Location) (es : List Text) : here ∈ passes here es := by
  cases es <;> exact List.mem_cons_self

/-- More elements lead through more places. -/
theorem passes_append_subset (es fs : List Text) (here : Location) :
    passes here es ⊆ passes here (es ++ fs) := by
  induction es generalizing here with
  | nil =>
    intro m hm
    obtain rfl := List.mem_singleton.mp hm
    exact head_mem_passes m fs
  | cons e es ih => exact List.cons_subset_cons here (ih (next here e))

/-- An empty element at the end leads nowhere else. -/
theorem passes_append_nil_subset (es : List Text) (here : Location) :
    passes here (es ++ [[]]) ⊆ passes here es := by
  induction es generalizing here with
  | nil =>
    intro m hm
    simpa [passes, next] using hm
  | cons e es ih => exact List.cons_subset_cons here (ih (next here e))

/-- The route of a path up to one of its slashes is a part of the whole route. -/
theorem route_append_subset {t : Text} (ht : t ≠ []) (u : Text) : route t ⊆ route (t ++ Text.slash :: u) := by
  have hstart : startOf (t ++ Text.slash :: u) = startOf t := by
    cases t with
    | nil => exact absurd rfl ht
    | cons b t => rfl
  rw [route, route, hstart, Text.splitOn_append]
  exact passes_append_subset _ _ _

/-- A path up to one of its slashes leads through places of the path. -/
theorem route_slash_subset (t u : Text) : route (t ++ [Text.slash]) ⊆ route (t ++ Text.slash :: u) := by
  have hstart : startOf (t ++ Text.slash :: u) = startOf (t ++ [Text.slash]) := by
    cases t with
    | nil => rfl
    | cons b t => rfl
  rw [route, route, hstart, Text.splitOn_append, Text.splitOn_append]
  exact List.Subset.trans (passes_append_nil_subset _ _) (passes_append_subset _ _ _)

/-- What is dropped at the end of a text is a run of one byte. -/
theorem exists_dropTrailing (b : UInt8) (t : Text) :
    ∃ w, t = Text.dropTrailing b t ++ w ∧ ∀ c ∈ w, c = b := by
  refine ⟨(t.reverse.takeWhile (· == b)).reverse, ?_, fun c hc => ?_⟩
  · rw [Text.dropTrailing, ← List.reverse_append, List.takeWhile_append_dropWhile, List.reverse_reverse]
  · have hall : (t.reverse.takeWhile (· == b)).all (· == b) = true := List.all_takeWhile
    exact eq_of_beq (List.all_eq_true.mp hall c (List.mem_reverse.mp hc))

/-- So does the path without the slashes at its end. -/
theorem route_dropTrailing_subset {path : Text} (h : Text.dropTrailing Text.slash path ≠ []) :
    route (Text.dropTrailing Text.slash path) ⊆ route path := by
  obtain ⟨w, hw, hall⟩ := exists_dropTrailing Text.slash path
  cases w with
  | nil =>
    rw [List.append_nil] at hw
    rw [← hw]
    exact List.Subset.refl _
  | cons c w =>
    obtain rfl : c = Text.slash := hall c List.mem_cons_self
    have hsubset := route_append_subset h w
    rwa [← hw] at hsubset

/-- A path above a path ends with one of its slashes. -/
theorem exists_pathAbove {path : Text} (h : pathAbove path ≠ []) :
    ∃ t u, pathAbove path = t ++ [Text.slash] ∧ path = t ++ Text.slash :: u := by
  obtain ⟨w, hw, -⟩ := exists_dropTrailing Text.slash path
  have hsplit := List.takeWhile_append_dropWhile
    (p := (· != Text.slash)) (l := (Text.dropTrailing Text.slash path).reverse)
  cases hrest : (Text.dropTrailing Text.slash path).reverse.dropWhile (· != Text.slash) with
  | nil => exact absurd (by rw [pathAbove, hrest]; rfl) h
  | cons c rest =>
    have hslash : c = Text.slash := by
      have hhead := List.head?_dropWhile_not (· != Text.slash) (Text.dropTrailing Text.slash path).reverse
      simpa [hrest] using hhead
    subst hslash
    have habove : pathAbove path = rest.reverse ++ [Text.slash] := by
      rw [pathAbove, hrest, List.reverse_cons]
    refine ⟨rest.reverse, ((Text.dropTrailing Text.slash path).reverse.takeWhile (· != Text.slash)).reverse ++ w,
      habove, ?_⟩
    rw [hrest] at hsplit
    have hback := congrArg List.reverse hsplit
    rw [List.reverse_append, List.reverse_reverse, List.reverse_cons] at hback
    calc path = Text.dropTrailing Text.slash path ++ w := hw
      _ = rest.reverse ++ [Text.slash] ++
          ((Text.dropTrailing Text.slash path).reverse.takeWhile (· != Text.slash)).reverse ++ w := by rw [hback]
      _ = _ := by simp

/-- So does the path above it. -/
theorem route_pathAbove_subset {path : Text} (h : pathAbove path ≠ []) : route (pathAbove path) ⊆ route path := by
  obtain ⟨t, u, habove, hpath⟩ := exists_pathAbove h
  have hsubset := route_slash_subset t u
  rwa [← habove, ← hpath] at hsubset

/-! ## Disks that differ at some places -/

/-- The disks hold the same, some places apart. -/
def AgreeOff (P : Location → Prop) (d d' : Disk) : Prop := ∀ m, ¬ P m → d.entry? m = d'.entry? m

section

variable {P : Location → Prop} {d d' d'' : Disk}

theorem AgreeOff.refl (P : Location → Prop) (d : Disk) : AgreeOff P d d := fun _ _ => rfl

theorem AgreeOff.symm (h : AgreeOff P d d') : AgreeOff P d' d := fun m hm => (h m hm).symm

theorem AgreeOff.trans (h : AgreeOff P d d') (h' : AgreeOff P d' d'') : AgreeOff P d d'' :=
  fun m hm => (h m hm).trans (h' m hm)

end

/-- The entry that was set is found at its place, and at every other place what was there. -/
theorem find?_set (entries : List (Location × DiskEntry)) (l m : Location) (e : DiskEntry) :
    (entries.filter (·.1 != l) ++ [(l, e)]).find? (·.1 == m) =
      if m = l then some (l, e) else entries.find? (·.1 == m) := by
  induction entries with
  | nil =>
    by_cases h : m = l
    · simp [h]
    · simp [h, Ne.symm h]
  | cons a entries ih =>
    by_cases hl : a.1 = l
    · rw [List.filter_cons_of_neg (by simp [hl]), ih]
      split
      · rfl
      · next hm => rw [List.find?_cons_of_neg (by simp only [hl, beq_iff_eq]; exact fun h => hm h.symm)]
    · rw [List.filter_cons_of_pos (by simp [hl]), List.cons_append]
      by_cases hm : a.1 = m
      · subst hm
        rw [List.find?_cons_of_pos (by simp), if_neg hl, List.find?_cons_of_pos (by simp)]
      · rw [List.find?_cons_of_neg (by simp [hm]), List.find?_cons_of_neg (by simp [hm]), ih]

/-- Setting an entry changes one place, unless that is given as a directory. -/
theorem entry?_set (d : Disk) (l m : Location) (e : DiskEntry) :
    Disk.entry? (d.set l e) m =
      if isGiven m = true then some .directory else if m = l then some e else d.entry? m := by
  rw [ entry?, set, find?_set]
  split
  · rfl
  · next hgiven =>
    split
    · rfl
    · rw [ entry?, if_neg hgiven]

variable {P : Location → Prop} {l : Location} {d d' : Disk}

theorem entry?_set_of_ne {m : Location} (h : m ≠ l) (e : DiskEntry) : Disk.entry? (d.set l e) m = d.entry? m := by
  rw [entry?_set, if_neg h]
  split
  · next hgiven => rw [ entry?, if_pos hgiven]
  · rfl

/-- Something can be put where no directory is. -/
theorem entry?_set_self (hl : d.entry? l ≠ some .directory) (e : DiskEntry) :
    Disk.entry? (d.set l e) l = some e := by
  have hgiven : ¬ isGiven l = true := by
    intro hgiven
    exact hl (by rw [ entry?, if_pos hgiven])
  rw [entry?_set, if_neg hgiven, if_pos rfl]

/-- It takes no other directory away. -/
theorem directory_set {m : Location} (hl : d.entry? l ≠ some .directory) (hm : d.entry? m = some .directory)
    (e : DiskEntry) : Disk.entry? (d.set l e) m = some .directory := by
  have hne : m ≠ l := by
    rintro rfl
    exact hl hm
  rw [entry?_set_of_ne hne, hm]

/-- A disk agrees with itself after a change at one of the places. -/
theorem agreeOff_set (hl : P l) (d : Disk) (e : DiskEntry) : AgreeOff P d (d.set l e) := by
  intro m hm
  have hne : m ≠ l := fun heq => hm (heq ▸ hl)
  exact (entry?_set_of_ne hne e).symm

/-- The same change on both disks keeps their agreement. -/
theorem AgreeOff.set (h : AgreeOff P d d') (m : Location) (e : DiskEntry) : AgreeOff P (d.set m e) (d'.set m e) := by
  intro k hk
  rw [entry?_set, entry?_set, h k hk]

/-- A directory leads on to the next place, unless the name is too long for any. -/
theorem follow_directory {here : Location} (h : d.entry? here = some .directory) (e : Text) (es : List Text) :
    d.follow here (e :: es) =
      if maxName < e.length then .error .nameTooLong else d.follow (next here e) es := by
  rw [follow, h, next]
  dsimp only
  split
  · next hhere =>
    have hshort : ¬ maxName < e.length := by
      rcases hhere with rfl | rfl <;> decide
    rw [if_neg hshort]
  · split
    · next habove =>
      have hshort : ¬ maxName < e.length := by
        subst habove
        decide
      rw [if_neg hshort]
    · rfl

/-- Only a directory leads on. -/
theorem entry?_of_follow {here m : Location} {e : Text} {es : List Text} (h : d.follow here (e :: es) = .ok m) :
    d.entry? here = some .directory := by
  rw [follow] at h
  split at h
  · cases h
  · assumption
  · cases h

/-- Following a path does not depend on places that it does not lead through. -/
theorem follow_agree (h : AgreeOff P d d') {es : List Text} {here : Location}
    (hfree : ∀ m ∈ passes here es, ¬ P m) : d.follow here es = d'.follow here es := by
  induction es generalizing here with
  | nil => rfl
  | cons e es ih =>
    obtain ⟨hhere, hrest⟩ := List.forall_mem_cons.mp hfree
    have hentry : d.entry? here = d'.entry? here := h here hhere
    by_cases hdirectory : d.entry? here = some .directory
    · rw [follow_directory hdirectory, follow_directory (hentry ▸ hdirectory), ih hrest]
    · rw [follow, follow, ← hentry]
      split
      · rfl
      · next hd => exact absurd hd hdirectory
      · rfl

/-- A path that is followed to its end leads to a place on its route. -/
theorem follow_mem {es : List Text} {here m : Location} (h : d.follow here es = .ok m) : m ∈ passes here es := by
  induction es generalizing here with
  | nil =>
    cases h
    exact List.mem_cons_self
  | cons e es ih =>
    rw [follow_directory (entry?_of_follow h)] at h
    split at h
    · cases h
    · exact List.mem_cons_of_mem here (ih h)

/-- Directories that stay lead to the same places. -/
theorem follow_mono (h : ∀ m, d.entry? m = some .directory → d'.entry? m = some .directory)
    {es : List Text} {here m : Location} (hm : d.follow here es = .ok m) : d'.follow here es = .ok m := by
  induction es generalizing here with
  | nil => exact hm
  | cons e es ih =>
    have hdirectory := entry?_of_follow hm
    rw [follow_directory hdirectory] at hm
    rw [follow_directory (h here hdirectory)]
    split at hm
    · cases hm
    · next hshort =>
      rw [if_neg hshort]
      exact ih hm

section

variable {path : Text}

/-- A path that leads through none of the places leads to the same place on both disks. -/
theorem locate_agree (h : AgreeOff P d d') (hfree : ∀ m ∈ route path, ¬ P m) :
    d.locate path = d'.locate path := by
  rw [locate, locate]
  split
  · rfl
  · split
    · rfl
    · exact follow_agree h hfree

/-- Where a path leads is the last place of its route. -/
theorem locate_mem {m : Location} (h : d.locate path = .ok m) : m ∈ route path := by
  rw [locate] at h
  split at h
  · cases h
  · split at h
    · cases h
    · exact follow_mem h

/-- A path leads where it led as long as no directory is missing. -/
theorem locate_mono (h : ∀ m, d.entry? m = some .directory → d'.entry? m = some .directory) {m : Location}
    (hm : d.locate path = .ok m) : d'.locate path = .ok m := by
  rw [locate] at hm ⊢
  split at hm
  · cases hm
  · next hzero =>
    split at hm
    · cases hm
    · next hempty =>
      rw [if_neg hzero, if_neg hempty]
      exact follow_mono h hm

/-- What stands at the end of the path is the same, too. -/
theorem status_agree (h : AgreeOff P d d') (hfree : ∀ m ∈ route path, ¬ P m) :
    d.status path = d'.status path := by
  rw [status, status, locate_agree h hfree]
  cases hm : d'.locate path with
  | error c => rfl
  | ok m => simp only [h m (hfree m (locate_mem hm))]

end

/-! ## Keeping away from places -/

/-- What two disks that differ at some places become in the same way: these places stay as they are, and so do
the directories. -/
structure Alike {α : Type} (P : Location → Prop) (d d' : Disk) (r r' : α × Disk) : Prop where
  same : r.1 = r'.1
  agree : AgreeOff P r.2 r'.2
  spared : ∀ m, P m → Disk.entry? r.2 m = d.entry? m
  directories : ∀ m, d.entry? m = some .directory → Disk.entry? r.2 m = some .directory

/-- A step keeps away from places: what stands there makes no difference to it, nor is changed by it. -/
def Away {α : Type} (P : Location → Prop) (x : Disk → α × Disk) : Prop :=
  ∀ ⦃d d'⦄, AgreeOff P d d' → Alike P d d' (x d) (x d')

section

variable {α β : Type} {path : Text} {m : Location}

theorem AgreeOff.alike (h : AgreeOff P d d') (a : α) : Alike P d d' (a, d) (a, d') :=
  ⟨rfl, h, fun _ _ => rfl, fun _ hm => hm⟩

/-- What two disks become in two steps. -/
theorem Alike.trans {r r' : α × Disk} {s s' : β × Disk} (h : Alike P d d' r r') (hs : Alike P r.2 r'.2 s s') :
    Alike P d d' s s' where
  same := hs.same
  agree := hs.agree
  spared m hm := (hs.spared m hm).trans (h.spared m hm)
  directories m hm := hs.directories m (h.directories m hm)

/-- Something else may be put where no directory is. -/
theorem AgreeOff.alike_set (h : AgreeOff P d d') (hm : ¬ P m) (hfree : d.entry? m ≠ some .directory)
    (e : DiskEntry) (a : α) : Alike P d d' (a, d.set m e) (a, d'.set m e) where
  same := rfl
  agree := h.set m e
  spared k hk := by
    have hne : k ≠ m := fun heq => hm (heq ▸ hk)
    exact entry?_set_of_ne hne e
  directories _ hk := directory_set hfree hk e

/-- Making a directory fails on both disks, or puts it at the same free place. -/
theorem makeDirectory_agree (h : AgreeOff P d d') (hfree : ∀ m ∈ route path, ¬ P m) :
    (∃ c, d.makeDirectory path = .error c ∧ d'.makeDirectory path = .error c) ∨
      ∃ m, ¬ P m ∧ d.entry? m = none ∧ d.makeDirectory path = .ok (d.set m .directory) ∧
        d'.makeDirectory path = .ok (d'.set m .directory) := by
  have hlocate : d.locate (Text.dropTrailing Text.slash path) = d'.locate (Text.dropTrailing Text.slash path) := by
    by_cases hempty : Text.dropTrailing Text.slash path = []
    · rw [hempty]
      rfl
    · exact locate_agree h fun m hm => hfree m (route_dropTrailing_subset hempty hm)
  rw [makeDirectory, makeDirectory, ← hlocate]
  cases hm : d.locate (Text.dropTrailing Text.slash path) with
  | error c => exact .inl ⟨c, rfl, rfl⟩
  | ok m =>
    have hplace : ¬ P m := by
      refine hfree m (route_dropTrailing_subset ?_ (locate_mem hm))
      intro hempty
      rw [hempty] at hm
      cases hm
    dsimp only
    rw [← h m hplace]
    cases hentry : d.entry? m with
    | some e => exact .inl ⟨.alreadyThere, rfl, rfl⟩
    | none => exact .inr ⟨m, hplace, hentry, rfl, rfl⟩

/-- Directories are made from the outermost on, and each of them is on the route. -/
theorem away_makeWithin (fuel : Nat) (hfree : ∀ m ∈ route path, ¬ P m) : Away P (makeWithin fuel path) := by
  induction fuel generalizing path with
  | zero => exact fun _ _ h => h.alike _
  | succ fuel ih =>
    intro d d' h
    -- The directories above are made first, along a shorter route.
    have habove : Alike P d d' (if pathAbove path = [] then (.ok (), d) else makeWithin fuel (pathAbove path) d)
        (if pathAbove path = [] then (.ok (), d') else makeWithin fuel (pathAbove path) d') := by
      split
      · exact h.alike _
      · next hne => exact ih (fun m hm => hfree m (route_pathAbove_subset hne hm)) h
    rw [makeWithin, makeWithin, ← status_agree h hfree]
    generalize (if pathAbove path = [] then (.ok (), d) else makeWithin fuel (pathAbove path) d) = r at habove ⊢
    generalize (if pathAbove path = [] then (.ok (), d') else makeWithin fuel (pathAbove path) d') = r' at habove ⊢
    obtain ⟨result, d₁⟩ := r
    obtain ⟨result', d₁'⟩ := r'
    obtain rfl : result = result' := habove.same
    have h₁ : AgreeOff P d₁ d₁' := habove.agree
    split
    · exact h.alike _
    · exact h.alike _
    · cases result with
      | error e => exact habove
      | ok u =>
        dsimp only
        refine habove.trans ?_
        -- Both disks refuse the directory, or both gain it at the same place.
        obtain ⟨c, hc, hc'⟩ | ⟨m, hm, hnone, hc, hc'⟩ := makeDirectory_agree h₁ hfree
        · rw [hc, hc', ← status_agree h₁ hfree]
          dsimp only
          split <;> exact h₁.alike _
        · rw [hc, hc']
          exact h₁.alike_set hm (by simp [hnone]) _ _

variable {store : CacheStore}

/-- Making directories keeps away from all places that are not on the route. -/
theorem away_makeDirectories (hfree : ∀ m ∈ route path, ¬ P m) : Away P ((hostWith store).makeDirectories path) :=
  away_makeWithin _ hfree

/-- Writing fails on both disks, or puts the file at the same place. -/
theorem write_agree (h : AgreeOff P d d') (hfree : ∀ m ∈ route path, ¬ P m) (content : Text) :
    (∃ e, d.write path content = .error e ∧ d'.write path content = .error e) ∨
      ∃ m, ¬ P m ∧ d.entry? m ≠ some .directory ∧ d.write path content = .ok (d.set m (.file content)) ∧
        d'.write path content = .ok (d'.set m (.file content)) := by
  rw [write, write, ← locate_agree h hfree]
  cases hm : d.locate path with
  | error c => exact .inl ⟨_, rfl, rfl⟩
  | ok m =>
    have hplace : ¬ P m := hfree m (locate_mem hm)
    dsimp only
    rw [← h m hplace]
    split
    · exact .inl ⟨_, rfl, rfl⟩
    · next hfile => exact .inr ⟨m, hplace, hfile, rfl, rfl⟩

/-- **Writing a file keeps away from all places that are not on the route**, whether it succeeds or not. -/
theorem away_write (hfree : ∀ m ∈ route path, ¬ P m) (content : Text) :
    Away P ((hostWith store).write path content) := by
  intro d d' h
  unfold hostWith
  dsimp only
  obtain ⟨e, he, he'⟩ | ⟨m, hm, hfile, hset, hset'⟩ := write_agree h hfree content
  · rw [he, he']
    exact h.alike _
  · rw [hset, hset']
    exact h.alike_set hm hfile _ _

/-- A step of the host as a step that may fail with an error of the command. -/
theorem run_attempt {ε : Type} (meaning : ε → CommandError) (x : StateM Disk (Except ε α)) (d : Disk) :
    (Invocation.attempt meaning x).run d = ((x d).1.mapError meaning, (x d).2) := by
  unfold Invocation.attempt
  rcases hx : x d with ⟨r, d₁⟩
  cases r with
  | error e =>
    simp only [ExceptT.run, ExceptT.mk, bind, StateT.bind, hx]
    rfl
  | ok a =>
    simp only [ExceptT.run, ExceptT.mk, bind, StateT.bind, hx]
    rfl

/-- The next step starts on the disk that the first one leaves. -/
theorem run_bind_ok {ε : Type} {x : ExceptT ε (StateM Disk) α} {a : α} (h : x.run d = (.ok a, d'))
    (f : α → ExceptT ε (StateM Disk) β) : (x >>= f).run d = (f a).run d' := by
  rw [ExceptT.run_bind]
  simp only [bind, StateT.bind, h]

/-- Behind an error nothing more is done. -/
theorem run_bind_error {ε : Type} {x : ExceptT ε (StateM Disk) α} {e : ε} (h : x.run d = (.error e, d'))
    (f : α → ExceptT ε (StateM Disk) β) : (x >>= f).run d = (.error e, d') := by
  rw [ExceptT.run_bind]
  simp only [bind, StateT.bind, h]
  rfl

/-- A failure that means something else to the command keeps away all the same. -/
theorem Away.attempt {ε : Type} {x : StateM Disk (Except ε α)} (hx : Away P x) (meaning : ε → CommandError) :
    Away P (Invocation.attempt meaning x).run := by
  intro d d' h
  have hxd := hx h
  rw [run_attempt, run_attempt]
  exact ⟨congrArg (·.mapError meaning) hxd.same, hxd.agree, hxd.spared, hxd.directories⟩

/-- Steps one after the other keep away if each of them does. -/
theorem Away.bind {ε : Type} {x : ExceptT ε (StateM Disk) α} {f : α → ExceptT ε (StateM Disk) β}
    (hx : Away P x.run) (hf : ∀ a, Away P (f a).run) : Away P (x >>= f).run := by
  intro d d' h
  have hxd := hx h
  rcases hr : x.run d with ⟨r, d₁⟩
  rcases hr' : x.run d' with ⟨r', d₁'⟩
  rw [hr, hr'] at hxd
  obtain rfl : r = r' := hxd.same
  cases r with
  | error e =>
    rw [run_bind_error hr, run_bind_error hr']
    exact ⟨rfl, hxd.agree, hxd.spared, hxd.directories⟩
  | ok a =>
    rw [run_bind_ok hr, run_bind_ok hr']
    exact hxd.trans (hf a hxd.agree)

/-- Writing a fragment keeps away from all places that are on none of its routes. -/
theorem away_writeFragment {dir : Text} {f : Fragment} (hdir : ∀ m ∈ route dir, ¬ P m)
    (hpixel : ∀ m ∈ route (f.pixelPath dir), ¬ P m) (huniforms : ∀ m ∈ route (f.uniformsPath dir), ¬ P m) :
    Away P (Invocation.writeFragment (hostWith store) dir f).run :=
  ((away_makeDirectories hdir).attempt .file).bind fun _ =>
    ((away_write hpixel f.pixel).attempt .file).bind fun _ =>
      (away_write huniforms f.uniforms).attempt .file

end

end Disk

end ShadeGraph
