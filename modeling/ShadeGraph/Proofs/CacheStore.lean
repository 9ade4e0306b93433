/-
  Stores that caches can rely on.

  The database behind a cache is no part of this library.  What it does to a disk is known by laws.

  1. A `LawfulStore` uses some places for the cache at a path: its file, and the files beside it.  It changes no
     others, opens a cache with the table that it left there, and makes no entry up.
  2. A store that keeps a table in one file is lawful (`LawfulStore.file`).  It uses that file and the two places
     beside it.
-/
import ShadeGraph.Proofs.DiskRoutes

namespace ShadeGraph

/-- A store for caches, with what is known of it. -/
structure LawfulStore extends Disk.CacheStore where
  /-- The places that are used for the cache at a path.  A cache in memory needs none. -/
  owns : Text → Location → Prop
  /-- Opening a cache changes no other place: a database works in its own file and in files that it names
  after that one. -/
  openCache_agree : ∀ path d, Disk.AgreeOff (owns path) d (openCache path d).2
  /-- Keeping a table changes no other place. -/
  saveCache_agree : ∀ path t d, Disk.AgreeOff (owns path) d (saveCache path t d)
  /-- A cache opens with its table as long as its places stay as they are and no directory is taken away: the
  table is read from these places, and the directories lead to them. -/
  steady : ∀ path d d' t, (openCache path d).1 = some t → (∀ l, owns path l → d'.entry? l = d.entry? l) →
    (∀ l, d.entry? l = some .directory → d'.entry? l = some .directory) → (openCache path d').1 = some t
  /-- A cache that was opened opens with the same table again. -/
  reopens : ∀ path d t, (openCache path d).1 = some t → (openCache path (openCache path d).2).1 = some t
  /-- What an opened cache holds after a table was to be kept is from that table or was there before.  Keeping
  it may fail, and a cache in memory forgets it. -/
  saves : ∀ path d t t', (openCache path d).1 = some t →
    ∃ u, (openCache path (saveCache path t' (openCache path d).2)).1 = some u ∧
      ∀ e ∈ u.entries, e ∈ t.entries ∨ e ∈ t'.entries

instance : Coe LawfulStore Disk.CacheStore := ⟨LawfulStore.toCacheStore⟩

namespace Disk

/-! ## The place of a cache -/

/-- A path that is followed to its end leads where its elements do, whatever the disk is. -/
theorem follow_eq_foldl {d : Disk} {es : List Text} {here m : Location} (h : d.follow here es = .ok m) :
    m = es.foldl next here := by
  induction es generalizing here with
  | nil => exact (Except.ok.inj h).symm
  | cons e es ih =>
    rw [follow_directory (entry?_of_follow h)] at h
    split at h
    · cases h
    · exact ih h

/-- The place that the name of a cache leads to. -/
def cachePlace (path : Text) : Location :=
  let name := Text.clean (cacheName path)
  (Text.splitOn Text.slash name).foldl next (startOf name)

/-- The places that are used for the cache at a path. -/
def cachePlaces (path : Text) : List Location :=
  if cacheName path = Host.memoryCache then [] else cachePlace path :: sidePlaces (cachePlace path)

section

variable {path : Text} {d d' : Disk} {l : Location} {t u : FragmentTable}

/-- Where a cache can be located, the place depends on its path alone. -/
theorem locateCache_eq (h : d.locateCache path = some l) : l = cachePlace path := by
  unfold locateCache locate at h
  split at h
  · cases h
  · split at h
    · cases h
    · cases hfollow : d.follow (startOf (Text.clean (cacheName path)))
        (Text.splitOn Text.slash (Text.clean (cacheName path))) with
      | error c =>
        rw [startOf] at hfollow
        rw [hfollow] at h
        cases h
      | ok m =>
        have hm := follow_eq_foldl hfollow
        rw [startOf] at hfollow
        rw [hfollow] at h
        exact (Option.some.inj h).symm.trans hm

/-- A cache stays where it is when directories are added. -/
theorem locateCache_mono (h : ∀ m, d.entry? m = some .directory → d'.entry? m = some .directory)
    (hl : d.locateCache path = some l) : d'.locateCache path = some l := by
  unfold locateCache at hl ⊢
  cases hlocate : d.locate (Text.clean (cacheName path)) with
  | error c =>
    rw [hlocate] at hl
    cases hl
  | ok m =>
    rw [hlocate] at hl
    rw [locate_mono h hlocate]
    exact hl

/-- The name of a place beside a cache is longer than that of the cache. -/
theorem not_mem_sidePlaces (l : Location) : l ∉ sidePlaces l := by
  intro hl
  obtain ⟨suffix, hsuffix, heq⟩ := List.mem_map.mp hl
  have hpositive : ∀ t ∈ sideSuffixes, 0 < t.length := by decide
  have hlength := congrArg (fun m : Location => (m.getLastD []).length) heq
  simp only [List.getLastD_concat, List.length_append] at hlength
  have := hpositive suffix hsuffix
  omega

/-! ## Clearing places -/

/-- Clearing places removes what stands at them, the given directories aside. -/
theorem entry?_clear (d : Disk) (places : List Location) (m : Location) :
    Disk.entry? (d.clear places) m =
      if isGiven m = true then some .directory else if m ∈ places then none else d.entry? m := by
  rw [ entry?, clear]
  split
  · rfl
  · next hgiven =>
    rw [ entry?, if_neg hgiven, List.find?_filter]
    split
    · next hm =>
      rw [Option.map_eq_none_iff, List.find?_eq_none]
      intro e _
      simp only [decide_eq_true_eq, Bool.not_eq_true', List.contains_eq_mem, decide_eq_false_iff_not, beq_iff_eq]
      rintro ⟨hfree, rfl⟩
      exact hfree hm
    · next hm =>
      congr 1
      refine congrArg (fun p => d.entries.find? p) (funext fun e => ?_)
      by_cases heq : e.1 = m
      · simp [heq, hm]
      · simp [heq]

/-- Places that hold no directory can be cleared without one being taken away. -/
theorem directory_clear {places : List Location} (h : ∀ m ∈ places, d.entry? m ≠ some .directory) {m : Location}
    (hm : d.entry? m = some .directory) : Disk.entry? (d.clear places) m = some .directory := by
  rw [entry?_clear]
  split
  · rfl
  · rw [if_neg fun hmem => h m hmem hm, hm]

/-- Clearing places changes nothing beside them. -/
theorem agreeOff_clear {P : Location → Prop} {places : List Location} (h : ∀ m ∈ places, P m) (d : Disk) :
    AgreeOff P d (d.clear places) := by
  intro m hm
  rw [entry?_clear, if_neg fun hmem => hm (h m hmem)]
  split
  · next hgiven => rw [ entry?, if_pos hgiven]
  · rfl

/-! ## Caches in files -/

/-- The file of the cache at a path can be opened, and gives a table. -/
structure Opens (path : Text) (d : Disk) (l : Location) (t : FragmentTable) : Prop where
  named : cacheName path ≠ Host.memoryCache
  place : d.locateCache path = some l
  sides : ∀ m ∈ sidePlaces l, d.entry? m ≠ some .directory
  table : tableIn (d.entry? l) = some t

/-- What opening a file comes to. -/
theorem Opens.openCache (h : Opens path d l t) :
    d.openCache path = (some t, (d.clear (sidePlaces l)).set l (.cache t)) := by
  have hsides : ¬ ((sidePlaces l).any fun m => d.entry? m == some .directory) = true := by
    rw [List.any_eq_true]
    rintro ⟨m, hm, heq⟩
    exact h.sides m hm (eq_of_beq heq)
  rw [Disk.openCache, if_neg h.named, h.place]
  simp only [if_neg hsides, h.table]

/-- A cache that opens is in memory and empty, or in a file. -/
theorem openCache_cases (h : (d.openCache path).1 = some t) :
    (cacheName path = Host.memoryCache ∧ t = .empty) ∨ ∃ l, Opens path d l t := by
  rw [Disk.openCache] at h
  split at h
  · next hmemory => exact .inl ⟨hmemory, (Option.some.inj h).symm⟩
  · next hnamed =>
    split at h
    · cases h
    · next l hl =>
      split at h
      · cases h
      · next hsides =>
        split at h
        · cases h
        · next u hu =>
          refine .inr ⟨l, hnamed, hl, fun m hm heq => hsides ?_, Option.some.inj h ▸ hu⟩
          exact List.any_eq_true.mpr ⟨m, hm, beq_iff_eq.mpr heq⟩

theorem openCache_memory (h : cacheName path = Host.memoryCache) (d : Disk) : d.openCache path = (some .empty, d) := by
  rw [Disk.openCache, if_pos h]

theorem Opens.saveCache (h : Opens path d l t) (u : FragmentTable) : d.saveCache path u = d.set l (.cache u) := by
  rw [Disk.saveCache, if_neg h.named, h.place]

/-- No directory is where the file of a cache is. -/
theorem Opens.no_directory (h : Opens path d l t) : d.entry? l ≠ some .directory := by
  intro hdirectory
  have htable := h.table
  rw [hdirectory] at htable
  cases htable

/-- Without what stands beside it, a cache opens as before. -/
theorem Opens.clear (h : Opens path d l t) : Opens path (d.clear (sidePlaces l)) l t where
  named := h.named
  place := locateCache_mono (fun _ hm => directory_clear h.sides hm) h.place
  sides m hm hdirectory := by
    have hgiven : ¬ isGiven m = true := fun hgiven => h.sides m hm (by rw [ entry?, if_pos hgiven])
    rw [entry?_clear, if_neg hgiven, if_pos hm] at hdirectory
    cases hdirectory
  table := by
    have hgiven : ¬ isGiven l = true := fun hgiven => h.no_directory (by rw [ entry?, if_pos hgiven])
    rw [entry?_clear, if_neg hgiven, if_neg (not_mem_sidePlaces l)]
    exact h.table

/-- With another table in its file, a cache opens with that. -/
theorem Opens.set (h : Opens path d l t) (u : FragmentTable) : Opens path (d.set l (.cache u)) l u where
  named := h.named
  place := locateCache_mono (fun _ hm => directory_set h.no_directory hm _) h.place
  sides m hm := by
    have hne : m ≠ l := by
      rintro rfl
      exact not_mem_sidePlaces m hm
    rw [entry?_set_of_ne hne]
    exact h.sides m hm
  table := by rw [entry?_set_self h.no_directory]; rfl

/-- A cache opens with its table on every disk with the same at its places, if no directory is missing. -/
theorem Opens.steady (h : Opens path d l t) (hplaces : ∀ m ∈ cachePlaces path, d'.entry? m = d.entry? m)
    (hdirectories : ∀ m, d.entry? m = some .directory → d'.entry? m = some .directory) : Opens path d' l t := by
  obtain rfl := locateCache_eq h.place
  rw [cachePlaces, if_neg h.named] at hplaces
  obtain ⟨hplace, hsides⟩ := List.forall_mem_cons.mp hplaces
  exact ⟨h.named, locateCache_mono hdirectories h.place, fun m hm => hsides m hm ▸ h.sides m hm,
    hplace ▸ h.table⟩

/-- The file of a cache and what stands beside it are among the places of the cache. -/
theorem mem_cachePlaces (hnamed : cacheName path ≠ Host.memoryCache) (hl : d.locateCache path = some l) :
    l ∈ cachePlaces path ∧ ∀ m ∈ sidePlaces l, m ∈ cachePlaces path := by
  obtain rfl := locateCache_eq hl
  rw [cachePlaces, if_neg hnamed]
  exact ⟨List.mem_cons_self, fun m hm => List.mem_cons_of_mem _ hm⟩

/-- Opening a cache changes only the places that are the cache's. -/
theorem agreeOff_openCache (path : Text) (d : Disk) :
    AgreeOff (· ∈ cachePlaces path) d (d.openCache path).2 := by
  rw [Disk.openCache]
  split
  · exact .refl _ d
  · next hnamed =>
    split
    · exact .refl _ d
    · next l hl =>
      obtain ⟨hplace, hsides⟩ := mem_cachePlaces hnamed hl
      split
      · -- a directory is in the way
        dsimp only
        split
        · exact agreeOff_set (P := (· ∈ cachePlaces path)) hplace d _
        · exact .refl _ d
      · split
        · exact .refl _ d
        · exact (agreeOff_clear hsides d).trans (agreeOff_set (P := (· ∈ cachePlaces path)) hplace _ _)

/-- Saving a cache changes only the places that are the cache's. -/
theorem agreeOff_saveCache (path : Text) (t : FragmentTable) (d : Disk) :
    AgreeOff (· ∈ cachePlaces path) d (d.saveCache path t) := by
  rw [Disk.saveCache]
  split
  · exact .refl _ d
  · next hnamed =>
    split
    · exact .refl _ d
    · next l hl => exact agreeOff_set (P := (· ∈ cachePlaces path)) (mem_cachePlaces hnamed hl).1 d _

end

end Disk

/-- **A store that keeps every cache in a file of its own is lawful.** -/
def LawfulStore.file : LawfulStore where
  toCacheStore := Disk.fileStore
  owns path l := l ∈ Disk.cachePlaces path
  openCache_agree path d := Disk.agreeOff_openCache path d
  saveCache_agree path t d := Disk.agreeOff_saveCache path t d
  steady path d d' t h hplaces hdirectories := by
    obtain ⟨hmemory, rfl⟩ | ⟨l, hopens⟩ := Disk.openCache_cases h
    · exact congrArg Prod.fst (Disk.openCache_memory hmemory d')
    · exact congrArg Prod.fst (hopens.steady hplaces hdirectories).openCache
  reopens path d t h := by
    obtain ⟨hmemory, rfl⟩ | ⟨l, hopens⟩ := Disk.openCache_cases h
    · exact congrArg Prod.fst (Disk.openCache_memory hmemory _)
    · show (Disk.openCache (d.openCache path).2 path).1 = some t
      rw [hopens.openCache]
      exact congrArg Prod.fst (hopens.clear.set t).openCache
  saves path d t t' h := by
    obtain ⟨hmemory, rfl⟩ | ⟨l, hopens⟩ := Disk.openCache_cases h
    · exact ⟨.empty, congrArg Prod.fst (Disk.openCache_memory hmemory _), fun e he => by cases he⟩
    · refine ⟨t', ?_, fun e he => .inr he⟩
      show (Disk.openCache (Disk.saveCache (d.openCache path).2 path t') path).1 = some t'
      rw [hopens.openCache, (hopens.clear.set t).saveCache]
      exact congrArg Prod.fst ((hopens.clear.set t).set t').openCache

end ShadeGraph
