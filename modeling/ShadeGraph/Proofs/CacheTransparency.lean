/-
  A cache makes no difference.

  1. Every entry of the table was stored by a job of the session, under the job's key (`Backed`).  A job that
     finds an entry agrees with the one that stored it, so that it would have generated the same files.
  2. A store that is lawful changes its own places only, and gives back what it was given.  So one run comes to
     the same with and without its cache, these places apart, and leaves a table that is backed (`run_backed`).
  3. By induction along the session so does every run.
-/
import ShadeGraph.Proofs.CacheStore
import ShadeGraph.Proofs.CommandSteps
import ShadeGraph.Proofs.FragmentCodec
import ShadeGraph.Proofs.Samples

namespace ShadeGraph

/-! ## Tables that jobs have filled -/

/-- The sources agree in all that a fragment depends on. -/
structure FragmentSource.Agrees (s s' : FragmentSource) : Prop where
  name : s.name = s'.name
  graph : s.graph = s'.graph
  options : s.options = s'.options
  api : s.api = s'.api
  samples : s.effectiveSamples = s'.effectiveSamples

/-- Jobs that a cache can serve: their keys tell them apart, and their fragments can be stored. -/
structure Servable (J : FragmentJob → Prop) : Prop where
  decoded : ∀ j, J j → Graph.decode j.source.graph = .ok j.graph
  agrees : ∀ j j', J j → J j' → j.source.key = j'.source.key → j.source.Agrees j'.source
  short : ∀ j f, J j → j.generate = .ok f → f.encode.length < 2 ^ 64

/-- Every entry of the table was stored by one of the jobs. -/
def FragmentTable.Backed (J : FragmentJob → Prop) (t : FragmentTable) : Prop :=
  ∀ e ∈ t.entries, ∃ j f, J j ∧ j.generate = .ok f ∧ e = (j.source.key, f.encode)

section

variable {J : FragmentJob → Prop} {j j' : FragmentJob} {f f' : Fragment} {t : FragmentTable}

theorem backed_empty : FragmentTable.empty.Backed J := fun e he => by cases he

/-- A fragment that a job has generated may be stored under the key of the job. -/
theorem FragmentTable.Backed.store (h : t.Backed J) (hj : J j) (hf : j.generate = .ok f) :
    (t.store j.source.key f).Backed J := by
  intro e he
  rcases List.mem_append.mp he with he | he
  · exact h e (List.mem_of_mem_filter he)
  · exact ⟨j, f, hj, hf, List.mem_singleton.mp he⟩

/-- Entries from two tables that are backed make one that is. -/
theorem FragmentTable.Backed.of_subset {u t' : FragmentTable} (h : t.Backed J) (h' : t'.Backed J)
    (hu : ∀ e ∈ u.entries, e ∈ t.entries ∨ e ∈ t'.entries) : u.Backed J :=
  fun e he => (hu e he).elim (h e) (h' e)

/-- Jobs with the same key generate the same. -/
theorem Servable.generate_eq (h : Servable J) (hj : J j) (hj' : J j') (hkey : j.source.key = j'.source.key) :
    j.generate = j'.generate := by
  have hagrees := h.agrees j j' hj hj' hkey
  have hgraph : j.graph = j'.graph := by
    have hdecoded := h.decoded j hj
    rw [hagrees.graph, h.decoded j' hj'] at hdecoded
    exact (Except.ok.inj hdecoded).symm
  exact FragmentJob.generate_congr hagrees.name hgraph hagrees.options hagrees.api hagrees.samples

/-- A fragment that is found has the files of the one that the job generates. -/
theorem FragmentTable.Backed.found (h : t.Backed J) (hJ : Servable J) (hj : J j)
    (hfound : t.fragment j.source.key = .ok f') : ∃ f, j.generate = .ok f ∧ f.SameFiles f' := by
  unfold fragment find? at hfound
  cases hentry : t.entries.find? (·.1 == j.source.key) with
  | none =>
    rw [hentry] at hfound
    cases hfound
  | some e =>
    have hkey : e.1 = j.source.key :=
      eq_of_beq (List.find?_some (p := fun e : Text × Text => e.1 == j.source.key) hentry)
    obtain ⟨j', f, hj', hf, rfl⟩ := h e (List.mem_of_find?_eq_some hentry)
    rw [hentry] at hfound
    simp only [Option.map_some] at hfound
    split at hfound
    · next hdecode =>
      cases hfound
      rw [← hJ.generate_eq hj' hj hkey, hf]
      exact ⟨f, rfl, Fragment.decode_encode_files (hJ.short j' f hj' hf) hdecode⟩
    · cases hfound

end

/-! ## One run -/

namespace Invocation

variable {store : LawfulStore} {J : FragmentJob → Prop} {i : Invocation} {d : Disk} {j : FragmentJob} {path : Text}
  {t : FragmentTable}

/-- Fragments with the same files are written alike. -/
theorem writeFragment_congr {f f' : Fragment} (h : f.SameFiles f') (dir : Text) :
    writeFragment (Disk.hostWith store) dir f' = writeFragment (Disk.hostWith store) dir f := by
  obtain ⟨hname, hpixel, huniforms⟩ := h
  unfold writeFragment Fragment.pixelPath Fragment.uniformsPath
  rw [hname, hpixel, huniforms]

/-- A cache gives what would have been generated, as far as files go.  It changes its own places only, and what
it opens with afterwards is backed. -/
theorem obtain_backed (hJ : Servable J) (hj : J j) (ht : t.Backed J) (hpath : path ≠ [])
    (hopen : (store.openCache path d).1 = some t) :
    ∃ r d' u, (obtain (Disk.hostWith store) path j).run d = (r, d') ∧ Disk.AgreeOff (store.owns path) d d' ∧
      (store.openCache path d').1 = some u ∧ u.Backed J ∧ ((∃ e, j.generate = .error e ∧ r = .error e) ∨
        ∃ f f', j.generate = .ok f ∧ r = .ok f' ∧ f.SameFiles f') := by
  have hopened : store.openCache path d = (some t, (store.openCache path d).2) := Prod.ext hopen rfl
  have hagree := store.openCache_agree path d
  have hreopen := store.reopens path d t hopen
  cases hfound : t.fragment j.source.key with
  | ok f' =>
    obtain ⟨f, hf, hsame⟩ := ht.found hJ hj hfound
    exact ⟨_, _, t, obtain_hit hpath hopened hfound, hagree, hreopen, ht, .inr ⟨f, f', hf, rfl, hsame⟩⟩
  | error c =>
    have hrun := obtain_miss hpath hopened hfound
    cases hf : j.generate with
    | error e =>
      rw [hf] at hrun
      exact ⟨_, _, t, hrun, hagree, hreopen, ht, .inl ⟨e, rfl, rfl⟩⟩
    | ok f =>
      rw [hf] at hrun
      -- what the store makes of the new entry is backed, whether it keeps it or not
      obtain ⟨u, hu, hentries⟩ := store.saves path d t (t.store j.source.key f) hopen
      refine ⟨_, _, u, hrun, hagree.trans (store.saveCache_agree path _ _), hu, ?_, ?_⟩
      · exact ht.of_subset (ht.store hj hf) hentries
      · exact .inr ⟨f, f, rfl, rfl, rfl, rfl, rfl⟩

/-- **One run.**  It comes to the same with its cache and without, the places of the cache apart, and the cache
opens with a table that is backed. -/
theorem run_backed (store : LawfulStore) (hJ : Servable J) (hjob : ∀ j, i.jobOn d = .ok j → J j) (ht : t.Backed J)
    (hcache : i.cache ≠ []) (hopen : (store.openCache i.cache d).1 = some t)
    (houtputs : ∀ p ∈ i.outputs, ∀ l ∈ Disk.route p, ¬ store.owns i.cache l) :
    ((i.runOn store d).1 = (i.uncached.runOn store d).1 ∧
      Disk.AgreeOff (store.owns i.cache) (i.runOn store d).2 (i.uncached.runOn store d).2) ∧
      ∃ u, (store.openCache i.cache (i.runOn store d).2).1 = some u ∧ u.Backed J := by
  cases hj : i.jobOn d with
  | error e =>
    rw [runOn_unread hj, runOn_unread (i := i.uncached) hj]
    exact ⟨⟨rfl, .refl _ d⟩, t, hopen, ht⟩
  | ok j =>
    obtain ⟨r, d', u, hrun, hagree, hu, hbacked, ⟨e, he, rfl⟩ | ⟨f, f', hf, rfl, hsame⟩⟩ :=
      obtain_backed hJ (hjob j hj) ht hcache hopen
    · rw [runOn_unmade hj hrun, runOn_unmade (i := i.uncached) hj (he ▸ obtain_nil store j d)]
      exact ⟨⟨rfl, hagree.symm⟩, u, hu, hbacked⟩
    · rw [runOn_made hj hrun, runOn_made (i := i.uncached) hj (hf ▸ obtain_nil store j d), writeFragment_congr hsame]
      -- the files are written away from the places of the cache, so it opens as before
      have haway : Disk.Away (store.owns i.cache) (writeFragment (Disk.hostWith store) i.out f).run :=
        away_outputs hj hf houtputs
      have halike := haway hagree.symm
      exact ⟨⟨halike.same, halike.agree⟩, u, store.steady _ _ _ u hu halike.spared halike.directories, hbacked⟩

end Invocation

/-! ## Sessions -/

/-- Runs one after the other that share a cache, which is empty at first.  Between two runs anything may happen
to the disk as long as the cache keeps its table. -/
structure Session (store : Disk.CacheStore) (path : Text) (steps : List (Disk × Invocation)) : Prop where
  shared : ∀ s ∈ steps, s.2.cache = path
  empty : ∀ s ∈ steps.head?, (store.openCache path s.1).1 = some .empty
  kept : steps.IsChain fun s s' =>
    (store.openCache path s'.1).1 = (store.openCache path (s.2.runOn store s.1).2).1

/-- The jobs of a session. -/
def sessionJobs (steps : List (Disk × Invocation)) (j : FragmentJob) : Prop :=
  ∃ s ∈ steps, s.2.jobOn s.1 = .ok j

/-- What runs leave behind is backed, so that each of them comes to the same with the cache and without. -/
theorem session_backed {store : LawfulStore} {J : FragmentJob → Prop} (hJ : Servable J) {path : Text}
    (hpath : path ≠ []) {steps : List (Disk × Invocation)} (hshared : ∀ s ∈ steps, s.2.cache = path)
    (hjobs : ∀ s ∈ steps, ∀ j, s.2.jobOn s.1 = .ok j → J j)
    (hfirst : ∀ s ∈ steps.head?, ∃ t, (store.openCache path s.1).1 = some t ∧ t.Backed J)
    (hkept : steps.IsChain fun s s' =>
      (store.openCache path s'.1).1 = (store.openCache path (s.2.runOn store s.1).2).1)
    (houtputs : ∀ s ∈ steps, ∀ p ∈ s.2.outputs, ∀ l ∈ Disk.route p, ¬ store.owns path l) :
    ∀ s ∈ steps, (s.2.runOn store s.1).1 = (s.2.uncached.runOn store s.1).1 ∧
      Disk.AgreeOff (store.owns path) (s.2.runOn store s.1).2 (s.2.uncached.runOn store s.1).2 := by
  induction steps with
  | nil => exact fun s hs => by cases hs
  | cons s steps ih =>
    obtain ⟨hcache, hshared⟩ := List.forall_mem_cons.mp hshared
    obtain ⟨hjob, hjobs⟩ := List.forall_mem_cons.mp hjobs
    obtain ⟨houtput, houtputs⟩ := List.forall_mem_cons.mp houtputs
    obtain ⟨t, hopen, ht⟩ := hfirst s rfl
    subst hcache
    obtain ⟨hsame, u, hu, hbacked⟩ := Invocation.run_backed store hJ hjob ht hpath hopen houtput
    obtain ⟨hnext, hkept⟩ := List.isChain_cons.mp hkept
    refine List.forall_mem_cons.mpr ⟨hsame, ih hshared hjobs ?_ hkept houtputs⟩
    -- The next run opens the table that this one leaves.
    intro s' hs'
    exact ⟨u, (hnext s' hs').trans hu, hbacked⟩

namespace Session

/-- **A cache makes no difference, whatever lawful store keeps it.**  If equal keys mean agreeing sources,
fragments fit into memory, and no output is or leads through a place that the store uses for the cache, then
every run of a session has the result that it would have without the cache, and leaves the same on the disk,
the places of the cache apart. -/
theorem runs_as_uncached {store : LawfulStore} {path : Text} {steps : List (Disk × Invocation)}
    (h : Session store path steps)
    (hkeys : ∀ j j', sessionJobs steps j → sessionJobs steps j' → j.source.key = j'.source.key →
      j.source.Agrees j'.source)
    (hshort : ∀ j f, sessionJobs steps j → j.generate = .ok f → f.encode.length < 2 ^ 64)
    (houtputs : ∀ s ∈ steps, ∀ p ∈ s.2.outputs, ∀ l ∈ Disk.route p, ¬ store.owns path l) :
    ∀ s ∈ steps, (s.2.runOn store s.1).1 = (s.2.uncached.runOn store s.1).1 ∧
      Disk.AgreeOff (store.owns path) (s.2.runOn store s.1).2 (s.2.uncached.runOn store s.1).2 := by
  by_cases hpath : path = []
  · -- without a path there is no cache
    intro s hs
    have hsame : s.2.uncached = s.2 := by rw [Invocation.uncached, ← hpath, ← h.shared s hs]
    rw [hsame]
    exact ⟨rfl, .refl _ _⟩
  · have hJ : Servable (sessionJobs steps) :=
      ⟨fun _ ⟨_, _, hj⟩ => (Invocation.jobOn_eq_ok hj).2, hkeys, hshort⟩
    refine session_backed hJ hpath h.shared (fun s hs j hj => ⟨s, hs, hj⟩) ?_ h.kept houtputs
    intro s hs
    exact ⟨.empty, h.empty s hs, backed_empty⟩

end Session

/-! ## A session with a cache in a file -/

/-- One run is a session if its cache opens empty. -/
theorem session_single {store : Disk.CacheStore} {path : Text} {d : Disk} {i : Invocation} (hcache : i.cache = path)
    (hempty : (store.openCache path d).1 = some .empty) : Session store path [(d, i)] where
  shared := List.forall_mem_singleton.mpr hcache
  empty := by
    intro s hs
    cases hs
    exact hempty
  kept := .singleton _

/-- Two runs, one right after the other. -/
theorem session_pair {store : Disk.CacheStore} {path : Text} {d : Disk} {i i' : Invocation} (hcache : i.cache = path)
    (hcache' : i'.cache = path) (hempty : (store.openCache path d).1 = some .empty) :
    Session store path [(d, i), ((i.runOn store d).2, i')] where
  shared := List.forall_mem_cons.mpr ⟨hcache, List.forall_mem_singleton.mpr hcache'⟩
  empty := by
    intro s hs
    cases hs
    exact hempty
  kept := .cons_cons rfl (.singleton _)

/-- The jobs of a session of two runs. -/
theorem sessionJobs_pair {d d' : Disk} {i i' : Invocation} {j : FragmentJob}
    (h : sessionJobs [(d, i), (d', i')] j) : i.jobOn d = .ok j ∨ i'.jobOn d' = .ok j := by
  obtain ⟨s, hs, hj⟩ := h
  rcases List.mem_cons.mp hs with rfl | hs
  · exact .inl hj
  · obtain rfl := List.mem_singleton.mp hs
    exact .inr hj

/-- A graph without nodes. -/
def plainGraph : Graph := ⟨"g", [], [], { Socket.blank with name := "out", type := .color3 }⟩

/-- An options file that asks for no samples of the environment. -/
def unsampledFile : Text := "[options]\nhw_specular_environment_method = \"none\""

/-- A disk with a graph and an options file. -/
def plainDisk : Disk := ⟨[(["g.cbor"], .file plainGraph.encode), (["o.toml"], .file unsampledFile)]⟩

/-- A request for the fragment of the graph. -/
def plainRequest (out cache : Text) (samples : Int64) : Invocation :=
  { graph := "g.cbor", options := "o.toml", out := out, cache := cache, samples := samples }

/-- The job of the request. -/
def plainJob (samples : Int64) : FragmentJob :=
  ⟨⟨"g", plainGraph.encode, { Options.standard with specular := .off }, .v2, samples⟩, plainGraph⟩

/-- The bytes of the graph are read as the graph. -/
theorem decode_plainGraph : Graph.decode plainGraph.encode = .ok plainGraph := by decide +kernel

section

variable {out cache : Text} {samples : Int64} {d : Disk}

/-- Every disk that has the two files gives the job. -/
theorem jobOn_plain (hgraph : d.entry? ["g.cbor"] = plainDisk.entry? ["g.cbor"])
    (hoptions : d.entry? ["o.toml"] = plainDisk.entry? ["o.toml"]) :
    (plainRequest out cache samples).jobOn d = .ok (plainJob samples) := by
  have hbytes : d.read "g.cbor" = .ok plainGraph.encode := by
    have hlocate : d.locate "g.cbor" = .ok ["g.cbor"] := rfl
    rw [Disk.read, Disk.status, hlocate]
    simp only [hgraph]
    rfl
  have hfile : d.read "o.toml" = .ok unsampledFile := by
    have hlocate : d.locate "o.toml" = .ok ["o.toml"] := rfl
    rw [Disk.read, Disk.status, hlocate]
    simp only [hoptions]
    rfl
  have hread : Options.ofFile unsampledFile = .ok { Options.standard with specular := .off } := by decide +kernel
  exact Invocation.jobOn_of_files (i := plainRequest out cache samples) (show ("g.cbor" : Text) ≠ [] by decide)
    (show ("o.toml" : Text) ≠ [] by decide) hbytes decode_plainGraph hfile hread

/-- The fragment is generated, and short. -/
theorem exists_generate_plain : ∃ f, (plainJob 0).generate = .ok f ∧ f.encode.length < 2 ^ 64 := by
  have hshort : ((plainJob 0).generate.toOption.any fun f => decide (f.encode.length < 2 ^ 64)) = true := by
    decide +kernel
  cases hf : (plainJob 0).generate with
  | error e =>
    rw [hf] at hshort
    cases hshort
  | ok f =>
    rw [hf, Except.toOption, Option.any_some] at hshort
    exact ⟨f, rfl, of_decide_eq_true hshort⟩

/-- No samples are drawn for the job, whatever is asked for. -/
theorem effectiveSamples_plain (samples : Int64) : (plainJob samples).source.effectiveSamples = 0 :=
  if_pos (show SpecularMethod.off ≠ .sampled by decide)

/-- The number of samples does not count where none are drawn. -/
theorem agrees_plain (samples samples' : Int64) : (plainJob samples).source.Agrees (plainJob samples').source :=
  ⟨rfl, rfl, rfl, rfl, (effectiveSamples_plain samples).trans (effectiveSamples_plain samples').symm⟩

/-- The jobs of this graph can serve each other. -/
theorem servable_plain : Servable fun j => ∃ samples, j = plainJob samples where
  decoded := by
    rintro _ ⟨samples, rfl⟩
    exact decode_plainGraph
  agrees := by
    rintro _ _ ⟨samples, rfl⟩ ⟨samples', rfl⟩ -
    exact agrees_plain samples samples'
  short := by
    rintro _ f ⟨samples, rfl⟩ hf
    obtain ⟨f', hf', hshort⟩ := exists_generate_plain
    have hsame : (plainJob samples).generate = (plainJob 0).generate :=
      FragmentJob.generate_congr rfl rfl rfl rfl (agrees_plain samples 0).samples
    rw [hsame, hf'] at hf
    cases hf
    exact hshort

/-- The cache of the request is out of the way of its outputs. -/
theorem outputs_plain (samples : Int64) :
    ∀ p ∈ (plainRequest Text.here "c" samples).outputs, ∀ l ∈ Disk.route p, l ∉ Disk.cachePlaces "c" := by
  have hfree : ∀ p ∈ (plainRequest Text.here "c" 0).outputs, ∀ l ∈ Disk.route p, l ∉ Disk.cachePlaces "c" := by
    decide
  exact hfree

/-- The request leaves the graph and the options file as they are. -/
theorem entry?_runOn_plain {m : Location} (hm : m = ["g.cbor"] ∨ m = ["o.toml"]) :
    Disk.entry? ((plainRequest Text.here "c" 0).runOn Disk.fileStore plainDisk).2 m = plainDisk.entry? m := by
  have hjob (j : FragmentJob) (hj : (plainRequest Text.here "c" 0).jobOn plainDisk = .ok j) :
      ∃ samples, j = plainJob samples := by
    rw [jobOn_plain rfl rfl] at hj
    cases hj
    exact ⟨0, rfl⟩
  have hrun := Invocation.run_backed .file servable_plain hjob backed_empty (show ("c" : Text) ≠ [] by decide)
    (by decide +kernel) (outputs_plain 0)
  have hother : m ∉ Disk.cachePlaces "c" := by
    rcases hm with rfl | rfl <;> decide
  have hfree : ∀ p ∈ (plainRequest Text.here "c" 0).outputs, m ∉ Disk.route p := by
    rcases hm with rfl | rfl <;> decide
  exact (hrun.1.2 m hother).trans (Invocation.entry?_runOn_uncached hfree)

end

/-- Two requests one after the other, of which the second asks for other samples. -/
def plainSession : List (Disk × Invocation) :=
  [(plainDisk, plainRequest Text.here "c" 0),
    (((plainRequest Text.here "c" 0).runOn Disk.fileStore plainDisk).2, plainRequest Text.here "c" 9)]

theorem session_plain : Session Disk.fileStore "c" plainSession :=
  session_pair rfl rfl (by decide +kernel)

/-- The jobs of the session differ in the number of samples only. -/
theorem sessionJobs_plain {j : FragmentJob} (h : sessionJobs plainSession j) : ∃ samples, j = plainJob samples := by
  rcases sessionJobs_pair h with hj | hj
  · rw [jobOn_plain rfl rfl] at hj
    cases hj
    exact ⟨0, rfl⟩
  · rw [jobOn_plain (entry?_runOn_plain (.inl rfl)) (entry?_runOn_plain (.inr rfl))] at hj
    cases hj
    exact ⟨9, rfl⟩

theorem Session.runs_as_uncached_resampled : Session LawfulStore.file "c" plainSession ∧
    ∀ s ∈ plainSession, (s.2.runOn LawfulStore.file s.1).1 = (s.2.uncached.runOn LawfulStore.file s.1).1 ∧
      Disk.AgreeOff (LawfulStore.file.owns "c") (s.2.runOn LawfulStore.file s.1).2
        (s.2.uncached.runOn LawfulStore.file s.1).2 := by
  have hsession : Session LawfulStore.file "c" plainSession := session_plain
  refine ⟨hsession, hsession.runs_as_uncached ?_ ?_ ?_⟩
  · intro j j' hj hj'
    exact servable_plain.agrees j j' (sessionJobs_plain hj) (sessionJobs_plain hj')
  · intro j f hj
    exact servable_plain.short j f (sessionJobs_plain hj)
  · exact List.forall_mem_cons.mpr ⟨outputs_plain 0, List.forall_mem_singleton.mpr (outputs_plain 9)⟩

/-- Without its cache the request makes a directory for its files. -/
theorem runOn_plain_directory : ((plainRequest "x" "x" 0).uncached.runOn Disk.fileStore plainDisk).1 = .ok () := by
  obtain ⟨f, hf, -⟩ := exists_generate_plain
  have hjob : (plainRequest "x" "x" 0).uncached.jobOn plainDisk = .ok (plainJob 0) := jobOn_plain rfl rfl
  have hname : f.name = "g" := FragmentJob.name_of_generate hf
  rw [Invocation.runOn_made hjob (hf ▸ Invocation.obtain_nil _ _ _)]
  have hmade : plainDisk.makeDirectories "x" = (.ok (), plainDisk.set ["x"] .directory) := rfl
  have hpixel : (plainDisk.set ["x"] .directory).write (f.pixelPath "x") f.pixel =
      .ok ((plainDisk.set ["x"] .directory).set ["x", "g.glsl"] (.file f.pixel)) := by
    rw [Fragment.pixelPath, hname]
    rfl
  have huniforms : ((plainDisk.set ["x"] .directory).set ["x", "g.glsl"] (.file f.pixel)).write
      (f.uniformsPath "x") f.uniforms =
      .ok (((plainDisk.set ["x"] .directory).set ["x", "g.glsl"] (.file f.pixel)).set
        ["x", "g_uniforms.glsl"] (.file f.uniforms)) := by
    rw [Fragment.uniformsPath, hname]
    rfl
  exact congrArg Prod.fst (Invocation.writeFragment_ok hmade hpixel huniforms)

/-- With the cache in place of the directory it cannot. -/
theorem runOn_plain_blocked : ((plainRequest "x" "x" 0).runOn Disk.fileStore plainDisk).1 =
    .error (.file ⟨.makingDirectory, "x", .notDirectory⟩) := by
  obtain ⟨f, hf, -⟩ := exists_generate_plain
  have hjob : (plainRequest "x" "x" 0).jobOn plainDisk = .ok (plainJob 0) := jobOn_plain rfl rfl
  have hopen : Disk.fileStore.openCache "x" plainDisk = (some .empty, plainDisk.set ["x"] (.cache .empty)) := rfl
  have hobtain := Invocation.obtain_miss (j := plainJob 0) (by decide) hopen rfl
  rw [hf] at hobtain
  rw [Invocation.runOn_made hjob hobtain]
  -- The path leads to the cache, whatever its table is.
  have hmade (t : FragmentTable) : (Disk.saveCache (plainDisk.set ["x"] (.cache .empty)) "x" t).makeDirectories "x" =
      (.error ⟨.makingDirectory, "x", .notDirectory⟩,
        Disk.saveCache (plainDisk.set ["x"] (.cache .empty)) "x" t) := rfl
  exact congrArg Prod.fst (Invocation.writeFragment_error (hmade _))

/-- **A cache in the way.**  A session in which the directory for the files is the path of the cache: the run
fails with the cache and not without it. -/
theorem Session.cache_in_the_way : Session Disk.fileStore "x" [(plainDisk, plainRequest "x" "x" 0)] ∧
    (∀ j j', sessionJobs [(plainDisk, plainRequest "x" "x" 0)] j →
      sessionJobs [(plainDisk, plainRequest "x" "x" 0)] j' → j.source.key = j'.source.key →
      j.source.Agrees j'.source) ∧
    (∀ j f, sessionJobs [(plainDisk, plainRequest "x" "x" 0)] j → j.generate = .ok f →
      f.encode.length < 2 ^ 64) ∧
    ((plainRequest "x" "x" 0).runOn Disk.fileStore plainDisk).1 = .error (.file ⟨.makingDirectory, "x", .notDirectory⟩) ∧
    ((plainRequest "x" "x" 0).uncached.runOn Disk.fileStore plainDisk).1 = .ok () := by
  have hjobs (j : FragmentJob) (h : sessionJobs [(plainDisk, plainRequest "x" "x" 0)] j) :
      ∃ samples, j = plainJob samples := by
    obtain ⟨s, hs, hj⟩ := h
    obtain rfl := List.mem_singleton.mp hs
    rw [jobOn_plain rfl rfl] at hj
    cases hj
    exact ⟨0, rfl⟩
  refine ⟨session_single rfl (by decide +kernel), ?_, ?_, runOn_plain_blocked, runOn_plain_directory⟩
  · intro j j' hj hj'
    exact servable_plain.agrees j j' (hjobs j hj) (hjobs j' hj')
  · intro j f hj
    exact servable_plain.short j f (hjobs j hj)

end ShadeGraph
