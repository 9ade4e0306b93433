/-
  The steps of a command on a disk.

  1. A fragment has the name of its job, and a job the name and the graph of its invocation.
  2. Reading the files of an invocation leaves the disk as it is (`run_prepare`).
  3. A fragment is generated without a cache (`obtain_nil`); with one it is taken from the table (`obtain_hit`),
     or generated and stored (`obtain_miss`).  What keeps the table makes a difference here only.
-/
import ShadeGraph.Proofs.DiskRoutes
import ShadeGraph.Proofs.Generation

namespace ShadeGraph

/-! ## What a job generates -/

/-- A shader has the name that was asked for. -/
theorem FragmentGenerator.name_of_generate (g : FragmentGenerator) {name : Text} {graph : Option Graph}
    {o : Options} {samples : SampleSetting} {s : Shader}
    (h : (g.generate name graph (g.contextWith o samples)).1 = .ok s) : s.name = name := by
  rcases g.createShader_cases name graph o samples with
    ⟨gr, _, _, made, v, hcreated, hcreate⟩ | ⟨_, e, hcreate, _⟩
  · by_cases hmethod : o.specular ∈ litMethods
    · obtain ⟨front, includes, _, hok⟩ := generate_ok hcreated hcreate hmethod
      rw [hok] at h
      cases h
      rfl
    · rw [generate_error hcreated hcreate hmethod] at h
      cases h
  · rw [generate_of_createShader_error hcreate] at h
    cases h

/-- A fragment has the name of its shader. -/
theorem Fragment.name_of_ofShader {g : FragmentGenerator} {s : Shader} {c : Context} {f : Fragment}
    (h : ofShader g s c = .ok f) : f.name = s.name := by
  unfold ofShader at h
  split at h
  · split at h
    · cases h
    · cases h
      rfl
  · cases h

namespace FragmentJob

/-- The fragment of a job has its name. -/
theorem name_of_generate {j : FragmentJob} {f : Fragment} (h : j.generate = .ok f) : f.name = j.source.name := by
  have hcontext : ∃ samples, j.context = j.generator.contextWith j.source.options samples := by
    unfold context
    split
    · exact ⟨_, rfl⟩
    · exact ⟨.absent, rfl⟩
  obtain ⟨samples, hcontext⟩ := hcontext
  unfold generate at h
  rw [hcontext] at h
  split at h
  · cases h
  · next s c hs =>
    have hname : s.name = j.source.name :=
      j.generator.name_of_generate (congrArg Prod.fst hs)
    split at h
    · cases h
    · next hf =>
      cases h
      exact (Fragment.name_of_ofShader hf).trans hname

end FragmentJob

namespace Invocation

/-- What comes of an invocation on a disk whose caches a store keeps. -/
def runOn (store : Disk.CacheStore) (i : Invocation) (d : Disk) : Except CommandError Unit × Disk :=
  (i.run (Disk.hostWith store)).run d

/-- The job that an invocation reads from a disk; no cache has a part in that. -/
def jobOn (i : Invocation) (d : Disk) : Except CommandError FragmentJob := ((i.prepare Disk.host).run d).1

/-- The invocation without its cache. -/
def uncached (i : Invocation) : Invocation := { i with cache := [] }

/-- The directory and the files that an invocation writes. -/
def outputs (i : Invocation) : List Text :=
  [i.out, Text.below i.out (i.fragmentName ++ ".glsl"), Text.below i.out (i.fragmentName ++ "_uniforms.glsl")]

variable {store : Disk.CacheStore} {i : Invocation} {d d₁ : Disk} {j : FragmentJob} {path : Text} {t : FragmentTable}

section

variable {ε α β : Type}

/-- A step that leaves the disk as it is. -/
def Reads (x : ExceptT ε (StateM Disk) α) : Prop := ∀ d, (x.run d).2 = d

/-- Steps that leave the disk as it is do so one after the other. -/
theorem Reads.bind {x : ExceptT ε (StateM Disk) α} {f : α → ExceptT ε (StateM Disk) β} (hx : Reads x)
    (hf : ∀ a, Reads (f a)) : Reads (x >>= f) := by
  intro d
  have hd := hx d
  rcases hr : x.run d with ⟨r, d₁⟩
  rw [hr] at hd
  obtain rfl : d₁ = d := hd
  cases r with
  | error e => rw [Disk.run_bind_error hr]
  | ok a => rw [Disk.run_bind_ok hr, hf a]

/-- A step of the host that leaves the disk is one of the command. -/
theorem reads_attempt {x : StateM Disk (Except ε α)} (hx : ∀ d, (x d).2 = d) (meaning : ε → CommandError) :
    Reads (attempt meaning x) := by
  intro d
  rw [Disk.run_attempt]
  exact hx d

/-- A step that gives a result after steps that do. -/
theorem run_bind_eq_ok {x : ExceptT ε (StateM Disk) α} {f : α → ExceptT ε (StateM Disk) β} {b : β} {d : Disk}
    (h : ((x >>= f).run d).1 = .ok b) :
    ∃ a d', x.run d = (.ok a, d') ∧ ((f a).run d').1 = .ok b := by
  rcases hr : x.run d with ⟨r, d'⟩
  cases r with
  | error e =>
    rw [Disk.run_bind_error hr] at h
    cases h
  | ok a => exact ⟨a, d', rfl, by rwa [Disk.run_bind_ok hr] at h⟩

/-- A step of the command succeeds only if the host does. -/
theorem attempt_eq_ok {x : StateM Disk (Except ε α)} {meaning : ε → CommandError} {a : α} {d d' : Disk}
    (h : (attempt meaning x).run d = (.ok a, d')) : (x d).1 = .ok a := by
  rw [Disk.run_attempt] at h
  cases hx : (x d).1 with
  | error e =>
    rw [hx] at h
    cases h
  | ok b =>
    rw [hx] at h
    cases h
    rfl

theorem run_attempt_ok {x : StateM Disk (Except ε α)} {a : α} {d : Disk} (h : (x d).1 = .ok a)
    (meaning : ε → CommandError) : (attempt meaning x).run d = (.ok a, (x d).2) := by
  rw [Disk.run_attempt, h]
  rfl

end

/-- Reading the options changes nothing, be it from a file or the usual ones. -/
theorem reads_readOptions (i : Invocation) : Reads (i.readOptions (Disk.hostWith store)) := by
  unfold readOptions
  split
  · exact fun d => rfl
  · exact (reads_attempt (fun d => rfl) _).bind fun bytes => reads_attempt (fun d => rfl) _

/-- Reading the files of an invocation leaves the disk as it is. -/
theorem reads_prepare (i : Invocation) : Reads (i.prepare (Disk.hostWith store)) := by
  unfold prepare
  split
  · exact fun d => rfl
  · refine (reads_attempt (fun d => rfl) _).bind fun bytes => ?_
    refine (reads_attempt (fun d => rfl) _).bind fun graph => ?_
    exact (reads_readOptions i).bind fun options d => rfl

/-- Whichever store there is, an invocation reads its job from the disk and leaves the disk as it is. -/
theorem run_prepare (store : Disk.CacheStore) (i : Invocation) (d : Disk) :
    (i.prepare (Disk.hostWith store)).run d = (i.jobOn d, d) :=
  Prod.ext rfl (reads_prepare i d)

/-- A job has the name that its invocation gives it, and the graph that its bytes encode. -/
theorem jobOn_eq_ok (h : i.jobOn d = .ok j) :
    j.source.name = i.fragmentName ∧ Graph.decode j.source.graph = .ok j.graph := by
  unfold jobOn prepare at h
  split at h
  · cases h
  · obtain ⟨bytes, d₁, hbytes, h⟩ := run_bind_eq_ok h
    obtain ⟨graph, d₂, hgraph, h⟩ := run_bind_eq_ok h
    obtain ⟨options, d₃, hoptions, h⟩ := run_bind_eq_ok h
    cases h
    exact ⟨rfl, attempt_eq_ok hgraph⟩

/-- The job that is read from the files. -/
theorem jobOn_of_files {bytes file : Text} {graph : Graph} {options : Options} (hgraph : i.graph ≠ [])
    (hoptions : i.options ≠ []) (hbytes : d.read i.graph = .ok bytes) (hdecode : Graph.decode bytes = .ok graph)
    (hfile : d.read i.options = .ok file) (hread : Options.ofFile file = .ok options) :
    i.jobOn d = .ok ⟨⟨i.fragmentName, bytes, options, i.api, i.samples⟩, graph⟩ := by
  have hstep : (attempt .file (Disk.host.read i.graph)).run d = (.ok bytes, d) :=
    run_attempt_ok hbytes _
  have hstep' : (attempt .graph (pure (Graph.decode bytes) : StateM Disk _)).run d = (.ok graph, d) :=
    run_attempt_ok hdecode _
  have hoption : (i.readOptions Disk.host).run d = (.ok options, d) := by
    have hopened : (attempt .optionsFile (Disk.host.read i.options)).run d = (.ok file, d) :=
      run_attempt_ok hfile _
    unfold readOptions
    rw [if_neg hoptions, Disk.run_bind_ok hopened]
    exact run_attempt_ok hread _
  unfold jobOn prepare
  rw [if_neg hgraph]
  dsimp only
  rw [Disk.run_bind_ok hstep, Disk.run_bind_ok hstep', Disk.run_bind_ok hoption]
  rfl

/-- Generating has nothing to do with the disk. -/
theorem run_generate (j : FragmentJob) (d : Disk) :
    (attempt id (pure j.generate : StateM Disk (Except CommandError Fragment))).run d = (j.generate, d) := by
  rw [Disk.run_attempt]
  show (j.generate.mapError id, d) = _
  cases j.generate <;> rfl

/-- Without a cache, the fragment is generated. -/
theorem obtain_nil (store : Disk.CacheStore) (j : FragmentJob) (d : Disk) :
    (obtain (Disk.hostWith store) [] j).run d = (j.generate, d) := by
  unfold obtain
  rw [if_pos rfl, run_generate]

/-- A cache that opens is handed on with its table. -/
theorem run_openCache (hopen : store.openCache path d = (some t, d₁)) :
    (liftM ((Disk.hostWith store).openCache path) : ExceptT CommandError (StateM Disk) _).run d =
      (.ok (some t), d₁) := by
  show ((Except.ok (store.openCache path d).1 : Except CommandError _), (store.openCache path d).2) = _
  rw [hopen]

section

variable (hpath : path ≠ []) (hopen : store.openCache path d = (some t, d₁))
include hpath hopen

/-- A fragment that the table has is taken from there. -/
theorem obtain_hit {f : Fragment} (hfound : t.fragment j.source.key = .ok f) :
    (obtain (Disk.hostWith store) path j).run d = (.ok f, d₁) := by
  unfold obtain
  rw [if_neg hpath, Disk.run_bind_ok (run_openCache hopen)]
  simp only [hfound]
  rfl

/-- One that it does not have, or that cannot be read, is generated and stored. -/
theorem obtain_miss {c : CacheError} (hmissing : t.fragment j.source.key = .error c) :
    (obtain (Disk.hostWith store) path j).run d =
      (j.generate, (j.generate.toOption.map fun f => store.saveCache path (t.store j.source.key f) d₁).getD d₁) := by
  unfold obtain
  rw [if_neg hpath, Disk.run_bind_ok (run_openCache hopen)]
  simp only [hmissing]
  have hgenerate := run_generate j d₁
  cases hf : j.generate with
  | error e =>
    rw [hf] at hgenerate
    rw [Disk.run_bind_error hgenerate]
    rfl
  | ok f =>
    rw [hf] at hgenerate
    rw [Disk.run_bind_ok hgenerate]
    rfl

end

/-! ## The whole run -/

section

variable {e : CommandError} {f : Fragment}

/-- Files that cannot be read end a run, and nothing has happened. -/
theorem runOn_unread (hj : i.jobOn d = .error e) : i.runOn store d = (.error e, d) :=
  Disk.run_bind_error (hj ▸ run_prepare store i d) _

/-- Without a fragment, an invocation ends with the error and writes nothing. -/
theorem runOn_unmade (hj : i.jobOn d = .ok j)
    (h : (obtain (Disk.hostWith store) i.cache j).run d = (.error e, d₁)) : i.runOn store d = (.error e, d₁) :=
  (Disk.run_bind_ok (hj ▸ run_prepare store i d) _).trans (Disk.run_bind_error h _)

/-- With a fragment, an invocation goes on to write it. -/
theorem runOn_made (hj : i.jobOn d = .ok j) (h : (obtain (Disk.hostWith store) i.cache j).run d = (.ok f, d₁)) :
    i.runOn store d = (writeFragment (Disk.hostWith store) i.out f).run d₁ :=
  (Disk.run_bind_ok (hj ▸ run_prepare store i d) _).trans (Disk.run_bind_ok h _)

/-- Both files are written below the directory, which is made first. -/
theorem writeFragment_ok {dir : Text} {d₂ d₃ : Disk} (hmade : d.makeDirectories dir = (.ok (), d₁))
    (hpixel : d₁.write (f.pixelPath dir) f.pixel = .ok d₂)
    (huniforms : d₂.write (f.uniformsPath dir) f.uniforms = .ok d₃) :
    (writeFragment (Disk.hostWith store) dir f).run d = (.ok (), d₃) := by
  have hdirectory : (attempt .file ((Disk.hostWith store).makeDirectories dir)).run d = (.ok (), d₁) := by
    rw [Disk.run_attempt, show (Disk.hostWith store).makeDirectories dir d = _ from hmade]
    rfl
  have hwrite {d d' : Disk} {path content : Text} (h : d.write path content = .ok d') :
      (attempt .file ((Disk.hostWith store).write path content)).run d = (.ok (), d') := by
    rw [Disk.run_attempt]
    unfold Disk.hostWith
    simp only [h]
    rfl
  unfold writeFragment
  rw [Disk.run_bind_ok hdirectory, Disk.run_bind_ok (hwrite hpixel), hwrite huniforms]

/-- If no directory can be made, no file is written. -/
theorem writeFragment_error {dir : Text} {e : FileError} (hmade : d.makeDirectories dir = (.error e, d₁)) :
    (writeFragment (Disk.hostWith store) dir f).run d = (.error (.file e), d₁) := by
  have hdirectory : (attempt .file ((Disk.hostWith store).makeDirectories dir)).run d = (.error (.file e), d₁) := by
    rw [Disk.run_attempt, show (Disk.hostWith store).makeDirectories dir d = _ from hmade]
    rfl
  unfold writeFragment
  rw [Disk.run_bind_error hdirectory]

/-- The fragment is written to the outputs of the invocation. -/
theorem away_outputs {P : Location → Prop} (hj : i.jobOn d = .ok j) (hf : j.generate = .ok f)
    (hfree : ∀ p ∈ i.outputs, ∀ m ∈ Disk.route p, ¬ P m) :
    Disk.Away P (writeFragment (Disk.hostWith store) i.out f).run := by
  have hname : f.name = i.fragmentName := (FragmentJob.name_of_generate hf).trans (jobOn_eq_ok hj).1
  simp only [outputs, ← hname, List.forall_mem_cons] at hfree
  exact Disk.away_writeFragment hfree.1 hfree.2.1 hfree.2.2.1

/-- A run without a cache leaves alone what is on none of its routes. -/
theorem entry?_runOn_uncached {l : Location} (hl : ∀ p ∈ i.outputs, l ∉ Disk.route p) :
    Disk.entry? (i.uncached.runOn store d).2 l = d.entry? l := by
  cases hj : i.jobOn d with
  | error e => rw [runOn_unread (i := i.uncached) hj]
  | ok j =>
    cases hf : j.generate with
    | error e => rw [runOn_unmade (i := i.uncached) hj (hf ▸ obtain_nil store j d)]
    | ok f =>
      rw [runOn_made (i := i.uncached) hj (hf ▸ obtain_nil store j d)]
      have hfree : ∀ p ∈ i.outputs, ∀ m ∈ Disk.route p, ¬ m = l := by
        rintro p hp m hm rfl
        exact hl p hp hm
      exact (away_outputs (P := (· = l)) hj hf hfree (.refl _ d)).spared l rfl

end

end Invocation

end ShadeGraph
