/-
  The command.

  An invocation names a graph file and says how a fragment is made of it.  The fragment is written as two
  files, one for its code and one for the declarations of its uniforms.  With a cache, a fragment that is
  stored for the same request is written instead of a new one; a stored fragment that cannot be read is
  made anew, and takes the place of the old one.
-/
import ShadeGraph.Cache.Key
import ShadeGraph.Command.Host
import ShadeGraph.Options.File
import ShadeGraph.Text.Path

namespace ShadeGraph

/-- What a command is asked to do. -/
structure Invocation where
  /-- The file of the graph. -/
  graph : Text := []
  /-- The options file; without one the options are the standard ones. -/
  options : Text := []
  /-- The name of the fragment; without one it is the graph file's. -/
  name : Text := []
  /-- The directory that the fragment is written to. -/
  out : Text := Text.here
  /-- The cache; without one fragments are not kept. -/
  cache : Text := []
  /-- Whether the host has the light interface before version two. -/
  legacyLights : Bool := false
  /-- The number of environment samples; the usual number unless it is positive. -/
  samples : Int64 := 0
  deriving DecidableEq, Repr

/-- Why a command fails. -/
inductive CommandError where
  | noGraphGiven
  | file (e : FileError)
  | graph (e : GraphDecodeError)
  | optionsFile (e : FileError)
  | options (path : Text) (e : OptionsError)
  /-- There can be no cache at the path. -/
  | cache (path : Text)
  | shader (e : ShaderError)
  | fragment (e : FragmentError)
  deriving DecidableEq, Repr

/-- The message of a command error, as far as it has a text of its own. -/
def CommandError.message? : CommandError → Option Text
  | .noGraphGiven => some "missing -graph flag"
  | .file e => some e.message
  | .graph e => e.message?
  | .optionsFile e => some ("read options: " ++ e.message)
  | .options path e => e.message?.map fun m => path ++ ": " ++ m
  | .cache _ => none
  | .shader e => e.message?
  | .fragment e => some e.message

/-- A fragment to be made: what it is made from, with the graph decoded. -/
structure FragmentJob where
  source : FragmentSource
  graph : Graph
  deriving DecidableEq, Repr

namespace FragmentJob

/-- The generator of a job. -/
def generator (j : FragmentJob) : FragmentGenerator := ⟨j.source.api⟩

/-- The context of a job. -/
def context (j : FragmentJob) : Context :=
  let c := j.generator.context j.source.options
  if 0 < j.source.samples then { c with samples := .count j.source.samples } else c

/-- Makes the fragment of a job. -/
def generate (j : FragmentJob) : Except CommandError Fragment :=
  match j.generator.generate j.source.name (some j.graph) j.context with
  | (.error e, _) => .error (.shader e)
  | (.ok s, c) =>
    match Fragment.ofShader j.generator s c with
    | .error e => .error (.fragment e)
    | .ok f => .ok f

end FragmentJob

namespace Fragment

/-- The path of a fragment's code. -/
def pixelPath (f : Fragment) (dir : Text) : Text := Text.below dir (f.name ++ ".glsl")

/-- The path of the declarations of a fragment's uniforms. -/
def uniformsPath (f : Fragment) (dir : Text) : Text := Text.below dir (f.name ++ "_uniforms.glsl")

end Fragment

namespace Invocation

/-- The name of the fragment: the one that is given, or the name of the graph file without its
extension. -/
def fragmentName (i : Invocation) : Text :=
  if i.name = [] then
    let base := Text.baseName i.graph
    base.take (base.length - (Text.suffixOf base).length)
  else i.name

/-- The light interface that the host has. -/
def api (i : Invocation) : LightApi := if i.legacyLights then .legacy else .v2

/-! ## The steps -/

variable {m : Type → Type} [Monad m]

/-- Does something that may fail, and says what its failure means for the command. -/
def attempt {ε α : Type} (meaning : ε → CommandError) (x : m (Except ε α)) :
    ExceptT CommandError m α :=
  ExceptT.mk do
    match ← x with
    | .ok a => return .ok a
    | .error e => return .error (meaning e)

/-- Reads the options of an invocation. -/
def readOptions (host : Host m) (i : Invocation) : ExceptT CommandError m Options :=
  if i.options = [] then return .standard
  else do
    let bytes ← attempt .optionsFile (host.read i.options)
    attempt (.options i.options) (pure (Options.ofFile bytes))

/-- Reads the files of an invocation. -/
def prepare (host : Host m) (i : Invocation) : ExceptT CommandError m FragmentJob := do
  if i.graph = [] then throw .noGraphGiven
  let bytes ← attempt .file (host.read i.graph)
  let graph ← attempt .graph (pure (Graph.decode bytes))
  let options ← i.readOptions host
  return ⟨⟨i.fragmentName, bytes, options, i.api, i.samples⟩, graph⟩

/-- The fragment of a job, from the cache if it is there. -/
def obtain (host : Host m) (cache : Text) (job : FragmentJob) : ExceptT CommandError m Fragment := do
  if cache = [] then attempt id (pure job.generate)
  else
    match ← host.openCache cache with
    | none => throw (.cache cache)
    | some table =>
      match table.fragment job.source.key with
      | .ok f => return f
      | .error _ =>
        let f ← attempt id (pure job.generate)
        host.saveCache cache (table.store job.source.key f)
        return f

/-- Writes the files of a fragment. -/
def writeFragment (host : Host m) (dir : Text) (f : Fragment) : ExceptT CommandError m Unit := do
  attempt .file (host.makeDirectories dir)
  attempt .file (host.write (f.pixelPath dir) f.pixel)
  attempt .file (host.write (f.uniformsPath dir) f.uniforms)

/-- Does what an invocation asks for. -/
def run (host : Host m) (i : Invocation) : ExceptT CommandError m Unit := do
  let job ← i.prepare host
  let f ← obtain host i.cache job
  writeFragment host i.out f

end Invocation
end ShadeGraph
