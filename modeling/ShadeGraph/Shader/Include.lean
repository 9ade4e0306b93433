/-
  Expanding includes.

  An include writes the lines of a library file into a stage, with the files that it includes in turn in
  the place of their include lines.  A path is noted before its file is read, and a path that has been
  noted is not expanded again, so every chain of nested includes uses each path of an include line at
  most once.  That bounds its length, also for files that include each other.
-/
import ShadeGraph.Shader.Context
import ShadeGraph.Shader.Stage

namespace ShadeGraph

namespace SearchPath

/-- The include paths that the files of the libraries hold. -/
def includePaths (s : SearchPath) : List Text :=
  s.flatMap fun l => l.files.flatMap fun f => (Text.lines f.2).filterMap Source.includePath?

end SearchPath

namespace Context

/-- The lines of a library file, without line feeds at its end. -/
def sourceLines (source : Text) : List Text := Text.lines (Text.dropTrailing 10 source)

/-- Writes one line of a file into a stage, with the file that it includes in its place.  An inner file is
expanded by `expand`. -/
def expandLine (c : Context) (expand : Text → Stage → Except (Failed EmitError Stage) Stage)
    (resolved : Text) (stage : Stage) (line : Text) : Except (Failed EmitError Stage) Stage :=
  match Source.includePath? line with
  | none => .ok (stage.write line).newline
  | some inner =>
    if c.declarations.isNone then .error ⟨.missingPart, stage⟩
    else
      match expand inner stage with
      | .ok stage => .ok stage
      | .error f => .error ⟨.nested resolved f.error, f.left⟩

/-- Expands an include of at most `fuel` nested files. -/
def expandWithin (c : Context) :
    (fuel : Nat) → (path : Text) → Stage → Except (Failed EmitError Stage) Stage
  | 0, _, stage => .error ⟨.tooDeep, stage⟩
  | fuel + 1, path, stage =>
    let resolved := c.resolve path
    if stage.hasInclude resolved then .ok stage
    else
      let stage := stage.addInclude resolved
      match c.includer with
      | none => .error ⟨.noIncluder resolved, stage⟩
      | some libraries =>
        match libraries.read resolved with
        | .error e => .error ⟨.unreadable e, stage⟩
        | .ok source =>
          (sourceLines source).foldlM (c.expandLine (expandWithin c fuel) resolved) stage

/-- The longest chain of nested includes, the last of which finds its path noted. -/
def includeDepth (c : Context) : Nat := (c.includer.getD []).includePaths.length + 2

/-- Expands an include into a stage. -/
def expandInclude (c : Context) (path : Text) (stage : Stage) :
    Except (Failed EmitError Stage) Stage :=
  c.expandWithin c.includeDepth path stage

end Context
end ShadeGraph
