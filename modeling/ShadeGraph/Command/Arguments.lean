/-
  The arguments of the command.

  A flag is written with one dash or two, and its value follows as the next argument or behind an equals
  sign.  A switch needs no value, and takes one only behind an equals sign.  The first argument that is no
  flag ends them.
-/
import ShadeGraph.Command.Run
import ShadeGraph.Text.Quoted

namespace ShadeGraph

/-- The flags of the command. -/
inductive Flag where
  | cache
  | samples
  | graph
  | legacyLights
  | name
  | options
  | out
  | verbosity
  deriving DecidableEq, Repr

namespace Flag

/-- All of them, by name. -/
def all : List Flag :=
  [.cache, .samples, .graph, .legacyLights, .name, .options, .out, .verbosity]

/-- The name of a flag. -/
def title : Flag → Text
  | .cache => "cache"
  | .samples => "fis-samples"
  | .graph => "graph"
  | .legacyLights => "legacy-lights"
  | .name => "name"
  | .options => "options"
  | .out => "out"
  | .verbosity => "v"

/-- The kind of value that a flag takes, as the usage shows it. -/
def kind : Flag → Text
  | .samples | .verbosity => " int"
  | .legacyLights => []
  | _ => " string"

/-- What a flag is for. -/
def purpose : Flag → Text
  | .cache => "SQLite fragment cache database. Empty disables caching"
  | .samples => "specular environment samples of the FIS method. 0 uses the default"
  | .graph => "CBOR encoded shading graph file (required)"
  | .legacyLights => "generate for the legacy host light API"
  | .name => "fragment name. Defaults to the graph file name"
  | .options => "TOML generation options file"
  | .out => "output directory (default \".\")"
  | .verbosity => "log verbosity: -4 silences logging, 2 logs debug messages"

/-- A flag as the usage shows it. -/
def usage (f : Flag) : Text := "  -" ++ f.title ++ f.kind ++ "\n    \t" ++ f.purpose ++ "\n"

/-- The flag of a name. -/
def ofTitle? (t : Text) : Option Flag := all.find? (·.title == t)

end Flag

/-- Why arguments make no invocation. -/
inductive ArgumentError where
  /-- The usage is asked for. -/
  | help
  | badForm (argument : Text)
  | unknown (flag : Text)
  | noValue (flag : Flag)
  | badValue (flag : Flag) (value : Text)
  deriving DecidableEq, Repr

namespace ArgumentError

/-- The message of an argument error; asking for the usage is none. -/
def message? : ArgumentError → Option Text
  | .help => none
  | .badForm a => some ("bad flag syntax: " ++ a)
  | .unknown f => some ("flag provided but not defined: -" ++ f)
  | .noValue f => some ("flag needs an argument: -" ++ f.title)
  | .badValue .legacyLights v => some ("invalid boolean value " ++ v.quoted ++
      " for -" ++ Flag.legacyLights.title ++ ": parse error")
  | .badValue f v => some ("invalid value " ++ v.quoted ++ " for flag -" ++ f.title ++ ": parse error")

end ArgumentError

namespace Invocation

/-- The usage of the command. -/
def usage : Text := "Usage of ogsfrag:\n" ++ Flag.all.flatMap Flag.usage

/-- The truth value of a text. -/
def truthOf? (t : Text) : Option Bool :=
  if (["1", "t", "T", "true", "TRUE", "True"] : List Text).contains t then some true
  else if (["0", "f", "F", "false", "FALSE", "False"] : List Text).contains t then some false
  else none

/-- The number of a text, of 64 bits. -/
def numberOf? (t : Text) : Option Int64 :=
  ((Text.toInt? t).filter SignedWord.holds).map Int64.ofInt

/-- Sets what a flag stands for. -/
def set? (i : Invocation) (v : Text) : Flag → Option Invocation
  | .cache => some { i with cache := v }
  | .samples => (numberOf? v).map fun n => { i with samples := n }
  | .graph => some { i with graph := v }
  | .legacyLights => (truthOf? v).map fun b => { i with legacyLights := b }
  | .name => some { i with name := v }
  | .options => some { i with options := v }
  | .out => some { i with out := v }
  | .verbosity => (numberOf? v).map fun _ => i

/-- Sets what a flag stands for, or says that the value does not fit. -/
def set (i : Invocation) (f : Flag) (v : Text) : Except ArgumentError Invocation :=
  match i.set? v f with
  | some i => .ok i
  | none => .error (.badValue f v)

/-- What stands behind the dashes of a flag; nothing for an argument that is no flag. -/
def flagBody? : Text → Option Text
  | 45 :: 45 :: t => some t
  | 45 :: b :: t => some (b :: t)
  | _ => none

/-- The name of a flag, and the value behind an equals sign. -/
def splitValue (body : Text) : Text × Option Text :=
  match body.dropWhile (· != 61) with
  | [] => (body, none)
  | _ :: v => (body.takeWhile (· != 61), some v)

/-- Reads arguments into an invocation. -/
def ofArguments : Invocation → List Text → Except ArgumentError Invocation
  | i, [] => .ok i
  | i, a :: rest =>
    match flagBody? a with
    | none => .ok i
    | some [] => .ok i
    | some body =>
      if body.head? = some 45 ∨ body.head? = some 61 then .error (.badForm a)
      else
        match Flag.ofTitle? (splitValue body).1, (splitValue body).2, rest with
        | none, _, _ =>
          if body = "h" ∨ body = "help" then .error .help
          else .error (.unknown (splitValue body).1)
        | some f, some v, rest =>
          match i.set f v with
          | .error e => .error e
          | .ok i => ofArguments i rest
        | some .legacyLights, none, rest => ofArguments { i with legacyLights := true } rest
        | some f, none, [] => .error (.noValue f)
        | some f, none, v :: rest =>
          match i.set f v with
          | .error e => .error e
          | .ok i => ofArguments i rest

end Invocation
end ShadeGraph
