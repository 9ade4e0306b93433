/-
  Options files.

  An options file is a TOML document with a table `options` of up to five keys; a key that is left out
  keeps the standard option.  Keys may be written in any case.  Keys that mean nothing are an error,
  unless the document is at fault in another way already.
-/
import ShadeGraph.Options.Basic
import ShadeGraph.Toml.Parse

namespace ShadeGraph

/-- The options that a file can set. -/
inductive OptionKey where
  | lights
  | specular
  | albedo
  | verticalFlip
  | transparency
  deriving DecidableEq, Repr

namespace OptionKey

/-- All of them, in the order in which they are written. -/
def all : List OptionKey := [.lights, .specular, .albedo, .verticalFlip, .transparency]

/-- The key in the file. -/
def name : OptionKey → Text
  | .lights => "hw_max_active_light_sources"
  | .specular => "hw_specular_environment_method"
  | .albedo => "hw_directional_albedo_method"
  | .verticalFlip => "file_texture_vertical_flip"
  | .transparency => "hw_transparency"

/-- The option of a key in any case. -/
def ofName? (key : Text) : Option OptionKey :=
  match all.find? (·.name == key) with
  | some k => some k
  | none => all.find? fun k => Text.equalFold key k.name

end OptionKey

/-- Why a text is no options file. -/
inductive OptionsError where
  /-- The text is no document, or a value does not fit its option. -/
  | malformed
  /-- There are keys that mean nothing. -/
  | unknownKeys (keys : List Toml.Path)
  deriving DecidableEq, Repr

namespace Options

/-! ## Writing -/

/-- The name of the table. -/
def tableName : Text := "options"

/-- One line of an options file. -/
def fileLine (key : OptionKey) (value : Text) : Text := "  " ++ key.name ++ " = " ++ value ++ "\n"

/-- The literal of a truth value. -/
def flagLiteral (b : Bool) : Text := if b then "true" else "false"

/-- The literal of a method. -/
def methodLiteral {kind : MethodKind} (m : Method kind) : Text := "\"" ++ m.toText ++ "\""

/-- The literal of one of the options. -/
def literalOf (o : Options) : OptionKey → Text
  | .lights => Text.ofNat o.lights.toNat
  | .specular => methodLiteral o.specular
  | .albedo => methodLiteral o.albedo
  | .verticalFlip => flagLiteral o.verticalFlip
  | .transparency => flagLiteral o.transparency

/-- The options file of the options. -/
def toFile (o : Options) : Text :=
  "[" ++ tableName ++ "]\n" ++ OptionKey.all.flatMap fun k => fileLine k (o.literalOf k)

/-! ## Reading -/

/-- The method that a value chooses, by name or by number. -/
def methodOf? {kind : MethodKind} : Toml.Value → Option (Method kind)
  | .scalar (.string s) => Method.ofText? s
  | .scalar (.integer n) => Method.ofInt? n
  | _ => none

/-- The truth value of a value. -/
def flagOf? : Toml.Value → Option Bool
  | .scalar (.boolean b) => some b
  | _ => none

/-- The number of lights that a value asks for; a negative one counts from the largest down. -/
def lightsOf? : Toml.Value → Option UInt64
  | .scalar (.integer n) => some (Int64.ofInt n).toUInt64
  | _ => none

/-- Sets one option. -/
def set? (o : Options) (v : Toml.Value) : OptionKey → Option Options
  | .lights => (lightsOf? v).map fun n => { o with lights := n }
  | .specular => (methodOf? v).map fun m => { o with specular := m }
  | .albedo => (methodOf? v).map fun m => { o with albedo := m }
  | .verticalFlip => (flagOf? v).map fun b => { o with verticalFlip := b }
  | .transparency => (flagOf? v).map fun b => { o with transparency := b }

/-- Sets the options that the entries of a table name. -/
def setAll? (o : Options) (entries : Toml.Table) : Option Options :=
  entries.foldlM (fun o e =>
    match OptionKey.ofName? e.1 with
    | some k => o.set? e.2 k
    | none => some o) o

/-- Whether a key names the table of options. -/
def namesTable (key : Text) : Bool := Text.equalFold key tableName

/-- Sets the options that a document names. -/
def ofDocument? (d : Toml.Document) : Option Options :=
  d.root.foldlM (fun o e =>
    if namesTable e.1 then
      match e.2 with
      | .table entries => o.setAll? entries
      | _ => none
    else some o) standard

/-- Whether a key of a document means something: it names the table or one of the options, and its value
has not been lost to a later statement. -/
def isKnown (root : Toml.Table) : Toml.Path → Bool
  | [key] => namesTable key && (root.get? key).isSome
  | [key, option] =>
    namesTable key && (OptionKey.ofName? option).isSome &&
      (root.tableAt? [key]).any fun t => (t.get? option).isSome
  | _ => false

/-- Reads an options file. -/
def ofFile (t : Text) : Except OptionsError Options :=
  match Toml.parse? t with
  | none => .error .malformed
  | some d =>
    match ofDocument? d with
    | none => .error .malformed
    | some o =>
      match d.keys.filter fun p => !isKnown d.root p with
      | [] => .ok o
      | unknown => .error (.unknownKeys unknown)

end Options

/-! ## Messages -/

namespace Toml

/-- A byte of a quoted key, control characters escaped. -/
def escapeByte (b : UInt8) : Text :=
  if b = 34 || b = 92 then [92, b]
  else if b = 8 then "\\b"
  else if b = 9 then "\\t"
  else if b = 10 then "\\n"
  else if b = 12 then "\\f"
  else if b = 13 then "\\r"
  else if b < 32 || b = 127 then "\\u" ++ Text.hexPadded 4 b.toNat
  else [b]

/-- A part of a key, in quotes if it needs them. -/
def keyText (part : Text) : Text :=
  if part ≠ [] ∧ part.all isBareByte then part else "\"" ++ part.flatMap escapeByte ++ "\""

/-- A path with points between its keys. -/
def pathText (p : Path) : Text := Text.joinWith "." (p.map keyText)

end Toml

/-- The message of an options error, as far as it has a text of its own. -/
def OptionsError.message? : OptionsError → Option Text
  | .malformed => none
  | .unknownKeys keys => some ("unknown option keys: " ++ Text.joinWith ", " (keys.map Toml.pathText))

end ShadeGraph
