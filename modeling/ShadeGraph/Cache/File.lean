/-
  The file of a cache.

  A cache file is one CBOR map from keys to the stored bytes.  An empty file is an empty cache; any other
  file that is not of this form is none.
-/
import ShadeGraph.Cache.Basic

namespace ShadeGraph.FragmentTable

open Cbor (Item)

/-- The item of a table. -/
def toItem (t : FragmentTable) : Item := .map (t.entries.map fun e => (.text e.1, .bytes e.2))

/-- The entry of a key and its bytes. -/
def entryOf? : Item × Item → Option (Text × Text)
  | (.text key, .bytes b) => some (key, b)
  | _ => none

/-- The table of an item. -/
def ofItem? : Item → Option FragmentTable
  | .map entries => (entries.mapM entryOf?).map .mk
  | _ => none

/-- The content of the file of a table. -/
def toFile (t : FragmentTable) : Text := t.toItem.encode

/-- The table that a file holds. -/
def ofFile? (content : Text) : Option FragmentTable :=
  if content = [] then some .empty else (Item.parse? content).bind ofItem?

end ShadeGraph.FragmentTable
