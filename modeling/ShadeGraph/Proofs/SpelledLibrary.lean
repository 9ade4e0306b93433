/-
  The built-in library, byte by byte.

  The files of the library are written down as lines in strings.  The bytes of a string stand in an array, and
  an evaluation that takes them out one by one goes through all that are in front of each.  So what is read off
  the whole library is read off an equal one, whose texts are made of characters.

  1. The bytes of a string are those of its characters (`Text.ofString_ofList`).
  2. `Text.Spelling` and `Library.Spelling` carry the bytes of lines and of files with the proof that they are
     the same.  A line is added to them by its characters, so that the bytes are found by following the file.
  3. `SearchPath.standard_eq_spelled`: the library is the one that is spelled.
-/
import ShadeGraph.Library.Basic

namespace ShadeGraph

namespace Text

theorem ofString_ofList (cs : List Char) : ofString (String.ofList cs) = cs.flatMap String.utf8EncodeChar := by
  rw [ofString, String.toByteArray_ofList, List.utf8Encode, List.toList_data_toByteArray]

/-- The bytes of some lines. -/
structure Spelling (ls : List String) where
  bytes : Text
  eq : ofLines ls = bytes

namespace Spelling

def nil : Spelling [] := ⟨[], rfl⟩

/-- One more line, by its characters. -/
def line (cs : List Char) {ls : List String} (rest : Spelling ls) : Spelling (String.ofList cs :: ls) where
  bytes := cs.flatMap String.utf8EncodeChar ++ 10 :: rest.bytes
  eq := by
    rw [← rest.eq, ofLines, List.flatMap_cons, ofString_ofList, List.append_assoc]
    rfl

end Spelling
end Text

namespace Library

/-- The bytes of some files. -/
structure Spelling (files : List (Text × Text)) where
  bytes : List (Text × Text)
  eq : files = bytes

namespace Spelling

def nil : Spelling [] := ⟨[], rfl⟩

/-- One more file, by the characters of its path and by its lines. -/
def file (cs : List Char) {ls : List String} (text : Text.Spelling ls) {files : List (Text × Text)}
    (rest : Spelling files) : Spelling ((Text.ofString (String.ofList cs), Text.ofLines ls) :: files) where
  bytes := (cs.flatMap String.utf8EncodeChar, text.bytes) :: rest.bytes
  eq := by rw [Text.ofString_ofList, text.eq, ← rest.eq]

end Spelling

/-- The bytes of the library's files, line by line. -/
noncomputable def spelling : Spelling builtIn.files := by
  repeat' first | refine .line _ ?_ | refine .file _ ?_ ?_ | exact .nil

end Library

/-- The built-in library in bytes. -/
noncomputable def SearchPath.spelled : SearchPath := [⟨.builtIn, Library.spelling.bytes⟩]

theorem SearchPath.standard_eq_spelled : standard = spelled := by
  rw [standard, spelled, ← Library.spelling.eq]
  rfl

end ShadeGraph
