/-
  What library files say: the lines that include other files, and the function a file is named for.

  Both work line by line on bytes.  An include line is `#include "path"` with white space around it and
  between its two parts; a function is found by its return type, which the first blank ends.
-/
import ShadeGraph.Text.Blank

namespace ShadeGraph.Source

/-- The word that starts an include line. -/
def includeWord : Text := "#include"

/-- The text between two double quotes that are its first and last byte. -/
def unquote? (t : Text) : Option Text :=
  if 2 ≤ t.length ∧ t.head? = some 34 ∧ t.getLast? = some 34 then some (t.drop 1).dropLast
  else none

/-- The path of an include line; `none` for any other line. -/
def includePath? (line : Text) : Option Text :=
  let line := line.trim
  if includeWord.isPrefixOf line then unquote? (Text.trim (line.drop includeWord.length)) else none

/-- Why no function name is found. -/
inductive FunctionNameError where
  /-- A line looks like a definition, but no name stands in front of the parenthesis. -/
  | empty
  /-- No line looks like a definition. -/
  | missing
  deriving DecidableEq, Repr

/-- The message of a function name error. -/
def FunctionNameError.message : FunctionNameError → Text
  | .empty => "empty function name"
  | .missing => "unable to parse function name"

/-- A line without a definition by its looks: blank, a directive, or a comment. -/
def isAside (line : Text) : Bool :=
  line == [] || line.head? == some 35 || ([47, 47] : Text).isPrefixOf line

/-- The name that a trimmed line defines: what stands between its first space and its first
parenthesis.  `none` for a line that defines nothing. -/
def definedName? (line : Text) : Option Text :=
  match Text.indexOf? 32 line, Text.indexOf? 40 line with
  | some start, some stop =>
    if start ≤ stop then some (Text.trim ((line.take stop).drop start)) else none
  | _, _ => none

/-- The name of the first function that some lines define. -/
def functionNameIn : List Text → Except FunctionNameError Text
  | [] => .error .missing
  | line :: rest =>
    if isAside line.trim then functionNameIn rest
    else
      match definedName? line.trim with
      | none => functionNameIn rest
      | some [] => .error .empty
      | some name => .ok name

/-- The name of the first function that a file defines. -/
def functionName (source : Text) : Except FunctionNameError Text := functionNameIn source.lines

end ShadeGraph.Source
