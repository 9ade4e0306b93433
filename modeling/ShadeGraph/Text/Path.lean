/-
  Slash-separated paths.

  `clean` gives the shortest path that names the same file by the rules of path text alone: empty and
  `.` elements go, and `..` takes away the element in front of it.  `isPlain` holds of the relative
  paths that such cleaning leaves when they stay below their root.
-/
import ShadeGraph.Text.Utf8

namespace ShadeGraph.Text

/-- The byte between path elements. -/
def slash : UInt8 := 47

/-- The path elements that name the directory itself and the one above. -/
def here : Text := [46]

@[inherit_doc here]
def above : Text := [46, 46]

/-- Takes one more element onto the elements kept so far, the last of them first. -/
def cleanStep (rooted : Bool) (kept : List Text) (element : Text) : List Text :=
  if element = [] || element = here then kept
  else if element = above then
    match kept with
    | [] => if rooted then [] else [above]
    | last :: rest => if last = above then above :: kept else rest
  else element :: kept

/-- The shortest path of the same meaning; the empty path is the directory itself. -/
def clean (p : Text) : Text :=
  let rooted : Bool := p.head? == some slash
  let kept := ((splitOn slash p).foldl (cleanStep rooted) []).reverse
  let body := joinWith [slash] kept
  if rooted then slash :: body else if body = [] then here else body

/-- A relative path in plain form: the root itself, or well-formed UTF-8 whose elements are neither
empty nor `.` nor `..`. -/
def isPlain (p : Text) : Bool :=
  isUtf8 p && (p == here ||
    (splitOn slash p).all fun e => !(e == []) && !(e == here) && !(e == above))

/-- The last element of a path, trailing slashes aside. -/
def baseName (p : Text) : Text :=
  if p = [] then here
  else
    match (splitOn slash (dropTrailing slash p)).getLast? with
    | some [] => [slash]
    | some e => e
    | none => [slash]

/-- What stands from the last dot of a file name on; empty without a dot. -/
def suffixOf (name : Text) : Text :=
  let tail := name.reverse.takeWhile (· != 46)
  if tail.length = name.length then [] else 46 :: tail.reverse

/-- The extension of a path: from the last dot of its last element on. -/
def extension (p : Text) : Text :=
  match (splitOn slash p).getLast? with
  | some e => suffixOf e
  | none => []

/-- A path below a directory, cleaned. -/
def below (dir name : Text) : Text :=
  if dir = [] then (if name = [] then [] else clean name)
  else if name = [] then clean dir
  else clean (dir ++ slash :: name)

end ShadeGraph.Text
