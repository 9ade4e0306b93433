/-
  Typed literals.

  A value has a type and the data that type may need: numeric components, a text, a truth value.
  Matrices keep their components row by row.
-/
import ShadeGraph.DataType
import ShadeGraph.Number.Spelling

namespace ShadeGraph

/-- A typed literal. -/
@[ext]
structure Value where
  /-- The type. -/
  type : DataType
  /-- The stored numbers. -/
  numbers : List Binary32
  /-- The text of a string or file name. -/
  text : Text
  /-- The truth value of a boolean. -/
  flag : Bool
  /-- There is a number for each component.  The one of a boolean is its truth value. -/
  sized : type ≠ .boolean → numbers.length = type.size
  deriving DecidableEq, Repr

namespace Value

/-- The numbers that a type other than `boolean` stores, zero where none is given. -/
def fit (t : DataType) (xs : List Binary32) : List Binary32 :=
  let n := if t = .boolean then 0 else t.size
  xs.take n ++ List.replicate (n - xs.length) .zero

theorem length_fit (t : DataType) (xs : List Binary32) :
    (fit t xs).length = if t = .boolean then 0 else t.size := by
  simp only [fit, List.length_append, List.length_take, List.length_replicate]
  omega

/-- A value with numeric components; missing ones are zero. -/
def ofNumbers (t : DataType) (xs : List Binary32) : Value where
  type := t
  numbers := fit t xs
  text := []
  flag := false
  sized h := by rw [length_fit, if_neg h]

/-- The zero value of a type; closures and shaders have no data at all. -/
def zero (t : DataType) : Value := ofNumbers t []

/-- A float. -/
def float (x : Binary32) : Value := ofNumbers .float [x]

/-- An integer, stored as the nearest single precision number. -/
def integer (n : Int) : Value := ofNumbers .integer [.ofInt n]

/-- A boolean. -/
def boolean (b : Bool) : Value := ⟨.boolean, [], [], b, fun h => absurd rfl h⟩

/-- A string. -/
def string (s : Text) : Value := ⟨.string, [], s, false, fun _ => rfl⟩

/-- A file name. -/
def filename (s : Text) : Value := ⟨.filename, [], s, false, fun _ => rfl⟩

/-- The numeric components; a boolean counts as one or zero. -/
def components (v : Value) : List Binary32 :=
  if v.type = .boolean then [if v.flag then .one else .zero] else v.numbers

/-- The first stored number. -/
def asFloat (v : Value) : Binary32 := v.numbers.headD .zero

/-- The first stored number without its fraction. -/
def asInt (v : Value) : Int := v.asFloat.toInt

/-- The text of a truth value. -/
def flagText (b : Bool) : Text := if b then "true" else "false"

/-- The text of a value in messages. -/
def display (v : Value) : Text :=
  match v.type with
  | .string | .filename => v.text
  | .boolean => flagText v.flag
  | .integer => Text.ofInt v.asInt
  | t =>
    if 0 < t.size then "[" ++ Text.joinWith " " (v.numbers.map Binary32.display) ++ "]" else t.name

end Value
end ShadeGraph
