/-
  The range of signed 64-bit integers.
-/

namespace ShadeGraph.SignedWord

/-- The least signed 64-bit integer. -/
def least : Int := -0x8000000000000000

/-- The greatest signed 64-bit integer. -/
def greatest : Int := 0x7FFFFFFFFFFFFFFF

/-- Whether an integer is a signed 64-bit integer. -/
def holds (n : Int) : Bool := least ≤ n && n ≤ greatest

/-- The signed 64-bit integer with the same low 64 bits. -/
def wrap (n : Int) : Int := Int.bmod n 0x10000000000000000

end ShadeGraph.SignedWord
