/-
  Sorting by insertion.
-/

namespace ShadeGraph.Sorting

/-- Puts an element in front of the first one that it stands before. -/
def insert {α : Type} (before : α → α → Bool) (a : α) : List α → List α
  | [] => [a]
  | b :: rest => if before a b then a :: b :: rest else b :: insert before a rest

/-- The elements in order; of two that each stand before the other, the earlier one stays in front. -/
def sort {α : Type} (before : α → α → Bool) (xs : List α) : List α := xs.foldr (insert before) []

end ShadeGraph.Sorting
