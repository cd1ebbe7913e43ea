/-!
# Lists without repetition

Two ways to drop the repetitions of a list: keep each element where it first stands, or sort.
-/

namespace LevelSchema

/-- The elements of a list without repetition, each where it first stands. -/
def keepFirst {α : Type} [DecidableEq α] : List α → List α
  | [] => []
  | a :: as => a :: (keepFirst as).filter (· ≠ a)

/-- Insert an element into a list in increasing order, unless it is already there. -/
def insertSorted {α : Type} (less : α → α → Bool) (a : α) : List α → List α
  | [] => [a]
  | b :: bs =>
      if less a b then a :: b :: bs
      else if less b a then b :: insertSorted less a bs
      else b :: bs

/-- The elements of a list without repetition, in increasing order. -/
def sortedSet {α : Type} (less : α → α → Bool) (as : List α) : List α :=
  as.foldr (insertSorted less) []

end LevelSchema
