/-!
# Stable sorting

Insertion from the back: each element is put before the first one that it may stand before, so
elements that the order does not tell apart keep the order in which they came.
-/

namespace CheckedCalls

variable {α : Type}

/-- Puts an element before the first one that it may stand before. -/
def insertSorted (le : α → α → Bool) (a : α) : List α → List α
  | [] => [a]
  | b :: bs => if le a b then a :: b :: bs else b :: insertSorted le a bs

/-- The elements in the order of `le`. -/
def sortStable (le : α → α → Bool) : List α → List α
  | [] => []
  | a :: as => insertSorted le a (sortStable le as)

end CheckedCalls
