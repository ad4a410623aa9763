/-!
Sorted lists without repetition, by a comparison. Two elements that compare equal count as one, and
the one that came first stays.
-/

namespace Workbench

variable {α : Type}

/-- Puts an element at its place in a sorted list; it takes the place of an equal one. -/
def insertUnique (cmp : α → α → Ordering) (a : α) : List α → List α
  | [] => [a]
  | b :: rest =>
    match cmp a b with
    | .lt => a :: b :: rest
    | .eq => a :: rest
    | .gt => b :: insertUnique cmp a rest

/-- The elements of a list in order, without repetition. -/
def sortUnique (cmp : α → α → Ordering) (xs : List α) : List α :=
  xs.foldr (insertUnique cmp) []

/-- Puts an element at its place in a sorted list, in front of those equal to it. -/
def insertSorted (cmp : α → α → Ordering) (a : α) : List α → List α
  | [] => [a]
  | b :: rest => if (cmp a b).isLE then a :: b :: rest else b :: insertSorted cmp a rest

/-- The elements of a list in order, with repetition; equal elements keep their order. -/
def sortBy (cmp : α → α → Ordering) (xs : List α) : List α :=
  xs.foldr (insertSorted cmp) []

end Workbench
