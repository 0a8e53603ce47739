/-!
# Sorting

Insertion sort by an order test. It is stable: elements that the test does not tell apart keep
their order.
-/

namespace Actionbook

/-- Puts an element in front of the first one that it does not have to follow. -/
def insertOrdered {α : Type} (le : α → α → Bool) (a : α) : List α → List α
  | [] => [a]
  | b :: l => if le a b then a :: b :: l else b :: insertOrdered le a l

/-- The elements in ascending order. -/
def sortBy {α : Type} (le : α → α → Bool) : List α → List α
  | [] => []
  | a :: l => insertOrdered le a (sortBy le l)

/-- The order of texts by code point. -/
def textLe (s t : String) : Bool := !(t < s)

/-- Texts in ascending order. -/
def sortTexts (l : List String) : List String := sortBy textLe l

/-- A list without the elements that occur earlier in it. -/
def distinct {α : Type} [BEq α] (l : List α) : List α :=
  l.foldl (fun acc a => if acc.contains a then acc else acc ++ [a]) []

end Actionbook
