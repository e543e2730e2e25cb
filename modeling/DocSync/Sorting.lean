/-! Sorting by insertion, which keeps the order of equals. -/

namespace DocSync

variable {α : Type}

/-- An element put before the first one it may precede. -/
def sortedInsert (le : α → α → Bool) (x : α) : List α → List α
  | [] => [x]
  | y :: rest => if le x y then x :: y :: rest else y :: sortedInsert le x rest

/-- The elements in ascending order, equals in the order they came. -/
def stableSort (le : α → α → Bool) (xs : List α) : List α := xs.foldr (sortedInsert le) []

theorem sortedInsert_perm (le : α → α → Bool) (x : α) (xs : List α) :
    (sortedInsert le x xs).Perm (x :: xs) := by
  induction xs with
  | nil => exact .refl _
  | cons y rest ih =>
    unfold sortedInsert
    split
    · exact .refl _
    · exact (ih.cons y).trans (.swap x y rest)

/-- Sorting loses nothing and adds nothing. -/
theorem stableSort_perm (le : α → α → Bool) (xs : List α) : (stableSort le xs).Perm xs := by
  induction xs with
  | nil => exact .refl _
  | cons x rest ih => exact (sortedInsert_perm le x _).trans (ih.cons x)

end DocSync
