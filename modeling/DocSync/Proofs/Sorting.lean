import DocSync.Sorting
import Mathlib.Data.List.Basic

/-!
Sorting by insertion: what comes out is in order, and among equals nothing moves. So a list is sorted
alike when it holds the same elements of each rank in the same order.
-/

namespace DocSync

variable {α β : Type} {le : α → α → Bool} {xs ys : List α} {rank : α → Nat}

/-- Sorting puts what may come first first, for an order that is total and transitive. -/
theorem pairwise_stableSort (xs : List α)
    (trans : ∀ a b c, le a b = true → le b c = true → le a c = true)
    (total : ∀ a b, le a b = true ∨ le b a = true) :
    (stableSort le xs).Pairwise fun a b => le a b = true := by
  -- What is put in stands right before the first that it may come before.
  have insert : ∀ (x : α) (ys : List α), ys.Pairwise (fun a b => le a b = true) →
      (sortedInsert le x ys).Pairwise fun a b => le a b = true := by
    intro x ys sorted
    induction ys with
    | nil => exact List.pairwise_singleton _ _
    | cons y rest ih =>
      obtain ⟨first, later⟩ := List.pairwise_cons.1 sorted
      unfold sortedInsert
      split
      · next at_ =>
        refine List.pairwise_cons.2 ⟨fun z member => ?_, sorted⟩
        rcases List.mem_cons.1 member with rfl | member
        · exact at_
        · exact trans _ _ _ at_ (first z member)
      · next not =>
        refine List.pairwise_cons.2 ⟨fun z member => ?_, ih later⟩
        rcases List.mem_cons.1 ((sortedInsert_perm le x rest).mem_iff.1 member) with rfl | member
        · exact (total _ _).resolve_left not
        · exact first z member
  induction xs with
  | nil => exact .nil
  | cons x rest ih => exact insert x _ ih

/-- Elements that are compared as their images are end up where these do. -/
theorem stableSort_map {le' : β → β → Bool} {f : α → β}
    (same : ∀ a ∈ xs, ∀ b ∈ xs, le' (f a) (f b) = le a b) :
    stableSort le' (xs.map f) = (stableSort le xs).map f := by
  -- Sorting inserts one element after the other, so it is enough that each finds the same place.
  have insert : ∀ (x : α) (ys : List α), (∀ y ∈ ys, le' (f x) (f y) = le x y) →
      sortedInsert le' (f x) (ys.map f) = (sortedInsert le x ys).map f := by
    intro x ys alike
    induction ys with
    | nil => rfl
    | cons y rest ih =>
      rw [List.map_cons, sortedInsert, sortedInsert, alike y List.mem_cons_self]
      split
      · rfl
      · rw [ih fun z later => alike z (List.mem_cons_of_mem _ later), List.map_cons]
  induction xs with
  | nil => rfl
  | cons x rest ih =>
    change sortedInsert le' (f x) (stableSort le' (rest.map f)) =
      (sortedInsert le x (stableSort le rest)).map f
    rw [ih fun a first b second =>
      same a (List.mem_cons_of_mem _ first) b (List.mem_cons_of_mem _ second)]
    exact insert x _ fun y member => same x List.mem_cons_self y
      (List.mem_cons_of_mem _ ((stableSort_perm _ _).mem_iff.1 member))

/-- Sorting by rank leaves the elements of one rank in their order. -/
theorem filter_stableSort (n : Nat) (xs : List α) :
    (stableSort (fun a b => rank a ≤ rank b) xs).filter (rank · = n) =
      xs.filter (rank · = n) := by
  -- An element is put in behind lower ranks only.
  have insert : ∀ (x : α) (ys : List α),
      (sortedInsert (fun a b => rank a ≤ rank b) x ys).filter (rank · = n) =
        (x :: ys).filter (rank · = n) := by
    intro x ys
    induction ys with
    | nil => rfl
    | cons y rest ih =>
      unfold sortedInsert
      split
      · rfl
      · next above =>
        rw [decide_eq_true_eq, Nat.not_le] at above
        rw [List.filter_cons, ih]
        by_cases low : rank y = n
        · have high : rank x ≠ n := by omega
          simp [low, high]
        · simp [low, List.filter_cons]
  induction xs with
  | nil => rfl
  | cons x rest ih =>
    change (sortedInsert _ x (stableSort _ rest)).filter _ = _
    rw [insert, List.filter_cons, ih, List.filter_cons]

/-- Lists in order of rank are equal if they hold the same elements of each rank in the same order. -/
theorem eq_of_filter_rank (sorted : xs.Pairwise fun a b => rank a ≤ rank b)
    (sorted' : ys.Pairwise fun a b => rank a ≤ rank b)
    (same : ∀ n, xs.filter (rank · = n) = ys.filter (rank · = n)) : xs = ys := by
  induction xs generalizing ys with
  | nil =>
    cases ys with
    | nil => rfl
    | cons y rest => simpa using same (rank y)
  | cons x xs ih =>
    cases ys with
    | nil => simpa using same (rank x)
    | cons y ys =>
      obtain ⟨first, later⟩ := List.pairwise_cons.1 sorted
      obtain ⟨first', later'⟩ := List.pairwise_cons.1 sorted'
      -- Each head is in the other list, so neither rank is below the other.
      have inYs : x ∈ y :: ys :=
        (List.mem_filter.1 (same (rank x) ▸ by simp : x ∈ (y :: ys).filter (rank · = rank x))).1
      have inXs : y ∈ x :: xs :=
        (List.mem_filter.1 (same (rank y) ▸ by simp : y ∈ (x :: xs).filter (rank · = rank y))).1
      have below : rank y ≤ rank x := (List.mem_cons.1 inYs).elim (fun at_ => at_ ▸ Nat.le_refl _)
        (first' x)
      have above : rank x ≤ rank y := (List.mem_cons.1 inXs).elim (fun at_ => at_ ▸ Nat.le_refl _)
        (first y)
      have equal : rank x = rank y := Nat.le_antisymm above below
      have heads := same (rank y)
      rw [List.filter_cons_of_pos (by simpa using equal), List.filter_cons_of_pos (by simp)] at heads
      obtain ⟨rfl, _⟩ := List.cons.inj heads
      refine congrArg _ (ih later later' fun n => ?_)
      have rest := same n
      rw [List.filter_cons, List.filter_cons] at rest
      split at rest
      · exact (List.cons.inj rest).2
      · exact rest

/-- Lists that hold the same elements of each rank in the same order are sorted by rank alike. -/
theorem stableSort_congr (same : ∀ n, xs.filter (rank · = n) = ys.filter (rank · = n)) :
    stableSort (fun a b => rank a ≤ rank b) xs = stableSort (fun a b => rank a ≤ rank b) ys := by
  have sorted : ∀ zs : List α, (stableSort (fun a b => decide (rank a ≤ rank b)) zs).Pairwise
      fun a b => rank a ≤ rank b := fun zs =>
    (pairwise_stableSort zs (by simp only [decide_eq_true_eq]; omega)
      (by simp only [decide_eq_true_eq]; omega)).imp fun first => of_decide_eq_true first
  refine eq_of_filter_rank (sorted xs) (sorted ys) fun n => ?_
  rw [filter_stableSort, filter_stableSort, same]

end DocSync
