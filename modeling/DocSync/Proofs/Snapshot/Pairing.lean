import DocSync.Proofs.Alignment
import DocSync.Snapshot.Identity
import Mathlib.Algebra.Ring.Nat

/-!
Which records of two snapshots are paired. The alignment is cut around the longest common run, and on either
side of it again; records of a common run are paired place by place, and those of a stretch that differs are
paired kind by kind, the first with the first and so on, until one side has no more of the kind.
-/

namespace DocSync

namespace Alignment

variable {α κ ρ : Type} {x y i j m n : Nat} {runs : List Segment} {run : Segment}

/-! ### The stretches of an alignment -/

/-- An alignment as it is searched for: nothing in common, or the longest common run, the earliest of several,
and what lies on either side of it aligned the same way. -/
inductive Greedy : List α → List α → List Segment → Prop
  | apart {old new : List α} : (∀ x ∈ old, x ∉ new) → Greedy old new [.differ old.length new.length]
  | around {old new : List α} {b : Block} {front back : List Segment} : Longest old new b → b.size ≠ 0 →
    Greedy (old.take b.old) (new.take b.new) front →
    Greedy (old.drop (b.old + b.size)) (new.drop (b.new + b.size)) back →
    Greedy old new (front ++ .same b.size :: back)

theorem greedy_segmentsFrom [DecidableEq α] (fuel : Nat) (old new : List α) (enough : old.length < fuel) :
    Greedy old new (segmentsFrom fuel old new) := by
  induction fuel generalizing old new with
  | zero => omega
  | succ fuel ih =>
    have longest := longest_longestBlock old new
    obtain ⟨oldLe, -, -⟩ := longest.common
    rw [List.length_drop] at oldLe
    rw [segmentsFrom]
    split
    · next empty => exact .apart ((search_spec old new).2.2 empty)
    · next some_ => exact .around longest some_ (ih _ _ (by simp; omega)) (ih _ _ (by simp; omega))

theorem greedy_segments [DecidableEq α] (old new : List α) : Greedy old new (segments old new) :=
  greedy_segmentsFrom _ old new (Nat.lt_succ_self _)

/-- The elements of the old sequence that a stretch covers. -/
def Segment.oldSize : Segment → Nat
  | same n => n
  | differ m _ => m

/-- The elements of the new sequence that a stretch covers. -/
def Segment.newSize : Segment → Nat
  | same n => n
  | differ _ n => n

theorem Aligned.sum_oldSize {old new : List α} (aligned : Aligned old new runs) :
    (runs.map Segment.oldSize).sum = old.length := by
  induction aligned with
  | nil => rfl
  | same run _ ih => simp [Segment.oldSize, ih]
  | differ gone come _ _ ih => simp [Segment.oldSize, ih]

theorem Aligned.sum_newSize {old new : List α} (aligned : Aligned old new runs) :
    (runs.map Segment.newSize).sum = new.length := by
  induction aligned with
  | nil => rfl
  | same run _ ih => simp [Segment.newSize, ih]
  | differ gone come _ _ ih => simp [Segment.newSize, ih]

/-- A stretch of an alignment that begins at the places `i` and `j`. -/
def Stands (runs : List Segment) (i j : Nat) (run : Segment) : Prop :=
  ∃ before behind, runs = before ++ run :: behind ∧ i = (before.map Segment.oldSize).sum ∧
    j = (before.map Segment.newSize).sum

/-- Each place of the old sequence lies in a stretch. -/
theorem exists_stands (inside : x < (runs.map Segment.oldSize).sum) :
    ∃ i j run, Stands runs i j run ∧ i ≤ x ∧ x < i + run.oldSize := by
  induction runs generalizing x with
  | nil => simp at inside
  | cons first rest ih =>
    rw [List.map_cons, List.sum_cons] at inside
    by_cases here : x < first.oldSize
    · exact ⟨0, 0, first, ⟨[], rest, rfl, rfl, rfl⟩, Nat.zero_le _, by omega⟩
    · obtain ⟨_, _, run, ⟨before, behind, rfl, rfl, rfl⟩, low, high⟩ :=
        ih (show x - first.oldSize < (rest.map Segment.oldSize).sum by omega)
      exact ⟨_, _, run, ⟨first :: before, behind, rfl, rfl, rfl⟩, by simp; omega, by simp; omega⟩

/-- The two sides of the stretches before a place in an alignment, and of those behind it. -/
theorem Aligned.exists_append {front back : List Segment} {old new : List α}
    (aligned : Aligned old new (front ++ back)) :
    ∃ old₁ new₁ old₂ new₂, old = old₁ ++ old₂ ∧ new = new₁ ++ new₂ ∧ Aligned old₁ new₁ front ∧
      Aligned old₂ new₂ back := by
  induction front generalizing old new with
  | nil => exact ⟨[], [], old, new, rfl, rfl, .nil, aligned⟩
  | cons first rest ih =>
    rw [List.cons_append] at aligned
    cases aligned with
    | same run later =>
      obtain ⟨old₁, new₁, old₂, new₂, rfl, rfl, before, behind⟩ := ih later
      exact ⟨run ++ old₁, run ++ new₁, old₂, new₂, by simp, by simp, .same run before, behind⟩
    | differ gone come apart later =>
      obtain ⟨old₁, new₁, old₂, new₂, rfl, rfl, before, behind⟩ := ih later
      exact ⟨gone ++ old₁, come ++ new₁, old₂, new₂, by simp, by simp, .differ gone come apart before, behind⟩

section Pairs

variable [DecidableEq κ] (classOf : α → κ) {old new : List α}

/-- What is paired in a stretch depends on nothing outside of it. -/
theorem mem_pairsFrom_stands (aligned : Aligned old new runs) (stands : Stands runs i j run) :
    Aligned ((old.drop i).take run.oldSize) ((new.drop j).take run.newSize) [run] ∧
      i + run.oldSize ≤ old.length ∧ j + run.newSize ≤ new.length ∧
      ∀ x y, i ≤ x ∧ x < i + run.oldSize ∨ j ≤ y ∧ y < j + run.newSize →
        ((x, y) ∈ pairsFrom 0 0 (old.map classOf) (new.map classOf) runs ↔
          (x, y) ∈ pairsFrom i j (((old.drop i).take run.oldSize).map classOf)
            (((new.drop j).take run.newSize).map classOf) [run]) := by
  obtain ⟨before, behind, rfl, rfl, rfl⟩ := stands
  obtain ⟨old₁, new₁, _, _, rfl, rfl, first, later⟩ := aligned.exists_append
  rw [← List.singleton_append] at later
  obtain ⟨old₂, new₂, old₃, new₃, rfl, rfl, middle, last⟩ := later.exists_append
  have size := middle.sum_oldSize
  have size' := middle.sum_newSize
  simp only [List.map_cons, List.map_nil, List.sum_cons, List.sum_nil, Nat.add_zero] at size size'
  rw [first.sum_oldSize, first.sum_newSize, size, size']
  simp only [List.drop_left, List.take_left, List.length_append]
  refine ⟨middle, by omega, by omega, fun x y here => ?_⟩
  -- The pairs are those before the stretch, those in it and those behind it.
  rw [pairsFrom_append classOf first, ← List.singleton_append,
    pairsFrom_append classOf middle, List.mem_append, List.mem_append]
  have early := pairing_pairsFrom classOf first 0 0
  have late := pairing_pairsFrom classOf last (0 + old₁.length + old₂.length) (0 + new₁.length + new₂.length)
  simp only [Nat.zero_add] at early late ⊢
  constructor
  · rintro (outside | inside | outside)
    · obtain ⟨x', y', _, _, place, left, right, _⟩ := early.inside _ outside
      have := (List.getElem?_eq_some_iff.1 left).1
      have := (List.getElem?_eq_some_iff.1 right).1
      simp only [Prod.mk.injEq] at place
      omega
    · exact inside
    · obtain ⟨x', y', _, _, place, _⟩ := late.inside _ outside
      simp only [Prod.mk.injEq] at place
      omega
  · exact fun inside => .inr (.inl inside)

end Pairs

/-! ### First to first -/

section Queues

variable [DecidableEq κ] {k k' : κ}

/-- The numbers that stand under one class. -/
def ofClass (k : κ) (xs : List (κ × Nat)) : List Nat := (xs.filter (·.1 = k)).map Prod.snd

theorem ofClass_cons_self (k : κ) (n : Nat) (rest : List (κ × Nat)) :
    ofClass k ((k, n) :: rest) = n :: ofClass k rest := by
  simp [ofClass]

theorem ofClass_cons_of_ne (other : k' ≠ k) (n : Nat) (rest : List (κ × Nat)) :
    ofClass k ((k', n) :: rest) = ofClass k rest := by
  simp [ofClass, other]

/-- Taking the first one of a class leaves the others of the class, and all of every other class. -/
theorem ofClass_eraseP {xs : List (κ × Nat)} {c : κ} (found : xs.find? (·.1 = k) = some (c, n)) :
    ofClass k xs = n :: ofClass k (xs.eraseP (·.1 = k)) ∧
      ∀ k' ≠ k, ofClass k' (xs.eraseP (·.1 = k)) = ofClass k' xs := by
  induction xs with
  | nil => cases found
  | cons first rest ih =>
    obtain ⟨d, n'⟩ := first
    by_cases here : d = k
    · subst here
      simp only [List.find?_cons, decide_true, Option.some.injEq, Prod.mk.injEq] at found
      obtain ⟨-, rfl⟩ := found
      rw [List.eraseP_cons_of_pos (by simp)]
      exact ⟨ofClass_cons_self .., fun k' other => (ofClass_cons_of_ne (Ne.symm other) ..).symm⟩
    · simp only [List.find?_cons, here, decide_false] at found
      obtain ⟨same, others⟩ := ih found
      rw [List.eraseP_cons_of_neg (by simpa using here), ofClass_cons_of_ne here, ofClass_cons_of_ne here]
      refine ⟨same, fun k' other => ?_⟩
      by_cases mine : d = k'
      · subst mine
        rw [ofClass_cons_self, ofClass_cons_self, others d other]
      · rw [ofClass_cons_of_ne mine, ofClass_cons_of_ne mine, others k' other]

/-- Pairing by class pairs the numbers of each class in order. -/
theorem mem_pairByClass {old new : List (κ × Nat)} :
    (x, y) ∈ pairByClass old new ↔ ∃ k, (x, y) ∈ (ofClass k old).zip (ofClass k new) := by
  induction old generalizing new with
  | nil => simp [pairByClass, ofClass]
  | cons first rest ih =>
    obtain ⟨c, i⟩ := first
    rw [pairByClass]
    split
    · next d j found =>
      obtain ⟨mine, others⟩ := ofClass_eraseP found
      rw [List.mem_cons, ih]
      constructor
      · rintro (here | ⟨k, later⟩)
        · exact ⟨c, by rw [ofClass_cons_self, mine, here]; exact List.mem_cons_self⟩
        · by_cases same : c = k
          · subst same
            exact ⟨c, by rw [ofClass_cons_self, mine]; exact List.mem_cons_of_mem _ later⟩
          · exact ⟨k, by rwa [ofClass_cons_of_ne same, ← others k (Ne.symm same)]⟩
      · rintro ⟨k, paired⟩
        by_cases same : c = k
        · subst same
          rw [ofClass_cons_self, mine, List.zip_cons_cons, List.mem_cons] at paired
          exact paired.imp_right fun later => ⟨c, later⟩
        · rw [ofClass_cons_of_ne same, ← others k (Ne.symm same)] at paired
          exact .inr ⟨k, paired⟩
    · next none =>
      -- Nothing of the class is left on the other side.
      have empty : ofClass c new = [] := by
        rw [List.find?_eq_none] at none
        simpa [ofClass] using none
      rw [ih]
      refine exists_congr fun k => ?_
      by_cases same : c = k
      · subst same
        rw [empty, List.zip_nil_right, List.zip_nil_right]
      · rw [ofClass_cons_of_ne same]

/-- The places of a sequence, so many from `start` on, that hold elements of one class. -/
def placesOf (classOf : ρ → κ) (k : κ) (xs : List ρ) (start size : Nat) : List Nat :=
  (List.range' start size).filter fun x => xs[x]?.map classOf = some k

theorem mem_placesOf {classOf : ρ → κ} {xs : List ρ} {start size : Nat} :
    x ∈ placesOf classOf k xs start size ↔
      (start ≤ x ∧ x < start + size) ∧ xs[x]?.map classOf = some k := by
  simp [placesOf, List.mem_range'_1]

theorem ofClass_numbered (classOf : ρ → κ) (k : κ) (xs : List ρ) {start size : Nat}
    (inside : start + size ≤ xs.length) :
    ofClass k (numbered start (((xs.drop start).take size).map classOf)) =
      placesOf classOf k xs start size := by
  induction size generalizing start with
  | zero => simp [placesOf, ofClass, numbered]
  | succ size ih =>
    have here : start < xs.length := by omega
    have rest := ih (show start + 1 + size ≤ xs.length by omega)
    rw [List.drop_eq_getElem_cons here, List.take_succ_cons, List.map_cons, numbered, placesOf,
      List.range'_succ]
    rw [placesOf] at rest
    by_cases same : classOf xs[start] = k
    · rw [same, ofClass_cons_self, rest, List.filter_cons_of_pos (by simp [here, same])]
    · rw [ofClass_cons_of_ne same, rest, List.filter_cons_of_neg (by simp [here, same])]

/-- Of two rows paired in order, one is used up. -/
theorem exists_mem_zip {left right : List Nat} (inLeft : x ∈ left) (inRight : y ∈ right) :
    (∃ y', (x, y') ∈ left.zip right) ∨ ∃ x', (x', y) ∈ left.zip right := by
  obtain ⟨p, high, rfl⟩ := List.getElem_of_mem inLeft
  obtain ⟨q, high', rfl⟩ := List.getElem_of_mem inRight
  by_cases short : p < right.length
  · exact .inl ⟨right[p], List.mem_iff_getElem.2 ⟨p, by simp; omega, by simp⟩⟩
  · exact .inr ⟨left[q], List.mem_iff_getElem.2 ⟨q, by simp; omega, by simp⟩⟩

end Queues

/-! ### The pairs of an alignment -/

/-- Pairs of places drawn from the stretches of an alignment. -/
structure Drawn [DecidableEq κ] (keyOf : ρ → α) (classOf : ρ → κ) (old new : List ρ) (runs : List Segment)
    (pairs : List (Nat × Nat)) : Prop where
  /-- No place is paired with two. -/
  firsts : (pairs.map Prod.fst).Nodup
  seconds : (pairs.map Prod.snd).Nodup
  /-- What is paired stands on either side, and is of one class. -/
  alike : ∀ x y, (x, y) ∈ pairs → ∃ a b, old[x]? = some a ∧ new[y]? = some b ∧ classOf a = classOf b
  /-- A pair lies in one stretch, on both sides. -/
  within : ∀ x y, (x, y) ∈ pairs → ∃ i j run, Stands runs i j run ∧
    (i ≤ x ∧ x < i + run.oldSize) ∧ j ≤ y ∧ y < j + run.newSize
  /-- In a stretch that is the same on both sides each place has its pair, and equal keys stand there. -/
  same : ∀ i j n, Stands runs i j (.same n) → ∀ k < n, (i + k, j + k) ∈ pairs ∧
    ∃ a b, old[i + k]? = some a ∧ new[j + k]? = some b ∧ keyOf a = keyOf b
  /-- The pairs of all such stretches are in one order on both sides. -/
  order : ∀ i j n i' j' n', Stands runs i j (.same n) → Stands runs i' j' (.same n') →
    ∀ k < n, ∀ k' < n', i + k < i' + k' ↔ j + k < j' + k'
  /-- In a stretch that differs the elements of a class are paired first to first. -/
  differ : ∀ i j m n, Stands runs i j (.differ m n) → ∀ x y,
    i ≤ x ∧ x < i + m ∨ j ≤ y ∧ y < j + n → ((x, y) ∈ pairs ↔
      ∃ k, (x, y) ∈ (placesOf classOf k old i m).zip (placesOf classOf k new j n))
  /-- No element of a class is left over on both sides of such a stretch. -/
  spent : ∀ i j m n, Stands runs i j (.differ m n) → ∀ x y, i ≤ x ∧ x < i + m → j ≤ y ∧ y < j + n →
    ∀ a b, old[x]? = some a → new[y]? = some b → classOf a = classOf b →
      (∃ y', (x, y') ∈ pairs) ∨ ∃ x', (x', y) ∈ pairs
  /-- A stretch with nothing on the other side has no pairs. -/
  gone : ∀ i j m, Stands runs i j (.differ m 0) → ∀ x y, i ≤ x ∧ x < i + m → (x, y) ∉ pairs
  come : ∀ i j n, Stands runs i j (.differ 0 n) → ∀ x y, j ≤ y ∧ y < j + n → (x, y) ∉ pairs

section Draw

variable [DecidableEq α] [DecidableEq κ] (keyOf : ρ → α) (classOf : α → κ) (old new : List ρ)

/-- A stretch that is the same on both sides is paired place by place. -/
theorem mem_pairs_same (stands : Stands (segments (old.map keyOf) (new.map keyOf)) i j (.same n)) {k : Nat}
    (inside : k < n) : (i + k, j + k) ∈ pairs classOf (old.map keyOf) (new.map keyOf) ∧
      ∃ a b, old[i + k]? = some a ∧ new[j + k]? = some b ∧ keyOf a = keyOf b := by
  obtain ⟨middle, high, high', only⟩ :=
    mem_pairsFrom_stands classOf (aligned_segments (old.map keyOf) (new.map keyOf)) stands
  simp only [Segment.oldSize, Segment.newSize, List.length_map] at middle high high' only
  refine ⟨(only _ _ (by omega)).2 ?_, ?_⟩
  · rw [pairsFrom]
    exact List.mem_append_left _ (List.mem_map.2 ⟨k, List.mem_range.2 inside, rfl⟩)
  · have inOld : i + k < old.length := by omega
    have inNew : j + k < new.length := by omega
    -- The two sides of the stretch are one row of keys.
    have row : ((old.map keyOf).drop i).take n = ((new.map keyOf).drop j).take n := by
      generalize ((old.map keyOf).drop i).take n = left at middle
      generalize ((new.map keyOf).drop j).take n = right at middle
      cases middle with
      | same run rest => cases rest with | nil => rfl
    have here := congrArg (·[k]?) row
    simp only [List.getElem?_take, inside, if_true, List.getElem?_drop, List.getElem?_map,
      List.getElem?_eq_getElem inOld, List.getElem?_eq_getElem inNew, Option.map_some,
      Option.some.injEq] at here
    exact ⟨_, _, List.getElem?_eq_getElem inOld, List.getElem?_eq_getElem inNew, here⟩

/-- In a stretch that differs the elements of a class are paired first to first. -/
theorem mem_pairs_differ (stands : Stands (segments (old.map keyOf) (new.map keyOf)) i j (.differ m n))
    (here : i ≤ x ∧ x < i + m ∨ j ≤ y ∧ y < j + n) :
    (x, y) ∈ pairs classOf (old.map keyOf) (new.map keyOf) ↔
      ∃ k, (x, y) ∈
        (placesOf (classOf ∘ keyOf) k old i m).zip (placesOf (classOf ∘ keyOf) k new j n) := by
  obtain ⟨middle, high, high', only⟩ :=
    mem_pairsFrom_stands classOf (aligned_segments (old.map keyOf) (new.map keyOf)) stands
  simp only [Segment.oldSize, Segment.newSize, List.length_map] at middle high high' only
  have row : ∀ (k : κ) (xs : List ρ) (start size : Nat), start + size ≤ xs.length →
      ofClass k (numbered start (((((xs.map keyOf).drop start).take size).map classOf).take size)) =
        placesOf (classOf ∘ keyOf) k xs start size := by
    intro k xs start size inside
    rw [← ofClass_numbered _ _ _ inside]
    simp only [List.map_drop, List.map_take, List.map_map, List.take_take, Nat.min_self]
  rw [pairs, only _ _ here, pairsFrom, pairsFrom, List.append_nil, mem_pairByClass]
  simp only [row _ old i m high, row _ new j n high']

/-- The pairs of an alignment are drawn from its stretches. -/
theorem drawn_pairs : Drawn keyOf (classOf ∘ keyOf) old new (segments (old.map keyOf) (new.map keyOf))
    (pairs classOf (old.map keyOf) (new.map keyOf)) := by
  have aligned := aligned_segments (old.map keyOf) (new.map keyOf)
  have pairing := pairing_pairs classOf (old.map keyOf) (new.map keyOf)
  have alike : ∀ x y, (x, y) ∈ pairs classOf (old.map keyOf) (new.map keyOf) →
      ∃ a b, old[x]? = some a ∧ new[y]? = some b ∧ classOf (keyOf a) = classOf (keyOf b) := by
    intro x y paired
    obtain ⟨_, _, left, right, same⟩ := pairing.exists_of_mem paired
    rw [List.getElem?_map, Option.map_eq_some_iff] at left right
    obtain ⟨a, left, rfl⟩ := left
    obtain ⟨b, right, rfl⟩ := right
    exact ⟨a, b, left, right, same⟩
  exact
    { firsts := pairing.firsts
      seconds := pairing.seconds
      alike := alike
      within := by
        intro x y paired
        obtain ⟨a, b, left, right, same⟩ := alike x y paired
        have inside : x < ((segments (old.map keyOf) (new.map keyOf)).map Segment.oldSize).sum := by
          rw [aligned.sum_oldSize, List.length_map]
          exact (List.getElem?_eq_some_iff.1 left).1
        obtain ⟨i, j, run, stands, place⟩ := exists_stands inside
        obtain ⟨middle, -, -, only⟩ := mem_pairsFrom_stands classOf aligned stands
        -- What is paired in the stretch lies in it on the other side as well.
        obtain ⟨x', y', _, _, same, _, right, _⟩ :=
          (pairing_pairsFrom classOf middle i j).inside _ ((only x y (.inl place)).1 paired)
        have bound := (List.getElem?_eq_some_iff.1 right).1
        simp only [Prod.mk.injEq, List.length_take] at same bound
        exact ⟨i, j, run, stands, place, by omega, by omega⟩
      same := fun i j n stands k inside => mem_pairs_same keyOf classOf old new stands inside
      order := by
        intro i j n i' j' n' stands stands' k inside k' inside'
        obtain ⟨paired, a, b, left, right, same⟩ := mem_pairs_same keyOf classOf old new stands inside
        obtain ⟨paired', -⟩ := mem_pairs_same keyOf classOf old new stands' inside'
        exact (pairing.order (a := keyOf a) paired paired' (by simp [left])
          (by simp [right, same])).1
      differ := fun i j m n stands x y here => mem_pairs_differ keyOf classOf old new stands here
      spent := by
        intro i j m n stands x y here here' a b left right same
        have inLeft : x ∈ placesOf (classOf ∘ keyOf) (classOf (keyOf a)) old i m :=
          mem_placesOf.2 ⟨here, by simp [left]⟩
        have inRight : y ∈ placesOf (classOf ∘ keyOf) (classOf (keyOf a)) new j n :=
          mem_placesOf.2 ⟨here', by simpa [right] using same.symm⟩
        refine (exists_mem_zip inLeft inRight).imp (fun ⟨y', zipped⟩ => ⟨y', ?_⟩) fun ⟨x', zipped⟩ => ⟨x', ?_⟩
        · exact (mem_pairs_differ keyOf classOf old new stands (.inl here)).2 ⟨_, zipped⟩
        · exact (mem_pairs_differ keyOf classOf old new stands (.inr here')).2 ⟨_, zipped⟩
      gone := by
        intro i j m stands x y here paired
        obtain ⟨k, zipped⟩ := (mem_pairs_differ keyOf classOf old new stands (.inl here)).1 paired
        exact absurd (List.of_mem_zip zipped).2 (by simp [placesOf])
      come := by
        intro i j n stands x y here paired
        obtain ⟨k, zipped⟩ := (mem_pairs_differ keyOf classOf old new stands (.inr here)).1 paired
        exact absurd (List.of_mem_zip zipped).1 (by simp [placesOf]) }

end Draw

end Alignment

namespace Snapshot

open DocSync.Alignment in
/-- Which records of two snapshots are paired: the contents are aligned around the longest common runs, and
the pairs are drawn from the stretches, by content in those that are the same and by kind in those that
differ. What kinds and what fields there are does not matter. -/
theorem recordPairs_drawn :
    (∀ old new : List (Record String),
      Greedy (old.map Record.contentKey) (new.map Record.contentKey)
        (segments (old.map Record.contentKey) (new.map Record.contentKey)) ∧
      Drawn Record.contentKey Record.kind old new
        (segments (old.map Record.contentKey) (new.map Record.contentKey)) (recordPairs old new)) ∧
    ∀ (κ φ : Type) [DecidableEq κ] [DecidableEq φ] (old new : List (κ × φ)),
      Greedy old new (segments old new) ∧
      Drawn id Prod.fst old new (segments old new) (pairs Prod.fst old new) := by
  refine ⟨fun old new => ⟨greedy_segments _ _, drawn_pairs Record.contentKey Prod.fst old new⟩,
    fun κ φ _ _ old new => ⟨greedy_segments _ _, ?_⟩⟩
  have drawn := drawn_pairs id (Prod.fst : κ × φ → κ) old new
  rwa [List.map_id, List.map_id] at drawn

end Snapshot

end DocSync
