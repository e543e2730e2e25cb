import DocSync.Alignment
import Mathlib.Data.List.Nodup

/-!
What the alignment of two sequences guarantees: its stretches make up both of them, those that are
the same are, and those that differ have no element in common. So the pairs drawn from it are one to
one, join elements of one class, and a pair of equal elements crosses no other pair.
-/

namespace DocSync.Alignment

variable {α κ : Type}

/-- Two sequences begin with the same run of so many elements. -/
structure Common (old new : List α) (n : Nat) : Prop where
  old_le : n ≤ old.length
  new_le : n ≤ new.length
  take_eq : old.take n = new.take n

/-- Stretches that make up two sequences. -/
inductive Aligned : List α → List α → List Segment → Prop
  | nil : Aligned [] [] []
  | same {old new : List α} {rest : List Segment} (run : List α) :
    Aligned old new rest → Aligned (run ++ old) (run ++ new) (.same run.length :: rest)
  | differ {old new : List α} {rest : List Segment} (gone come : List α) :
    (∀ x ∈ gone, x ∉ come) → Aligned old new rest →
      Aligned (gone ++ old) (come ++ new) (.differ gone.length come.length :: rest)

theorem Aligned.append {old old' new new' : List α} {front back : List Segment}
    (first : Aligned old new front) (second : Aligned old' new' back) :
    Aligned (old ++ old') (new ++ new') (front ++ back) := by
  induction first with
  | nil => exact second
  | same run _ ih =>
    rw [List.append_assoc, List.append_assoc]
    exact .same run ih
  | differ gone come apart _ ih =>
    rw [List.append_assoc, List.append_assoc]
    exact .differ gone come apart ih

/-! ### The longest common run -/

section Search

variable [DecidableEq α]

theorem getD_runsAt (x : α) (new : List α) (below : List Nat) (j : Nat) :
    (runsAt x new below).getD j 0 = if new[j]? = some x then below.getD (j + 1) 0 + 1 else 0 := by
  induction new generalizing below j with
  | nil => simp [runsAt]
  | cons y rest ih =>
    cases j with
    | zero =>
      simp [runsAt, eq_comm]
    | succ j =>
      have shifted : below.tail.getD (j + 1) 0 = below.getD (j + 2) 0 := by
        cases below <;> simp
      simp only [runsAt, List.getD_cons_succ, ih, List.getElem?_cons_succ, shifted]

/-- The greatest of several lengths stands at its place and none is greater; none before it is as
great. -/
theorem greatest_spec (lengths : List Nat) :
    lengths.getD (greatest lengths).2 0 = (greatest lengths).1 ∧
      (∀ j, lengths.getD j 0 ≤ (greatest lengths).1) ∧
      ∀ j, (greatest lengths).1 ≤ lengths.getD j 0 → (greatest lengths).2 ≤ j := by
  induction lengths with
  | nil => simp [greatest]
  | cons n rest ih =>
    obtain ⟨stands, most, first⟩ := ih
    unfold greatest
    -- The head wins a tie, so the first of the greatest is found.
    by_cases wins : (greatest rest).1 ≤ n
    · simp only [wins, if_true]
      refine ⟨rfl, fun j => ?_, fun j _ => Nat.zero_le j⟩
      cases j with
      | zero => simp
      | succ j => exact Nat.le_trans (most j) wins
    · simp only [wins, if_false]
      refine ⟨by simpa using stands, fun j => ?_, fun j great => ?_⟩
      · cases j with
        | zero => simp; omega
        | succ j => simpa using most j
      · cases j with
        | zero => simp at great; omega
        | succ j => exact Nat.succ_le_succ (first j (by simpa using great))

/-- The runs that start at the first old element are what they are said to be, and the longest block
is common to both sequences; only if they have no element in common it is empty. -/
theorem search_spec (old new : List α) :
    (∀ j, Common old (new.drop j) ((search new old).1.getD j 0)) ∧
      Common (old.drop (search new old).2.old) (new.drop (search new old).2.new)
        (search new old).2.size ∧
      ((search new old).2.size = 0 → ∀ x ∈ old, x ∉ new) := by
  induction old with
  | nil => exact ⟨fun j => ⟨by simp [search], by simp [search], by simp [search]⟩,
      ⟨by simp [search], by simp [search], by simp [search]⟩, by simp⟩
  | cons x rest ih =>
    obtain ⟨runs, block, apart⟩ := ih
    have here : ∀ j, Common (x :: rest) (new.drop j)
        ((runsAt x new (search new rest).1).getD j 0) := by
      intro j
      rw [getD_runsAt]
      by_cases found : new[j]? = some x
      · obtain ⟨inside, element⟩ := List.getElem?_eq_some_iff.1 found
        obtain ⟨oldLe, newLe, same⟩ := runs (j + 1)
        rw [if_pos found, List.drop_eq_getElem_cons inside, element]
        exact ⟨by simpa using oldLe, by simpa using newLe,
          by rw [List.take_succ_cons, List.take_succ_cons, same]⟩
      · rw [if_neg found]
        exact ⟨by simp, by simp, by simp⟩
    obtain ⟨stands, most, -⟩ := greatest_spec (runsAt x new (search new rest).1)
    have longest := here (greatest (runsAt x new (search new rest).1)).2
    rw [stands] at longest
    refine ⟨here, ?_⟩
    unfold search
    by_cases wins : (search new rest).2.size ≤ (greatest (runsAt x new (search new rest).1)).1
    · simp only [wins, if_true]
      refine ⟨longest, fun none => ?_⟩
      -- Without any run neither the first element nor the rest occurs on the other side.
      have restApart := apart (by omega)
      intro y member
      rcases List.mem_cons.1 member with same | later
      · subst same
        intro inside
        obtain ⟨j, found⟩ := List.getElem?_of_mem inside
        have bound := most j
        rw [getD_runsAt, if_pos found] at bound
        omega
      · exact restApart y later
    · simp only [wins, if_false]
      exact ⟨block, fun none => by omega⟩

/-- The stretches of an alignment make up both sequences. -/
theorem aligned_segmentsFrom (fuel : Nat) (old new : List α) (enough : old.length < fuel) :
    Aligned old new (segmentsFrom fuel old new) := by
  induction fuel generalizing old new with
  | zero => omega
  | succ fuel ih =>
    obtain ⟨_, ⟨oldLe, newLe, same⟩, apart⟩ := search_spec old new
    unfold segmentsFrom longestBlock
    generalize (search new old).2 = block at *
    -- With nothing in common all of it differs; otherwise both sides are cut around the block.
    by_cases empty : block.size = 0
    · simp only [empty, if_true]
      simpa using Aligned.differ old new (apart empty) .nil
    · simp only [empty, if_false]
      simp only [List.length_drop] at oldLe newLe
      have before := ih (old.take block.old) (new.take block.new) (by simp; omega)
      have behind := ih (old.drop (block.old + block.size)) (new.drop (block.new + block.size))
        (by simp; omega)
      have middle := behind.same ((old.drop block.old).take block.size)
      have size : ((old.drop block.old).take block.size).length = block.size := by simp; omega
      rw [size] at middle
      have whole := before.append middle
      simp only [← List.drop_drop] at whole ⊢
      rw [List.take_append_drop, List.take_append_drop, same, List.take_append_drop,
        List.take_append_drop] at whole
      exact whole

theorem aligned_segments (old new : List α) : Aligned old new (segments old new) :=
  aligned_segmentsFrom _ old new (by omega)

end Search

/-! ### Pairs -/

/-- An element stands at a number counted from `start`. -/
theorem mem_numbered {start n : Nat} {k : κ} {classes : List κ} :
    (k, n) ∈ numbered start classes ↔ ∃ x, n = start + x ∧ classes[x]? = some k := by
  induction classes generalizing start with
  | nil => simp [numbered]
  | cons c rest ih =>
    rw [numbered, List.mem_cons, ih]
    constructor
    · rintro (same | ⟨x, place, found⟩)
      · cases same
        exact ⟨0, by simp⟩
      · exact ⟨x + 1, by omega, by simpa using found⟩
    · rintro ⟨x, place, found⟩
      cases x with
      | zero => exact .inl (by simp_all)
      | succ x => exact .inr ⟨x, by omega, by simpa using found⟩

/-- No number is given twice. -/
theorem nodup_numbered (start : Nat) (classes : List κ) :
    ((numbered start classes).map Prod.snd).Nodup := by
  induction classes generalizing start with
  | nil => simp [numbered]
  | cons c rest ih =>
    rw [numbered, List.map_cons, List.nodup_cons]
    refine ⟨fun member => ?_, ih (start + 1)⟩
    obtain ⟨⟨k, n⟩, inside, same⟩ := List.mem_map.1 member
    obtain ⟨x, place, _⟩ := mem_numbered.1 inside
    simp only at same
    omega

section Pairs

variable [DecidableEq κ]

/-- What is paired by class stands on either side under one class. -/
theorem of_mem_pairByClass {old new : List (κ × Nat)} {p : Nat × Nat}
    (paired : p ∈ pairByClass old new) : ∃ k, (k, p.1) ∈ old ∧ (k, p.2) ∈ new := by
  induction old generalizing new with
  | nil => cases paired
  | cons first rest ih =>
    obtain ⟨k, i⟩ := first
    unfold pairByClass at paired
    -- The head is paired with the first one of its class, which then is no longer on offer.
    split at paired
    · next c j found =>
      have same : c = k := by simpa using List.find?_some found
      subst same
      rcases List.mem_cons.1 paired with here | later
      · subst here
        exact ⟨c, List.mem_cons_self, List.mem_of_find?_eq_some found⟩
      · obtain ⟨d, left, right⟩ := ih later
        exact ⟨d, List.mem_cons_of_mem _ left, List.mem_of_mem_eraseP right⟩
    · obtain ⟨d, left, right⟩ := ih paired
      exact ⟨d, List.mem_cons_of_mem _ left, right⟩

/-- Pairing by class uses each number once. -/
theorem nodup_pairByClass {old new : List (κ × Nat)} (oldOnce : (old.map Prod.snd).Nodup)
    (newOnce : (new.map Prod.snd).Nodup) :
    ((pairByClass old new).map Prod.fst).Nodup ∧ ((pairByClass old new).map Prod.snd).Nodup := by
  induction old generalizing new with
  | nil => simp [pairByClass]
  | cons first rest ih =>
    obtain ⟨k, i⟩ := first
    obtain ⟨fresh, restOnce⟩ := List.nodup_cons.1 oldOnce
    unfold pairByClass
    split
    · next c j found =>
      have fewer : (new.eraseP (·.1 = k)).Sublist new := List.eraseP_sublist
      obtain ⟨firsts, seconds⟩ := ih restOnce (newOnce.sublist (fewer.map Prod.snd))
      rw [List.map_cons, List.map_cons, List.nodup_cons, List.nodup_cons]
      refine ⟨⟨fun member => ?_, firsts⟩, fun member => ?_, seconds⟩
      · obtain ⟨p, inside, same⟩ := List.mem_map.1 member
        obtain ⟨d, left, _⟩ := of_mem_pairByClass inside
        exact fresh (List.mem_map.2 ⟨_, left, same⟩)
      · obtain ⟨p, inside, same⟩ := List.mem_map.1 member
        obtain ⟨d, _, right⟩ := of_mem_pairByClass inside
        -- The number that was used is gone from what is left.
        obtain ⟨before, behind, none, split⟩ := List.find?_eq_some_iff_append.1 found |>.2
        have class_ := List.find?_some found
        have left : new.eraseP (·.1 = k) = before ++ behind := by
          rw [none, List.eraseP_append_right]
          · congr 1
            exact List.eraseP_cons_of_pos class_
          · simpa using split
        rw [left] at right
        rw [none, List.map_append, List.map_cons] at newOnce
        have apart := (List.nodup_middle.1 newOnce)
        rw [← List.map_append, List.nodup_cons] at apart
        exact apart.1 (List.mem_map.2 ⟨_, right, same⟩)
    · exact ih restOnce newOnce

/-- Pairs of places in two sequences, counted from the places `i` and `j`: one to one, of one class,
and none crosses a pair of equal elements. -/
structure Pairing (classOf : α → κ) (old new : List α) (i j : Nat) (pairs : List (Nat × Nat)) :
    Prop where
  inside : ∀ p ∈ pairs, ∃ x y a b, p = (i + x, j + y) ∧ old[x]? = some a ∧ new[y]? = some b ∧
    classOf a = classOf b
  firsts : (pairs.map Prod.fst).Nodup
  seconds : (pairs.map Prod.snd).Nodup
  straight : ∀ {x y x' y' a}, (i + x, j + y) ∈ pairs → (i + x', j + y') ∈ pairs →
    old[x]? = some a → new[y]? = some a → (x < x' ↔ y < y') ∧ (x' < x ↔ y' < y)

variable {classOf : α → κ} {old new old' new' : List α} {i j : Nat}

omit [DecidableEq κ] in
theorem Pairing.append {front back : List (Nat × Nat)} (first : Pairing classOf old new i j front)
    (second : Pairing classOf old' new' (i + old.length) (j + new.length) back) :
    Pairing classOf (old ++ old') (new ++ new') i j (front ++ back) := by
  -- The two parts lie one after the other on both sides.
  have low : ∀ {x y}, (i + x, j + y) ∈ front → x < old.length ∧ y < new.length := by
    intro x y member
    obtain ⟨x', y', a, b, same, left, right, _⟩ := first.inside _ member
    have := (List.getElem?_eq_some_iff.1 left).1
    have := (List.getElem?_eq_some_iff.1 right).1
    simp only [Prod.mk.injEq] at same
    omega
  have high : ∀ {x y}, (i + x, j + y) ∈ back → old.length ≤ x ∧ new.length ≤ y := by
    intro x y member
    obtain ⟨x', y', a, b, same, _⟩ := second.inside _ member
    simp only [Prod.mk.injEq] at same
    omega
  have apart : ∀ {p q}, p ∈ front → q ∈ back → p.1 < q.1 ∧ p.2 < q.2 := by
    intro p q early late
    obtain ⟨x, y, a, b, rfl, _⟩ := first.inside p early
    obtain ⟨x', y', a', b', rfl, _⟩ := second.inside q late
    have := low early
    simp only
    omega
  have shifted : ∀ {x y}, (i + x, j + y) ∈ back → (i + old.length + (x - old.length),
      j + new.length + (y - new.length)) ∈ back := by
    intro x y member
    have := high member
    rwa [show i + old.length + (x - old.length) = i + x by omega,
      show j + new.length + (y - new.length) = j + y by omega]
  refine ⟨fun p member => ?_, ?_, ?_, fun {x y x' y' a} left right oldAt newAt => ?_⟩
  · rcases List.mem_append.1 member with early | late
    · obtain ⟨x, y, a, b, same, left, right, equal⟩ := first.inside p early
      refine ⟨x, y, a, b, same, ?_, ?_, equal⟩
      · rw [List.getElem?_append_left (List.getElem?_eq_some_iff.1 left).1, left]
      · rw [List.getElem?_append_left (List.getElem?_eq_some_iff.1 right).1, right]
    · obtain ⟨x, y, a, b, same, left, right, equal⟩ := second.inside p late
      refine ⟨old.length + x, new.length + y, a, b, ?_, ?_, ?_, equal⟩
      · simpa only [Nat.add_assoc] using same
      · rwa [List.getElem?_append_right (by omega), Nat.add_sub_cancel_left]
      · rwa [List.getElem?_append_right (by omega), Nat.add_sub_cancel_left]
  · rw [List.map_append, List.nodup_append]
    refine ⟨first.firsts, second.firsts, fun n early k late => ?_⟩
    obtain ⟨p, member, rfl⟩ := List.mem_map.1 early
    obtain ⟨q, member', rfl⟩ := List.mem_map.1 late
    exact Nat.ne_of_lt (apart member member').1
  · rw [List.map_append, List.nodup_append]
    refine ⟨first.seconds, second.seconds, fun n early k late => ?_⟩
    obtain ⟨p, member, rfl⟩ := List.mem_map.1 early
    obtain ⟨q, member', rfl⟩ := List.mem_map.1 late
    exact Nat.ne_of_lt (apart member member').2
  · rcases List.mem_append.1 left with early | late <;>
      rcases List.mem_append.1 right with early' | late'
    · obtain ⟨inOld, inNew⟩ := low early
      rw [List.getElem?_append_left inOld] at oldAt
      rw [List.getElem?_append_left inNew] at newAt
      exact first.straight early early' oldAt newAt
    · have := low early
      have := high late'
      omega
    · have := high late
      have := low early'
      omega
    · obtain ⟨outOld, outNew⟩ := high late
      have := high late'
      rw [List.getElem?_append_right outOld] at oldAt
      rw [List.getElem?_append_right outNew] at newAt
      have order := second.straight (shifted late) (shifted late') oldAt newAt
      omega

omit [DecidableEq κ] in
/-- The places of a run that is the same on both sides. -/
theorem pairing_same (classOf : α → κ) (run : List α) (i j : Nat) :
    Pairing classOf run run i j ((List.range run.length).map fun k => (i + k, j + k)) where
  inside p member := by
    obtain ⟨k, inside, rfl⟩ := List.mem_map.1 member
    have inside := List.mem_range.1 inside
    exact ⟨k, k, run[k], run[k], rfl, by simp [inside], by simp [inside], rfl⟩
  firsts := by
    rw [List.map_map]
    exact List.nodup_range.map fun k k' same => by simpa using same
  seconds := by
    rw [List.map_map]
    exact List.nodup_range.map fun k k' same => by simpa using same
  straight left right _ _ := by
    obtain ⟨k, _, same⟩ := List.mem_map.1 left
    obtain ⟨k', _, same'⟩ := List.mem_map.1 right
    simp only [Prod.mk.injEq] at same same'
    omega

/-- The pairs of two stretches without a common element. -/
theorem pairing_differ (classOf : α → κ) {gone come : List α} (apart : ∀ x ∈ gone, x ∉ come)
    (i j : Nat) :
    Pairing classOf gone come i j
      (pairByClass (numbered i (gone.map classOf)) (numbered j (come.map classOf))) := by
  have inside : ∀ p ∈ pairByClass (numbered i (gone.map classOf)) (numbered j (come.map classOf)),
      ∃ x y a b, p = (i + x, j + y) ∧ gone[x]? = some a ∧ come[y]? = some b ∧
        classOf a = classOf b := by
    intro p member
    obtain ⟨k, left, right⟩ := of_mem_pairByClass member
    obtain ⟨x, placeX, foundX⟩ := mem_numbered.1 left
    obtain ⟨y, placeY, foundY⟩ := mem_numbered.1 right
    rw [List.getElem?_map, Option.map_eq_some_iff] at foundX foundY
    obtain ⟨a, atX, classX⟩ := foundX
    obtain ⟨b, atY, classY⟩ := foundY
    exact ⟨x, y, a, b, Prod.ext placeX placeY, atX, atY, classX.trans classY.symm⟩
  obtain ⟨firsts, seconds⟩ := nodup_pairByClass (nodup_numbered i (gone.map classOf))
    (nodup_numbered j (come.map classOf))
  refine ⟨inside, firsts, seconds, fun {x y _ _ a} left _ oldAt newAt => ?_⟩
  -- Nothing is common to the two sides, so the last condition asks for nothing.
  exact absurd (List.mem_of_getElem? newAt) (apart a (List.mem_of_getElem? oldAt))

/-- The pairs drawn from stretches that make up two sequences. -/
theorem pairing_pairsFrom (classOf : α → κ) {segments : List Segment}
    (aligned : Aligned old new segments) (i j : Nat) :
    Pairing classOf old new i j
      (pairsFrom i j (old.map classOf) (new.map classOf) segments) := by
  induction aligned generalizing i j with
  | nil => constructor <;> simp [pairsFrom]
  | same run _ ih =>
    have rest := ih (i + run.length) (j + run.length)
    simpa [pairsFrom] using (pairing_same classOf run i j).append rest
  | differ gone come apart _ ih =>
    have rest := ih (i + gone.length) (j + come.length)
    simpa [pairsFrom] using (pairing_differ classOf apart i j).append rest

/-- The pairs of an alignment are one to one, join elements of one class, and cross no pair of equal
elements. -/
theorem pairing_pairs [DecidableEq α] (classOf : α → κ) (old new : List α) :
    Pairing classOf old new 0 0 (pairs classOf old new) :=
  pairing_pairsFrom classOf (aligned_segments old new) 0 0

namespace Pairing

variable {pairs : List (Nat × Nat)} {x y x' y' : Nat} {a : α}
  (pairing : Pairing classOf old new 0 0 pairs)
include pairing

omit [DecidableEq κ] in
/-- What is paired stands on either side. -/
theorem exists_of_mem (paired : (x, y) ∈ pairs) :
    ∃ a b, old[x]? = some a ∧ new[y]? = some b ∧ classOf a = classOf b := by
  obtain ⟨x', y', a, b, place, left, right, same⟩ := pairing.inside _ paired
  simp only [Nat.zero_add, Prod.mk.injEq] at place
  obtain ⟨rfl, rfl⟩ := place
  exact ⟨a, b, left, right, same⟩

omit [DecidableEq κ] in
/-- A pair of equal elements is crossed by none. -/
theorem order (first : (x, y) ∈ pairs) (second : (x', y') ∈ pairs) (left : old[x]? = some a)
    (right : new[y]? = some a) : (x < x' ↔ y < y') ∧ (x' < x ↔ y' < y) := by
  have straight : (0 + x, 0 + y) ∈ pairs → (0 + x', 0 + y') ∈ pairs → old[x]? = some a →
      new[y]? = some a → (x < x' ↔ y < y') ∧ (x' < x ↔ y' < y) := pairing.straight
  simp only [Nat.zero_add] at straight
  exact straight first second left right

end Pairing

end Pairs

/-! ### The longest run -/

section Longest

variable [DecidableEq α] {old new : List α} {b b' : Block}

/-- A block is the longest run that two sequences have in common, and of several the earliest: first in
the old sequence, and then in the new one. -/
structure Longest (old new : List α) (b : Block) : Prop where
  common : Common (old.drop b.old) (new.drop b.new) b.size
  most : ∀ {i j n}, Common (old.drop i) (new.drop j) n → n ≤ b.size
  firstOld : ∀ {i j}, Common (old.drop i) (new.drop j) b.size → b.old ≤ i
  firstNew : ∀ {j}, Common (old.drop b.old) (new.drop j) b.size → b.new ≤ j

omit [DecidableEq α] in
/-- There is one such block at most. -/
theorem Longest.unique (longest : Longest old new b) (longest' : Longest old new b') : b = b' := by
  -- Each is as long as the other, and then each starts no later than the other.
  have size : b.size = b'.size :=
    Nat.le_antisymm (longest'.most longest.common) (longest.most longest'.common)
  have left : b.old = b'.old := Nat.le_antisymm (longest.firstOld (size ▸ longest'.common))
    (longest'.firstOld (size ▸ longest.common))
  have right : b.new = b'.new := Nat.le_antisymm
    (longest.firstNew (by rw [left, size]; exact longest'.common))
    (longest'.firstNew (by rw [← left, ← size]; exact longest.common))
  cases b
  cases b'
  cases size
  cases left
  cases right
  rfl

/-- No run that starts at the first old element is longer than it is said to be. -/
theorem le_getD_search {j n : Nat} (common : Common old (new.drop j) n) :
    n ≤ (search new old).1.getD j 0 := by
  induction old generalizing j n with
  | nil => exact Nat.le_trans common.old_le (Nat.zero_le _)
  | cons x rest ih =>
    cases n with
    | zero => exact Nat.zero_le _
    | succ n =>
      obtain ⟨oldLe, newLe, same⟩ := common
      have inside : j < new.length := by
        rw [List.length_drop] at newLe
        omega
      rw [List.drop_eq_getElem_cons inside, List.take_succ_cons, List.take_succ_cons,
        List.cons.injEq] at same
      have found : new[j]? = some x := by rw [List.getElem?_eq_getElem inside, same.1]
      -- What the two sides have in common goes on one place further.
      have later : Common rest (new.drop (j + 1)) n :=
        ⟨by simpa using oldLe, by rw [List.length_drop] at newLe ⊢; omega, same.2⟩
      change n + 1 ≤ (runsAt x new (search new rest).1).getD j 0
      rw [getD_runsAt, if_pos found]
      exact Nat.succ_le_succ (ih later)

/-- The block that is searched for is found. -/
theorem longest_longestBlock (old new : List α) : Longest old new (longestBlock old new) := by
  unfold longestBlock
  induction old with
  | nil =>
    exact ⟨(search_spec [] new).2.1, fun common => by simpa [search] using common.old_le,
      fun _ => Nat.zero_le _, fun _ => Nat.zero_le _⟩
  | cons x rest ih =>
    obtain ⟨-, most, first⟩ := greatest_spec (runsAt x new (search new rest).1)
    have bound := fun {j n} (common : Common (x :: rest) (new.drop j) n) =>
      show n ≤ (runsAt x new (search new rest).1).getD j 0 from le_getD_search common
    have found := (search_spec (x :: rest) new).2.1
    unfold search at found ⊢
    -- The block is that of the rest, unless a run from the head is as long.
    by_cases wins : (search new rest).2.size ≤ (greatest (runsAt x new (search new rest).1)).1
    · simp only [wins, if_true] at found ⊢
      refine ⟨found, fun {i j n} common => ?_, fun _ => Nat.zero_le _,
        fun common => first _ (bound common)⟩
      cases i with
      | zero => exact Nat.le_trans (bound common) (most j)
      | succ i => exact Nat.le_trans (ih.most common) wins
    · simp only [wins, if_false] at found ⊢
      refine ⟨found, fun {i j n} common => ?_, fun {i j} common => ?_, fun common => ih.firstNew common⟩
      · cases i with
        | zero => exact Nat.le_trans (bound common) (Nat.le_trans (most j) (Nat.le_of_not_le wins))
        | succ i => exact ih.most common
      · cases i with
        | zero => exact absurd (Nat.le_trans (bound common) (most j)) wins
        | succ i => exact Nat.succ_le_succ (ih.firstOld common)

theorem Longest.longestBlock_eq (longest : Longest old new b) : longestBlock old new = b :=
  (longest_longestBlock old new).unique longest

omit [DecidableEq α] in
/-- The longest run of a sequence with one that begins with it is the whole sequence. -/
theorem longest_of_start (old tail : List α) : Longest old (old ++ tail) ⟨0, 0, old.length⟩ where
  common := ⟨Nat.le_refl _, by simp, by simp⟩
  most common := Nat.le_trans common.old_le (by simp)
  firstOld _ := Nat.zero_le _
  firstNew _ := Nat.zero_le _

end Longest

/-! ### Pairs around the longest run -/

section Around

variable [DecidableEq κ] (classOf : α → κ) {old new : List α}

/-- Stretches that lie one behind the other are paired one behind the other. -/
theorem pairsFrom_append {front : List Segment} (aligned : Aligned old new front) (old' new' : List α)
    (back : List Segment) (i j : Nat) :
    pairsFrom i j ((old ++ old').map classOf) ((new ++ new').map classOf) (front ++ back) =
      pairsFrom i j (old.map classOf) (new.map classOf) front ++
        pairsFrom (i + old.length) (j + new.length) (old'.map classOf) (new'.map classOf) back := by
  induction aligned generalizing i j with
  | nil => simp [pairsFrom]
  | same run _ ih =>
    have rest := ih (i + run.length) (j + run.length)
    simp only [List.map_append] at rest
    simp [pairsFrom, rest, Nat.add_assoc]
  | differ gone come _ _ ih =>
    have rest := ih (i + gone.length) (j + come.length)
    simp only [List.map_append] at rest
    simp [pairsFrom, rest, Nat.add_assoc]

variable [DecidableEq α] {b : Block} {fuel : Nat}

/-- The longest run is paired place by place, and what lies on either side of it is paired the same
way. -/
theorem pairsFrom_segmentsFrom (longest : Longest old new b) (nonempty : b.size ≠ 0)
    (enough : old.length ≤ fuel) (i j : Nat) :
    pairsFrom i j (old.map classOf) (new.map classOf) (segmentsFrom (fuel + 1) old new) =
      pairsFrom i j ((old.take b.old).map classOf) ((new.take b.new).map classOf)
          (segmentsFrom fuel (old.take b.old) (new.take b.new)) ++
        ((List.range b.size).map (fun k => (i + b.old + k, j + b.new + k)) ++
          pairsFrom (i + b.old + b.size) (j + b.new + b.size)
            ((old.drop (b.old + b.size)).map classOf) ((new.drop (b.new + b.size)).map classOf)
            (segmentsFrom fuel (old.drop (b.old + b.size)) (new.drop (b.new + b.size)))) := by
  obtain ⟨oldLe, newLe, -⟩ := longest.common
  rw [List.length_drop] at oldLe newLe
  have atOld : (old.take b.old).length = b.old := by simp; omega
  have atNew : (new.take b.new).length = b.new := by simp; omega
  -- The segments before the block cover just what is before it, so the block is paired from its start.
  have before : Aligned (old.take b.old) (new.take b.new)
      (segmentsFrom fuel (old.take b.old) (new.take b.new)) :=
    aligned_segmentsFrom _ _ _ (by omega)
  have split := pairsFrom_append classOf before (old.drop b.old) (new.drop b.new)
    (.same b.size :: segmentsFrom fuel (old.drop (b.old + b.size)) (new.drop (b.new + b.size))) i j
  rw [List.take_append_drop, List.take_append_drop, atOld, atNew] at split
  rw [segmentsFrom]
  simp only [longest.longestBlock_eq, nonempty, if_false]
  rw [split, pairsFrom, ← List.map_drop, ← List.map_drop, List.drop_drop, List.drop_drop]

/-- Each place of the longest run is paired. -/
theorem mem_pairsFrom_longest (longest : Longest old new b) (enough : old.length < fuel) {k : Nat}
    (inside : k < b.size) (i j : Nat) : (i + b.old + k, j + b.new + k) ∈
      pairsFrom i j (old.map classOf) (new.map classOf) (segmentsFrom fuel old new) := by
  obtain ⟨fuel, rfl⟩ := Nat.exists_eq_succ_of_ne_zero (Nat.ne_zero_of_lt enough)
  rw [pairsFrom_segmentsFrom classOf longest (Nat.ne_zero_of_lt inside) (Nat.le_of_lt_succ enough)]
  exact List.mem_append_right _ (List.mem_append_left _
    (List.mem_map.2 ⟨k, List.mem_range.2 inside, rfl⟩))

theorem mem_pairs_longest (longest : Longest old new b) {k : Nat} (inside : k < b.size) :
    (b.old + k, b.new + k) ∈ pairs classOf old new := by
  have run := mem_pairsFrom_longest classOf longest (Nat.lt_succ_self _) inside 0 0
  rw [Nat.zero_add, Nat.zero_add] at run
  exact run

end Around

/-! ### A sequence with itself -/

theorem segmentsFrom_nil [DecidableEq α] (fuel : Nat) :
    segmentsFrom fuel ([] : List α) [] = [.differ 0 0] := by
  cases fuel <;> rfl

/-- A sequence aligned with itself pairs each place with itself. -/
theorem pairs_self [DecidableEq α] [DecidableEq κ] (classOf : α → κ) (xs : List α) :
    pairs classOf xs xs = (List.range xs.length).map fun k => (k, k) := by
  cases xs with
  | nil => rfl
  | cons x rest =>
    have longest := longest_of_start (x :: rest) []
    rw [List.append_nil] at longest
    rw [pairs, segments, pairsFrom_segmentsFrom classOf longest (Nat.succ_ne_zero _) (Nat.le_refl _)]
    simp [segmentsFrom_nil, pairsFrom, numbered, pairByClass]

end DocSync.Alignment
