import DocSync.Proofs.Alignment
import Mathlib.Tactic.Push

/-!
A sequence aligned with itself and one part more. If the part has no element of the sequence, each
element finds itself again, unless what lies behind the part is longer than what lies before it and
begins before it as well: then the longest run is that one, and the last element is left alone.
-/

namespace DocSync.Alignment

variable {α κ : Type}

theorem Common.getElem?_eq {old new : List α} {n k : Nat} (common : Common old new n) (inside : k < n) :
    old[k]? = new[k]? := by
  have same := congrArg (·[k]?) common.take_eq
  simpa [List.getElem?_take, inside] using same

/-- A run that a sequence begins with is common to whatever begins with it. -/
theorem common_of_start {run old new : List α} (first : run <+: old) (second : run <+: new) :
    Common old new run.length :=
  ⟨first.length_le, second.length_le,
    (List.prefix_iff_eq_take.1 first).symm.trans (List.prefix_iff_eq_take.1 second)⟩

theorem drop_inserted (before part behind : List α) :
    (before ++ (part ++ behind)).drop (before.length + part.length) = behind := by
  rw [← List.append_assoc]
  exact List.drop_left' List.length_append

/-- What stands behind a place of a sequence is no longer than what stands before it, or does not begin
before it as well. -/
def Clear (before behind : List α) : Prop :=
  behind.length ≤ before.length ∨ ∀ i < before.length, ¬ behind <+: (before ++ behind).drop i

instance [DecidableEq α] (before behind : List α) : Decidable (Clear before behind) :=
  inferInstanceAs (Decidable (_ ∨ _))

variable {before part behind : List α} (foreign : ∀ a ∈ part, a ∉ before ++ behind) (filled : part ≠ [])
include foreign filled

/-- If the part has no element of the sequence, every run that the two sides have in common lies before
the part or behind it. -/
theorem Common.aside {i j n : Nat} (nonempty : n ≠ 0)
    (common : Common ((before ++ behind).drop i) ((before ++ (part ++ behind)).drop j) n) :
    j + n ≤ before.length ∨
      before.length + part.length ≤ j ∧ j + n ≤ before.length + part.length + behind.length := by
  have within := common.new_le
  simp only [List.length_drop, List.length_append] at within
  by_contra across
  have size := List.length_pos_iff.2 filled
  -- Some place of the run would lie in the part.
  obtain ⟨k, inside, low, high⟩ :
      ∃ k, k < n ∧ before.length ≤ j + k ∧ j + k < before.length + part.length := by
    rcases Nat.lt_or_ge j before.length with early | late
    · exact ⟨before.length - j, by omega, by omega, by omega⟩
    · exact ⟨0, by omega, by omega, by omega⟩
  have there : j + k - before.length < part.length := by omega
  have same := common.getElem?_eq inside
  rw [List.getElem?_drop, List.getElem?_drop, List.getElem?_append_right low,
    List.getElem?_append_left there, List.getElem?_eq_getElem there] at same
  exact foreign _ (List.getElem_mem there) (List.mem_of_getElem? same)

theorem longest_before (short : behind.length ≤ before.length) :
    Longest (before ++ behind) (before ++ (part ++ behind)) ⟨0, 0, before.length⟩ := by
  refine ⟨?_, fun {i j n} common => ?_, fun _ => Nat.zero_le _, fun _ => Nat.zero_le _⟩
  · exact common_of_start (List.prefix_append _ _) (List.prefix_append _ _)
  · rcases Nat.eq_zero_or_pos n with rfl | some_
    · exact Nat.zero_le _
    · have aside := common.aside foreign filled (Nat.pos_iff_ne_zero.1 some_)
      simp only
      omega

theorem longest_behind (long : before.length < behind.length)
    (apart : ∀ i < before.length, ¬ behind <+: (before ++ behind).drop i) :
    Longest (before ++ behind) (before ++ (part ++ behind))
      ⟨before.length, before.length + part.length, behind.length⟩ := by
  have ends := drop_inserted before part behind
  -- A run of that length on the new side is what lies behind the part.
  have place : ∀ {i j}, Common ((before ++ behind).drop i) ((before ++ (part ++ behind)).drop j)
      behind.length → j = before.length + part.length := by
    intro i j common
    have aside := common.aside foreign filled (by omega)
    omega
  refine ⟨?_, fun {i j n} common => ?_, fun {i j} common => Nat.not_lt.1 fun early =>
    apart i early ?_, fun {j} common => Nat.le_of_eq (place common).symm⟩
  · rw [List.drop_left, ends]
    exact ⟨Nat.le_refl _, Nat.le_refl _, rfl⟩
  · rcases Nat.eq_zero_or_pos n with rfl | some_
    · exact Nat.zero_le _
    · have aside := common.aside foreign filled (Nat.pos_iff_ne_zero.1 some_)
      simp only
      omega
  · obtain rfl := place common
    have same := common.take_eq
    rw [ends, List.take_length] at same
    exact List.prefix_iff_eq_take.2 same.symm

omit filled in
/-- Behind the part stands the longest run of what lies behind it. -/
theorem longest_rest (some_ : behind ≠ []) :
    Longest behind (part ++ behind) ⟨0, part.length, behind.length⟩ := by
  refine ⟨?_, fun common => Nat.le_trans common.old_le (by simp), fun _ => Nat.zero_le _,
    fun {j} common => Nat.not_lt.1 fun early => ?_⟩
  · exact common_of_start (List.prefix_refl _) (by simp)
  · -- The first element would be one of the part.
    have same := common.getElem?_eq (List.length_pos_iff.2 some_)
    rw [List.getElem?_drop, List.getElem?_drop, Nat.add_zero, Nat.add_zero,
      List.getElem?_append_left early, List.getElem?_eq_getElem early] at same
    exact foreign _ (List.getElem_mem early) (List.mem_append_right _ (List.mem_of_getElem? same))

variable [DecidableEq α] [DecidableEq κ] (classOf : α → κ)

/-- At a clear place each element is paired with itself. -/
theorem mem_pairs_inserted (clear : Clear before behind) :
    (∀ k < before.length, (k, k) ∈ pairs classOf (before ++ behind) (before ++ (part ++ behind))) ∧
      ∀ k < behind.length, (before.length + k, before.length + part.length + k) ∈
        pairs classOf (before ++ behind) (before ++ (part ++ behind)) := by
  rcases Nat.lt_or_ge before.length behind.length with long | short
  · -- What lies behind is the longest run, and what lies before is aligned by itself.
    have longest := longest_behind foreign filled long (clear.resolve_left (Nat.not_le.2 long))
    refine ⟨fun k inside => ?_, fun k inside => mem_pairs_longest classOf longest inside⟩
    have early := mem_pairsFrom_longest classOf (longest_of_start before part)
      (show before.length < (before ++ behind).length by simp; omega) inside 0 0
    have starts : (before ++ (part ++ behind)).take (before.length + part.length) = before ++ part := by
      rw [← List.append_assoc]
      exact List.take_left' List.length_append
    rw [pairs, segments, pairsFrom_segmentsFrom classOf longest (by simp only; omega) (Nat.le_refl _)]
    simp only [List.take_left, starts]
    simp only [Nat.zero_add] at early
    exact List.mem_append_left _ early
  · -- What lies before is the longest run, and what lies behind is aligned by itself.
    have longest := longest_before foreign filled short
    refine ⟨fun k inside => ?_, fun k inside => ?_⟩
    · simpa only [Nat.zero_add] using mem_pairs_longest classOf longest inside
    · have rest := longest_rest foreign (List.ne_nil_of_length_pos (Nat.zero_lt_of_lt inside))
      have late := mem_pairsFrom_longest classOf rest
        (show behind.length < (before ++ behind).length by simp; omega) inside before.length before.length
      rw [pairs, segments, pairsFrom_segmentsFrom classOf longest (by simp only; omega) (Nat.le_refl _)]
      simp only [Nat.zero_add, List.drop_left]
      simp only [Nat.add_zero] at late
      exact List.mem_append_right _ (List.mem_append_right _ late)

/-- At any other place the last element is paired with none. -/
theorem not_mem_pairs_inserted (unclear : ¬ Clear before behind) (j : Nat) :
    (before.length + behind.length - 1, j) ∉
      pairs classOf (before ++ behind) (before ++ (part ++ behind)) := by
  obtain ⟨long, again⟩ := not_or.1 unclear
  rw [Nat.not_le] at long
  push Not at again
  obtain ⟨i, early, again⟩ := again
  intro paired
  have longest := longest_longestBlock (before ++ behind) (before ++ (part ++ behind))
  generalize longestBlock (before ++ behind) (before ++ (part ++ behind)) = b at longest
  -- The longest run is what lies behind, found before the part as well.
  have found : Common ((before ++ behind).drop i)
      ((before ++ (part ++ behind)).drop (before.length + part.length)) behind.length := by
    refine common_of_start again ⟨[], ?_⟩
    rw [List.append_nil, drop_inserted]
  have most := longest.most found
  have place := longest.common.aside foreign filled (by omega)
  have size : b.size = behind.length := by omega
  have first := longest.firstOld (size ▸ found)
  have last : b.size - 1 < b.size := by omega
  -- Its last place is paired with the last one of the other side, and no pair crosses this one.
  have run := mem_pairs_longest classOf longest last
  have same := longest.common.getElem?_eq last
  rw [List.getElem?_drop, List.getElem?_drop] at same
  have pairing := pairing_pairs classOf (before ++ behind) (before ++ (part ++ behind))
  obtain ⟨_, _, -, inside, -⟩ := pairing.exists_of_mem paired
  have bound := (List.getElem?_eq_some_iff.1 inside).1
  simp only [List.length_append] at bound
  have here := List.getElem?_eq_getElem
    (show b.old + (b.size - 1) < (before ++ behind).length by simp; omega)
  have order := pairing.order run paired here (same ▸ here)
  omega

end DocSync.Alignment
