import DocSync.Proofs.Grammar.Layout

/-!
Texts that differ in nothing but the blanks between their tokens. Such texts fall into their parts in
one way only: they are the same just if all the blanks are.
-/

namespace DocSync

open Lexer (Blanks isBlank takeWhile_append_of_ends)

variable {x y x' y' b b' g g' rest rest' : List Char}

/-- Two texts of the same tokens, with other blanks between them. -/
inductive Respaced : List Char → List Char → Prop
  | same {c : Char} {tail : List Char} : isBlank c = false → Respaced (c :: tail) (c :: tail)
  | gap {x y b b' x' y' : List Char} : Respaced x y → Blanks b → Blanks b' → Respaced x' y' →
    Respaced (x ++ (b ++ x')) (y ++ (b' ++ y'))

namespace Respaced

/-- Both texts start with one and the same character, which is no blank. -/
theorem start (respaced : Respaced x y) :
    ∃ c tail tail', x = c :: tail ∧ y = c :: tail' ∧ isBlank c = false := by
  induction respaced with
  | @same c tail solid => exact ⟨c, tail, tail, rfl, rfl, solid⟩
  | gap _ _ _ _ ih _ =>
    obtain ⟨c, tail, tail', rfl, rfl, solid⟩ := ih
    exact ⟨c, _, _, rfl, rfl, solid⟩

/-- Blanks end where a token starts. -/
theorem eq_of_blanks (respaced : Respaced x y) (blanks : Blanks b) (blanks' : Blanks b')
    (equal : b ++ (x ++ rest) = b' ++ (y ++ rest')) : b = b' ∧ x ++ rest = y ++ rest' := by
  obtain ⟨c, tail, tail', rfl, rfl, solid⟩ := respaced.start
  have ends : ∀ {b tail}, Blanks b → (b ++ c :: tail).takeWhile isBlank = b := fun blanks =>
    takeWhile_append_of_ends blanks (by simpa using solid)
  have front := congrArg (List.takeWhile isBlank) equal
  rw [List.cons_append, List.cons_append, ends blanks, ends blanks'] at front
  rw [front] at equal
  exact ⟨front, List.append_cancel_left equal⟩

/-- Where such texts stand at the start of one text, they are the same. -/
theorem cancel (respaced : Respaced x y) (equal : x ++ rest = y ++ rest') :
    x = y ∧ rest = rest' := by
  induction respaced generalizing rest rest' with
  | same _ => exact ⟨rfl, List.append_cancel_left equal⟩
  | gap _ blanks blanks' second ih ih' =>
    simp only [List.append_assoc] at equal
    obtain ⟨front, behind⟩ := ih equal
    obtain ⟨between, behind⟩ := second.eq_of_blanks blanks blanks' behind
    obtain ⟨back, after⟩ := ih' behind
    exact ⟨by rw [front, between, back], after⟩

/-- Two texts with a mark between them. -/
theorem mark {mark : Char} (respaced : Respaced x y) (solid : isBlank mark = false)
    (gap : Gap mark g) (gap' : Gap mark g') (respaced' : Respaced x' y') :
    Respaced (x ++ (g ++ x')) (y ++ (g' ++ y')) := by
  obtain ⟨b, a, rfl, before, after⟩ := gap
  obtain ⟨b', a', rfl, before', after'⟩ := gap'
  have point : Respaced [mark] [mark] := .same solid
  have inner := point.gap after after' respaced'
  simpa using Respaced.gap respaced before before' inner

/-- With a mark between them they are the same only if the marks have the same blanks. -/
theorem cancel_mark {mark : Char} (respaced : Respaced x y) (solid : isBlank mark = false)
    (gap : Gap mark g) (gap' : Gap mark g') (respaced' : Respaced x' y') :
    x ++ (g ++ x') = y ++ (g' ++ y') ↔ x = y ∧ g = g' ∧ x' = y' := by
  refine ⟨fun equal => ?_, fun ⟨first, second, third⟩ => by rw [first, second, third]⟩
  obtain ⟨front, behind⟩ := respaced.cancel equal
  obtain ⟨b, a, rfl, before, after⟩ := gap
  obtain ⟨b', a', rfl, before', after'⟩ := gap'
  have point : Respaced [mark] [mark] := .same solid
  simp only [List.append_assoc, List.cons_append] at behind
  obtain ⟨first, behind⟩ := point.eq_of_blanks before before' behind
  have inner : a ++ (x' ++ []) = a' ++ (y' ++ []) := by simpa using behind
  obtain ⟨second, back⟩ := respaced'.eq_of_blanks after after' inner
  rw [List.append_nil, List.append_nil] at back
  exact ⟨front, by rw [first, second], back⟩

/-- A row of texts with one separator throughout, against a row where each has its own. -/
theorem row {separator : List Char} (separates : Gap ',' separator) {shown : List (List Char)}
    {cells : List Cell} (each : List.Forall₂ (fun x cell => Respaced x cell.text) shown cells)
    (gaps : ∀ cell ∈ cells, Gap ',' cell.gap) (first : Respaced x y) :
    Respaced (x ++ shown.flatMap (separator ++ ·)) (y ++ rowText cells) ∧
      (x ++ shown.flatMap (separator ++ ·) = y ++ rowText cells ↔
        x = y ∧ List.Forall₂ (fun x cell => cell.gap = separator ∧ x = cell.text) shown cells) := by
  induction each generalizing x y with
  | nil =>
    simp only [List.flatMap_nil, rowText, List.append_nil]
    exact ⟨first, fun equal => ⟨equal, .nil⟩, fun both => both.1⟩
  | @cons x' cell shown cells next _ ih =>
    have gap := gaps cell List.mem_cons_self
    obtain ⟨respaced, equal⟩ := ih (fun cell inside => gaps cell (List.mem_cons_of_mem _ inside))
      (first.mark rfl separates gap next)
    -- The comma before the next text is found again, so what stands on either side agrees.
    have split := first.cancel_mark rfl separates gap next
    have left : x ++ (x' :: shown).flatMap (separator ++ ·) =
        x ++ (separator ++ x') ++ shown.flatMap (separator ++ ·) := by simp
    have right : y ++ rowText (cell :: cells) = y ++ (cell.gap ++ cell.text) ++ rowText cells := by
      simp [rowText]
    rw [left, right]
    refine ⟨respaced, equal.trans ?_⟩
    rw [split, List.forall₂_cons]
    constructor
    · rintro ⟨⟨same, sep, same'⟩, later⟩
      exact ⟨same, ⟨sep.symm, same'⟩, later⟩
    · rintro ⟨same, ⟨sep, same'⟩, later⟩
      exact ⟨⟨same, sep.symm, same'⟩, later⟩

end Respaced

end DocSync
