/-! Text cut into lines. -/

namespace DocSync.Text

/-- A character ends a line. -/
def endsLine (c : Char) : Bool :=
  let code := c.toNat
  (0x0a ≤ code && code ≤ 0x0d) || (0x1c ≤ code && code ≤ 0x1e) || code == 0x85 || code == 0x2028 ||
    code == 0x2029

/-- The lines of a text without what ends them, where a carriage return and a line feed make one
end. A last line that is empty does not count. -/
def lines : List Char → List (List Char)
  | [] => []
  | '\r' :: '\n' :: rest => [] :: lines rest
  | c :: rest =>
    if endsLine c then [] :: lines rest
    else
      match lines rest with
      | [] => [[c]]
      | line :: more => (c :: line) :: more

/-- A text without an end of line is a line. -/
theorem lines_of_all {text : List Char} (unbroken : text.all fun c => !endsLine c)
    (nonempty : text ≠ []) : lines text = [text] := by
  induction text with
  | nil => exact absurd rfl nonempty
  | cons c rest ih =>
    simp only [List.all_cons, Bool.and_eq_true, Bool.not_eq_true'] at unbroken
    obtain ⟨inside, later⟩ := unbroken
    rw [lines]
    · cases rest with
      | nil => simp [inside, lines]
      | cons d more => simp [inside, ih later (by simp)]
    · -- A carriage return would be an end of line.
      intro _ same _
      subst same
      exact absurd inside (by decide)

end DocSync.Text
