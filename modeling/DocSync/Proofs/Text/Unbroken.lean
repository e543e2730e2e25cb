import DocSync.Proofs.Text.Legible
import DocSync.Text.Lines

/-!
Texts without an end of line. What stands in quotes is one of them; and joined by line feeds such texts are
the lines of the whole.
-/

namespace DocSync

namespace Text

variable {text : List Char} {texts : List (List Char)}

/-- A text has no end of line in it. -/
def isUnbroken (text : List Char) : Bool := text.all fun c => !endsLine c

@[simp] theorem isUnbroken_nil : isUnbroken [] = true := rfl

@[simp] theorem isUnbroken_cons (c : Char) (text : List Char) :
    isUnbroken (c :: text) = (!endsLine c && isUnbroken text) := rfl

@[simp] theorem isUnbroken_append (front back : List Char) :
    isUnbroken (front ++ back) = (isUnbroken front && isUnbroken back) := List.all_append

theorem isUnbroken_replicate {c : Char} (inside : endsLine c = false) (n : Nat) :
    isUnbroken (List.replicate n c) = true := by
  induction n with
  | zero => rfl
  | succ n ih => rw [List.replicate_succ, isUnbroken_cons, inside, ih]; rfl

theorem isUnbroken_hex (width n : Nat) : isUnbroken (hex width n) = true := by
  -- None of the sixteen digits ends a line.
  have digits : ∀ k < 16, endsLine (hexDigit k) = false := by decide
  induction width generalizing n with
  | zero => rfl
  | succ width ih =>
    have last := digits (n % 16) (Nat.mod_lt n (by decide))
    simp [hex, ih, last]

/-- A text in front of a line feed is the first line. -/
theorem lines_append_lineFeed (unbroken : isUnbroken text = true) (rest : List Char) :
    lines (text ++ '\n' :: rest) = text :: lines rest := by
  induction text with
  | nil => exact lines.eq_3 '\n' rest (by simp)
  | cons c text ih =>
    rw [isUnbroken_cons, Bool.and_eq_true, Bool.not_eq_true'] at unbroken
    obtain ⟨inside, later⟩ := unbroken
    rw [List.cons_append, lines, inside, ih later]
    · rfl
    · -- A carriage return would be an end of line.
      rintro _ rfl _
      exact absurd inside (by decide)

/-- Texts joined by line feeds are the lines of the whole, if none of them is empty. -/
theorem lines_intercalate (unbroken : ∀ text ∈ texts, isUnbroken text = true)
    (some_ : ∀ text ∈ texts, text ≠ []) : lines (['\n'].intercalate texts) = texts := by
  induction texts with
  | nil => rfl
  | cons text rest ih =>
    rw [List.forall_mem_cons] at unbroken some_
    cases rest with
    | nil =>
      -- The last one has no line feed behind it.
      rw [List.intercalate_singleton]
      exact lines_of_all unbroken.1 some_.1
    | cons next rest =>
      rw [List.intercalate_cons_cons, List.append_assoc, List.singleton_append,
        lines_append_lineFeed unbroken.1, ih unbroken.2 some_.2]

end Text

namespace Json

open Text (isUnbroken isUnbroken_hex)

/-- Between quotes nothing ends a line. -/
theorem isUnbroken_escapeChar (c : Char) : isUnbroken (escapeChar c) = true := by
  have unit : ∀ n, isUnbroken (escapeUnit n) = true := isUnbroken_hex 4
  unfold escapeChar
  -- Seven characters have escapes of their own, of two letters each.
  iterate 7
    split
    · rfl
  split
  · next printable =>
    -- What is printable lies between the controls and the ends of lines beyond ASCII.
    simp only [Bool.and_eq_true, decide_eq_true_eq] at printable
    have low : 0x20 ≤ c.toNat := printable.1
    have high : c.toNat ≤ 0x7e := printable.2
    simp [Text.endsLine]
    omega
  split
  · exact unit _
  · -- Beyond the first plane there are two numerals.
    rw [Text.isUnbroken_append, unit, unit]
    rfl

theorem isUnbroken_quote (text : String) : isUnbroken (quote text).toList = true := by
  have escaped : ∀ text : List Char, isUnbroken (text.flatMap escapeChar) = true := fun text => by
    induction text with
    | nil => rfl
    | cons c text ih => rw [List.flatMap_cons, Text.isUnbroken_append, isUnbroken_escapeChar, ih]; rfl
  rw [quote, String.toList_ofList, Text.isUnbroken_append, Text.isUnbroken_cons, escaped]
  rfl

end Json

end DocSync
