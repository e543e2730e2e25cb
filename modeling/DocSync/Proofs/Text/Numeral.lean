import DocSync.Text.Numeral
import Mathlib.Algebra.Ring.Nat

/-! Numerals that were written read back, as long as they are not too long. -/

namespace DocSync.Text

variable {c : Char} {n : Nat}

/-- An ASCII digit is the first digit of its script. -/
theorem digitValue?_of_isDigit (digit : c.isDigit) : digitValue? c = some (c.toNat - '0'.toNat) := by
  simp only [Char.isDigit, Bool.and_eq_true, decide_eq_true_eq] at digit
  have low : 0x30 ≤ c.toNat := digit.1
  have high : c.toNat ≤ 0x39 := digit.2
  have inside : (decide (0x30 ≤ c.toNat) && decide (c.toNat < 0x30 + 10)) = true := by
    simp only [Bool.and_eq_true, decide_eq_true_eq]
    omega
  have found : zeroDigits.find? (fun first => first ≤ c.toNat && c.toNat < first + 10) =
      some 0x30 := List.find?_cons_of_pos inside
  rw [digitValue?, found]
  rfl

theorem isNumeralBlank_of_isDigit (digit : c.isDigit) : isNumeralBlank c = false := by
  simp only [Char.isDigit, Bool.and_eq_true, decide_eq_true_eq] at digit
  have low : 0x30 ≤ c.toNat := digit.1
  have high : c.toNat ≤ 0x39 := digit.2
  simp [isNumeralBlank]
  omega

theorem ne_of_isDigit {d : Char} (digit : c.isDigit) (other : d.isDigit = false) : c ≠ d := by
  rintro rfl
  rw [digit] at other
  cases other

/-- A run of digits is read as the number it denotes, if there is room for it. -/
theorem readDigits_digits {digits : List Char} {value room : Nat} {afterDigit : Bool}
    (all : ∀ c ∈ digits, c.isDigit) (fits : digits.length ≤ room)
    (some_ : afterDigit = true ∨ digits ≠ []) :
    readDigits value afterDigit room digits = some (Nat.ofDigitChars 10 digits value) := by
  induction digits generalizing value room afterDigit with
  | nil =>
    rcases some_ with after | nonempty
    · simp [readDigits, after]
    · exact absurd rfl nonempty
  | cons c rest ih =>
    have digit := all c List.mem_cons_self
    cases room with
    | zero => simp at fits
    | succ room =>
      simp only [readDigits, ne_of_isDigit digit (d := '_') (by decide), if_false,
        digitValue?_of_isDigit digit, Nat.ofDigitChars_cons]
      exact ih (fun d later => all d (List.mem_cons_of_mem _ later)) (by simpa using fits) (.inl rfl)

theorem dropWhile_of_forall {p : Char → Bool} {text : List Char} (none : ∀ c ∈ text, p c = false) :
    text.dropWhile p = text := by
  cases text with
  | nil => rfl
  | cons c rest => simp [none c List.mem_cons_self]

/-- A number that was written out reads back, as long as its digits are not too many. -/
theorem readInt?_toDigits (short : n < 10 ^ maxDigits) :
    readInt? (Nat.toDigits 10 n) = some (n : Int) := by
  have all : ∀ c ∈ Nat.toDigits 10 n, c.isDigit := fun c member =>
    Nat.isDigit_of_mem_toDigits (by decide) (by decide) member
  have solid : ∀ c ∈ Nat.toDigits 10 n, isNumeralBlank c = false := fun c member =>
    isNumeralBlank_of_isDigit (all c member)
  have length : (Nat.toDigits 10 n).length ≤ maxDigits :=
    (Nat.length_toDigits_le_iff (by decide) (by decide)).2 short
  have reads : readDigits 0 false maxDigits (Nat.toDigits 10 n) =
      some (Nat.ofDigitChars 10 (Nat.toDigits 10 n) 0) :=
    readDigits_digits all length (.inr Nat.toDigits_ne_nil)
  rw [Nat.ofDigitChars_ten_toDigits] at reads
  have core : (((Nat.toDigits 10 n).dropWhile isNumeralBlank).reverse.dropWhile
      isNumeralBlank).reverse = Nat.toDigits 10 n := by
    rw [dropWhile_of_forall solid, dropWhile_of_forall, List.reverse_reverse]
    exact fun c member => solid c (List.mem_reverse.1 member)
  rw [readInt?, core]
  -- A run of digits has no sign.
  split
  · next rest sign =>
    exact absurd (all '-' (by rw [sign]; exact List.mem_cons_self)) (by decide)
  · next rest sign =>
    exact absurd (all '+' (by rw [sign]; exact List.mem_cons_self)) (by decide)
  · rw [reads]
    rfl

/-- A number that is not too long is written out. -/
theorem writeInt?_ofNat (short : n < 10 ^ maxDigits) :
    writeInt? n = some (toString (n : Int)) := by
  have length : (Nat.toDigits 10 n).length ≤ maxDigits :=
    (Nat.length_toDigits_le_iff (by decide) (by decide)).2 short
  simp [writeInt?, length]

/-- An integer is told by its numeral. -/
theorem eq_of_toString_eq {a b : Int} (same : toString a = toString b) : a = b := by
  have digits : ∀ m n : Nat, m.repr = n.repr → m = n := fun m n same => by
    have read := congrArg (fun text => Nat.ofDigitChars 10 text.toList 0) same
    simpa using read
  -- A numeral without sign has no sign among its digits.
  have unsigned : ∀ m n : Nat, m.repr ≠ "-" ++ n.repr := fun m n same => by
    have sign : '-' ∈ m.repr.toList := by simp [same]
    rw [Nat.toList_repr] at sign
    exact absurd (Nat.isDigit_of_mem_toDigits (by decide) (by decide) sign) (by decide)
  cases a with
  | ofNat m =>
    cases b with
    | ofNat n => exact congrArg Int.ofNat (digits m n same)
    | negSucc n => exact absurd same (unsigned m (n + 1))
  | negSucc m =>
    cases b with
    | ofNat n => exact absurd same.symm (unsigned n (m + 1))
    | negSucc n =>
      exact congrArg Int.negSucc (Nat.succ.inj (digits _ _ ((String.append_right_inj "-").1 same)))

/-- A numeral is that of one number. -/
theorem eq_of_writeInt? {a b : Int} {text : String} (first : writeInt? a = some text)
    (second : writeInt? b = some text) : a = b := by
  simp only [writeInt?, Option.ite_none_right_eq_some, Option.some.injEq] at first second
  exact eq_of_toString_eq (first.2.trans second.2.symm)

/-- A number that is not written out has too many digits. -/
theorem le_of_writeInt? {a : Int} (none : writeInt? a = none) : 10 ^ maxDigits ≤ a.natAbs := by
  rw [writeInt?, ite_eq_right_iff] at none
  refine Nat.le_of_not_lt fun short => ?_
  cases none ((Nat.length_toDigits_le_iff (by decide) (by decide)).2 short)

end DocSync.Text
