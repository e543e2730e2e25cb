import Mathlib.Data.List.TakeWhile
import DocSync.Grammar.Lexer

/-!
How the tokens of a document are spelled, and that a scan takes just such spellings for tokens. What it
takes does not depend on what comes behind, as long as that does not go on with the token. Blanks and
punctuation marks never do.
-/

namespace DocSync

/-- The mark that a token of a kind is, for the kinds that are one mark each. -/
def TokenKind.mark? : TokenKind → Option Char
  | lbrace => some '{'
  | rbrace => some '}'
  | lbracket => some '['
  | rbracket => some ']'
  | colon => some ':'
  | comma => some ','
  | _ => none

namespace Lexer

variable {c : Char} {cs ds rest text : List Char} {kind : TokenKind} {n taken : Nat}

/-- A hexadecimal digit of either case. -/
def IsHexDigit (c : Char) : Prop :=
  ('0' ≤ c ∧ c ≤ '9') ∨ ('a' ≤ c ∧ c ≤ 'f') ∨ ('A' ≤ c ∧ c ≤ 'F')

/-- What stands between the quotes of a string: characters from the space on, other than a quote and a
backslash, and escapes. -/
inductive Quotable : List Char → Prop
  | nil : Quotable []
  | plain {c : Char} {rest : List Char} : ' ' ≤ c → c ≠ '"' → c ≠ '\\' → Quotable rest →
    Quotable (c :: rest)
  | escape {c : Char} {rest : List Char} : c ∈ ['"', '\\', '/', 'b', 'f', 'n', 'r', 't'] →
    Quotable rest → Quotable ('\\' :: c :: rest)
  | unicode {a b c d : Char} {rest : List Char} : (∀ x ∈ [a, b, c, d], IsHexDigit x) →
    Quotable rest → Quotable ('\\' :: 'u' :: a :: b :: c :: d :: rest)

/-- A run of digits. -/
def IsDigits (ds : List Char) : Prop := ds ≠ [] ∧ ∀ c ∈ ds, isDigit c = true

/-- The whole part of a number: a zero alone, or digits of which the first is none. -/
inductive IsWhole : List Char → Prop
  | zero : IsWhole ['0']
  | digits {d : Char} {ds : List Char} : d ≠ '0' → IsDigits (d :: ds) → IsWhole (d :: ds)

/-- The fraction of a number, if it has one. -/
inductive IsFraction : List Char → Prop
  | none : IsFraction []
  | point {ds : List Char} : IsDigits ds → IsFraction ('.' :: ds)

/-- The exponent of a number, if it has one. -/
inductive IsExponent : List Char → Prop
  | none : IsExponent []
  | power {mark : Char} {sign ds : List Char} : mark = 'e' ∨ mark = 'E' →
    sign = [] ∨ sign = ['+'] ∨ sign = ['-'] → IsDigits ds → IsExponent (mark :: (sign ++ ds))

/-- A number, with or without a sign. -/
inductive IsNumber : List Char → Prop
  | mk {sign whole fraction exponent : List Char} : sign = [] ∨ sign = ['-'] → IsWhole whole →
    IsFraction fraction → IsExponent exponent → IsNumber (sign ++ (whole ++ (fraction ++ exponent)))

/-- How a token of a kind is spelled. -/
inductive Spelling : TokenKind → List Char → Prop
  | mark {kind : TokenKind} {mark : Char} : kind.mark? = some mark → Spelling kind [mark]
  | string {inner : List Char} : Quotable inner → Spelling .string ('"' :: (inner ++ ['"']))
  | number {text : List Char} : IsNumber text → Spelling .number text
  | true : Spelling .true ['t', 'r', 'u', 'e']
  | false : Spelling .false ['f', 'a', 'l', 's', 'e']
  | null : Spelling .null ['n', 'u', 'l', 'l']

/-- What comes next, if anything, ends whatever token stands before it. -/
def Closed (rest : List Char) : Prop :=
  ∀ c ∈ rest.head?, isBlank c = true ∨ c = ',' ∨ c = ':' ∨ c = ']' ∨ c = '}'

/-! ### Strings -/

theorem isHex_iff : isHex c = true ↔ IsHexDigit c := by
  simp only [isHex, Text.hexValue?, IsHexDigit, Char.le_def, UInt32.le_iff_toNat_le]
  have code : c.val.toNat = c.toNat := rfl
  have bounds : ('0' : Char).val.toNat = 48 ∧ ('9' : Char).val.toNat = 57 ∧
      ('a' : Char).val.toNat = 97 ∧ ('f' : Char).val.toNat = 102 ∧
      ('A' : Char).val.toNat = 65 ∧ ('F' : Char).val.toNat = 70 := by decide
  split
  · simp_all
  · split
    · simp_all
    · split <;> simp_all

theorem not_control_iff : ¬ c.toNat < 0x20 ↔ ' ' ≤ c := by
  rw [Nat.not_lt]
  exact Iff.rfl

/-- The characters that may follow a backslash, but for the one that begins a Unicode escape. -/
theorem isEscapable_iff (notUnicode : c ≠ 'u') :
    isEscapable c = true ↔ c ∈ ['"', '\\', '/', 'b', 'f', 'n', 'r', 't'] := by
  simp [isEscapable, notUnicode, or_assoc]

theorem scanString_escape (notUnicode : c ≠ 'u') :
    scanString taken ('\\' :: c :: cs) =
      if isEscapable c = true then scanString (taken + 2) cs
      else .error (.badEscape (some c), taken) :=
  scanString.eq_5 _ _ _ (fun _ _ _ _ _ same => absurd same notUnicode) notUnicode

theorem scanString_plain (notQuote : c ≠ '"') (notEscape : c ≠ '\\') :
    scanString taken (c :: cs) =
      if c.toNat < 0x20 then .error (.controlChar, taken) else scanString (taken + 1) cs :=
  scanString.eq_7 _ _ _ notQuote (fun _ _ _ _ _ same => absurd same notEscape)
    (fun _ same => absurd same notEscape) (fun _ _ same => absurd same notEscape)
    fun same => absurd same notEscape

/-- A string is read to its closing quote, whatever comes behind it. -/
theorem Quotable.scanString (quotable : Quotable cs) (taken : Nat) (rest : List Char) :
    scanString taken (cs ++ '"' :: rest) = .ok (taken + cs.length + 1) := by
  -- The scanner takes a string apart as it is put together: a character, an escape, or the code of a
  -- character.
  induction quotable generalizing taken with
  | nil => rfl
  | plain visible notQuote notEscape _ ih =>
    rw [List.cons_append, scanString_plain notQuote notEscape, if_neg (not_control_iff.2 visible), ih,
      List.length_cons]
    congr 1
    omega
  | @escape c rest escapable _ ih =>
    have notUnicode : c ≠ 'u' := by
      rintro rfl
      simp at escapable
    rw [List.cons_append, List.cons_append, scanString_escape notUnicode,
      if_pos ((isEscapable_iff notUnicode).2 escapable), ih, List.length_cons, List.length_cons]
    congr 1
    omega
  | unicode hex _ ih =>
    simp only [List.forall_mem_cons, ← isHex_iff] at hex
    obtain ⟨a, b, c, d, -⟩ := hex
    simp only [List.cons_append, Lexer.scanString, a, b, c, d, Bool.and_self, if_true, ih,
      List.length_cons]
    congr 1
    omega

/-- What is read as a string ends with a quote. -/
theorem quotable_of_scanString (read : scanString taken cs = .ok n) :
    ∃ inner after, cs = inner ++ '"' :: after ∧ n = taken + inner.length + 1 ∧ Quotable inner := by
  fun_induction scanString taken cs with
  | case1 taken => cases read
  | case2 taken rest =>
    cases read
    exact ⟨[], rest, rfl, rfl, .nil⟩
  | case3 taken a b c d rest hex ih =>
    obtain ⟨inner, after, rfl, rfl, quotable⟩ := ih read
    simp only [Bool.and_eq_true, isHex_iff] at hex
    obtain ⟨⟨⟨a, b⟩, c⟩, d⟩ := hex
    refine ⟨_, after, rfl, ?_, .unicode (by simp [a, b, c, d]) quotable⟩
    simp only [List.length_cons]
    omega
  | case4 taken a b c d rest hex => cases read
  | case5 taken rest short => cases read
  | case6 taken c rest _ notUnicode escapable ih =>
    obtain ⟨inner, after, rfl, rfl, quotable⟩ := ih read
    refine ⟨_, after, rfl, ?_, .escape ((isEscapable_iff notUnicode).1 escapable) quotable⟩
    simp only [List.length_cons]
    omega
  | case7 taken c rest _ _ escapable => cases read
  | case8 taken => cases read
  | case9 taken c rest _ _ _ _ _ control => cases read
  | case10 taken c rest notQuote _ _ notEscape last plain ih =>
    obtain ⟨inner, after, rfl, rfl, quotable⟩ := ih read
    -- A backslash before a character is taken as an escape, so what is taken by itself is none.
    have other : c ≠ '\\' := by
      obtain ⟨d, tail, same⟩ : ∃ d tail, inner ++ '"' :: after = d :: tail :=
        List.exists_cons_of_ne_nil (by simp)
      exact fun escape => notEscape d tail escape same
    refine ⟨c :: inner, after, rfl, ?_, .plain (not_control_iff.1 plain) notQuote other quotable⟩
    simp only [List.length_cons]
    omega

/-! ### Numbers -/

/-- What comes next does not go on with digits. -/
def EndsDigits (rest : List Char) : Prop := ∀ c ∈ rest.head?, isDigit c = false

/-- What comes next does not go on with a number. -/
def EndsNumber (rest : List Char) : Prop :=
  EndsDigits rest ∧ ∀ c ∈ rest.head?, c ≠ '.' ∧ c ≠ 'e' ∧ c ≠ 'E'

theorem takeWhile_append_of_ends {p : Char → Bool} (all : ∀ c ∈ cs, p c = true)
    (ends : ∀ c ∈ rest.head?, p c = false) : (cs ++ rest).takeWhile p = cs := by
  have stops : rest.takeWhile p = [] := by
    cases rest with
    | nil => rfl
    | cons c rest => rw [List.takeWhile_cons, ends c rfl]; rfl
  rw [List.takeWhile_append_of_pos all, stops, List.append_nil]

theorem IsDigits.digitRun (digits : IsDigits ds) (ends : EndsDigits rest) :
    digitRun (ds ++ rest) = ds.length ∧ ds.length ≠ 0 :=
  ⟨by rw [Lexer.digitRun, takeWhile_append_of_ends digits.2 ends],
    fun none => digits.1 (List.length_eq_zero_iff.1 none)⟩

/-- A text that starts with digits starts with a run of them. -/
theorem isDigits_of_digitRun (some_ : digitRun cs ≠ 0) :
    ∃ ds after, cs = ds ++ after ∧ digitRun cs = ds.length ∧ IsDigits ds :=
  ⟨cs.takeWhile isDigit, cs.dropWhile isDigit, List.takeWhile_append_dropWhile.symm, rfl,
    fun none => some_ (List.length_eq_zero_iff.2 none), fun _ inside => List.mem_takeWhile_imp inside⟩

theorem IsWhole.start (whole : IsWhole cs) : ∃ d tail, cs = d :: tail ∧ isDigit d = true := by
  cases whole with
  | zero => exact ⟨'0', [], rfl, rfl⟩
  | @digits d ds _ digits => exact ⟨d, ds, rfl, digits.2 d List.mem_cons_self⟩

theorem IsWhole.wholeLength (whole : IsWhole cs) (ends : EndsDigits rest) :
    wholeLength (cs ++ rest) = .ok cs.length := by
  cases whole with
  | zero => rfl
  | digits notZero digits =>
    obtain ⟨run, someDigits⟩ := digits.digitRun ends
    rw [wholeLength.eq_2, run, if_neg someDigits]
    rintro tail same
    exact notZero (List.cons.inj same).1

theorem isWhole_of_wholeLength (read : wholeLength cs = .ok n) :
    ∃ whole after, cs = whole ++ after ∧ n = whole.length ∧ IsWhole whole := by
  unfold wholeLength at read
  split at read
  · next tail =>
    cases read
    exact ⟨['0'], tail, rfl, rfl, .zero⟩
  · next notZero =>
    split at read
    · cases read
    · next someDigits =>
      obtain ⟨ds, after, rfl, run, digits⟩ := isDigits_of_digitRun someDigits
      obtain ⟨d, tail, rfl⟩ := List.exists_cons_of_ne_nil digits.1
      rw [run] at read
      cases read
      exact ⟨_, after, rfl, rfl, .digits (fun zero => notZero (tail ++ after) (by rw [zero]; rfl)) digits⟩

theorem IsFraction.fractionLength (fraction : IsFraction cs) (ends : EndsDigits rest)
    (other : ∀ c ∈ rest.head?, c ≠ '.') : fractionLength (cs ++ rest) = .ok cs.length := by
  cases fraction with
  | none =>
    rw [List.nil_append, fractionLength.eq_2]
    · rfl
    · rintro tail rfl
      exact other '.' rfl rfl
  | point digits =>
    obtain ⟨run, someDigits⟩ := digits.digitRun ends
    rw [List.cons_append, Lexer.fractionLength, run, if_neg someDigits, List.length_cons, Nat.add_comm]

theorem isFraction_of_fractionLength (read : fractionLength cs = .ok n) :
    ∃ fraction after, cs = fraction ++ after ∧ n = fraction.length ∧ IsFraction fraction := by
  unfold fractionLength at read
  split at read
  · next tail =>
    split at read
    · cases read
    · next someDigits =>
      obtain ⟨ds, after, rfl, run, digits⟩ := isDigits_of_digitRun someDigits
      rw [run] at read
      cases read
      exact ⟨'.' :: ds, after, rfl, by rw [List.length_cons, Nat.add_comm], .point digits⟩
  · cases read
    exact ⟨[], cs, rfl, rfl, .none⟩

/-- How many characters an optional sign of an exponent takes. -/
def exponentSign : List Char → Nat
  | s :: _ => if s = '+' || s = '-' then 1 else 0
  | [] => 0

theorem exponentLength_cons (c : Char) (cs : List Char) :
    exponentLength (c :: cs) =
      if c = 'e' || c = 'E' then
        if digitRun (cs.drop (exponentSign cs)) = 0 then .error .noExponent
        else .ok (1 + exponentSign cs + digitRun (cs.drop (exponentSign cs)))
      else .ok 0 := by
  cases cs <;> rfl

/-- A text starts with the sign of an exponent, or else the sign takes nothing. -/
theorem exists_exponentSign (cs : List Char) : ∃ sign after, cs = sign ++ after ∧
    (sign = [] ∨ sign = ['+'] ∨ sign = ['-']) ∧ exponentSign cs = sign.length := by
  cases cs with
  | nil => exact ⟨[], [], rfl, .inl rfl, rfl⟩
  | cons c cs =>
    by_cases plus : c = '+'
    · exact ⟨['+'], cs, by rw [plus]; rfl, .inr (.inl rfl), by simp [exponentSign, plus]⟩
    · by_cases minus : c = '-'
      · exact ⟨['-'], cs, by rw [minus]; rfl, .inr (.inr rfl), by simp [exponentSign, minus]⟩
      · exact ⟨[], c :: cs, rfl, .inl rfl, by simp [exponentSign, plus, minus]⟩

theorem exponentSign_append {sign : List Char} (signed : sign = [] ∨ sign = ['+'] ∨ sign = ['-'])
    (digits : IsDigits ds) : exponentSign (sign ++ (ds ++ rest)) = sign.length := by
  obtain ⟨d, tail, rfl⟩ := List.exists_cons_of_ne_nil digits.1
  have digit := digits.2 d List.mem_cons_self
  rcases signed with rfl | rfl | rfl
  · have plus : d ≠ '+' := fun same => by rw [same] at digit; cases digit
    have minus : d ≠ '-' := fun same => by rw [same] at digit; cases digit
    simp [exponentSign, plus, minus]
  · rfl
  · rfl

theorem IsExponent.exponentLength (exponent : IsExponent cs) (ends : EndsNumber rest) :
    exponentLength (cs ++ rest) = .ok cs.length := by
  cases exponent with
  | none =>
    cases rest with
    | nil => rfl
    | cons c rest =>
      obtain ⟨_, lower, upper⟩ := ends.2 c rfl
      simp [exponentLength_cons, lower, upper]
  | power marked signed digits =>
    obtain ⟨run, someDigits⟩ := digits.digitRun ends.1
    rw [List.cons_append, exponentLength_cons, if_pos (by simpa using marked), List.append_assoc,
      exponentSign_append signed digits, List.drop_left, run, if_neg someDigits, List.length_cons,
      List.length_append]
    congr 1
    omega

theorem isExponent_of_exponentLength (read : exponentLength cs = .ok n) :
    ∃ exponent after, cs = exponent ++ after ∧ n = exponent.length ∧ IsExponent exponent := by
  cases cs with
  | nil =>
    cases read
    exact ⟨[], [], rfl, rfl, .none⟩
  | cons mark tail =>
    rw [exponentLength_cons] at read
    split at read
    · next marked =>
      split at read
      · cases read
      · next someDigits =>
        -- Behind the mark come a sign, if any, and at least one digit.
        obtain ⟨sign, after, rfl, signed, length⟩ := exists_exponentSign tail
        rw [length, List.drop_left] at read someDigits
        obtain ⟨ds, after, rfl, run, digits⟩ := isDigits_of_digitRun someDigits
        rw [run] at read
        cases read
        refine ⟨mark :: (sign ++ ds), after, by simp, by simp; omega, ?_⟩
        exact .power (by simpa using marked) signed digits
    · cases read
      exact ⟨[], mark :: tail, rfl, rfl, .none⟩

/-- A text starts with its sign, or else the sign takes nothing. -/
theorem exists_sign (cs : List Char) : ∃ sign after, cs = sign ++ after ∧
    (sign = [] ∨ sign = ['-']) ∧ signLength cs = sign.length := by
  unfold signLength
  split
  · next tail => exact ⟨['-'], tail, rfl, .inr rfl, rfl⟩
  · exact ⟨[], cs, rfl, .inl rfl, rfl⟩

theorem signLength_append {sign : List Char} (signed : sign = [] ∨ sign = ['-']) {d : Char}
    (digit : isDigit d = true) : signLength (sign ++ d :: rest) = sign.length := by
  rcases signed with rfl | rfl
  · rw [List.nil_append, signLength.eq_2]
    · rfl
    · rintro tail same
      cases same
      cases digit
  · rfl

/-- A number is taken as such before whatever does not go on with it. -/
theorem IsNumber.scanNumber (number : IsNumber cs) (ends : EndsNumber rest) :
    scanNumber (cs ++ rest) = .ok cs.length := by
  obtain @⟨sign, whole, fraction, exponent, signed, isWhole, isFraction, isExponent⟩ := number
  -- Each part ends where the next one starts, and the last one where the number ends.
  have endsE : EndsDigits (exponent ++ rest) ∧ ∀ c ∈ (exponent ++ rest).head?, c ≠ '.' := by
    cases isExponent with
    | none => exact ⟨ends.1, fun c first => (ends.2 c first).1⟩
    | power mark _ _ =>
      constructor <;> rintro _ ⟨⟩
      · rcases mark with rfl | rfl <;> rfl
      · rcases mark with rfl | rfl <;> decide
  have endsF : EndsDigits (fraction ++ (exponent ++ rest)) := by
    cases isFraction with
    | none => exact endsE.1
    | point _ =>
      rintro _ ⟨⟩
      rfl
  have start : signLength (sign ++ (whole ++ (fraction ++ (exponent ++ rest)))) = sign.length := by
    obtain ⟨d, tail, rfl, digit⟩ := isWhole.start
    exact signLength_append signed digit
  have behind (x y z : List Char) : (x ++ (y ++ z)).drop (x.length + y.length) = z := by
    rw [← List.append_assoc, ← List.length_append, List.drop_left]
  have behind' (w x y z : List Char) :
      (w ++ (x ++ (y ++ z))).drop (w.length + x.length + y.length) = z := by
    rw [← List.drop_drop, behind, List.drop_left]
  simp only [Lexer.scanNumber, List.append_assoc, bind, Except.bind, start, List.drop_left,
    isWhole.wholeLength endsF, behind, isFraction.fractionLength endsE.1 endsE.2, behind',
    isExponent.exponentLength ends, pure, Except.pure, List.length_append, Except.ok.injEq]
  omega

/-- What is scanned as a number is one. -/
theorem isNumber_of_scanNumber (read : scanNumber cs = .ok n) :
    ∃ number after, cs = number ++ after ∧ n = number.length ∧ IsNumber number := by
  obtain ⟨sign, after, rfl, signed, length⟩ := exists_sign cs
  simp only [scanNumber, bind, Except.bind, length, List.drop_left] at read
  -- The number is read in three parts, each from where the one before it ends.
  cases wholly : wholeLength after with
  | error e => simp [wholly] at read
  | ok count =>
  obtain ⟨whole, after, rfl, rfl, isWhole⟩ := isWhole_of_wholeLength wholly
  rw [wholly] at read
  simp only [← List.append_assoc, ← List.length_append, List.drop_left] at read
  cases partly : fractionLength after with
  | error e => simp [partly] at read
  | ok count =>
  obtain ⟨fraction, after, rfl, rfl, isFraction⟩ := isFraction_of_fractionLength partly
  rw [partly] at read
  simp only [← List.append_assoc, ← List.length_append, List.drop_left] at read
  cases scaled : exponentLength after with
  | error e => simp [scaled] at read
  | ok count =>
  obtain ⟨exponent, after, rfl, rfl, isExponent⟩ := isExponent_of_exponentLength scaled
  simp only [scaled, pure, Except.pure, Except.ok.injEq] at read
  refine ⟨_, after, ?_, ?_, .mk signed isWhole isFraction isExponent⟩
  · simp
  · rw [← read]
    simp [Nat.add_assoc]

theorem IsNumber.start (number : IsNumber cs) :
    ∃ c tail, cs = c :: tail ∧ (c = '-' ∨ isDigit c = true) := by
  obtain @⟨sign, whole, fraction, exponent, signed, isWhole, -, -⟩ := number
  rcases signed with rfl | rfl
  · obtain ⟨d, tail, rfl, digit⟩ := isWhole.start
    exact ⟨d, _, rfl, .inr digit⟩
  · exact ⟨'-', _, rfl, .inl rfl⟩

/-! ### Any token -/

theorem Closed.split (closed : Closed rest) {c : Char} (first : c ∈ rest.head?) :
    c = ' ' ∨ c = '\t' ∨ c = '\r' ∨ c = '\n' ∨ c = ',' ∨ c = ':' ∨ c = ']' ∨ c = '}' := by
  have either := closed c first
  simp only [isBlank, Bool.or_eq_true, beq_iff_eq] at either
  simpa only [or_assoc] using either

theorem Closed.endsNumber (closed : Closed rest) : EndsNumber rest := by
  constructor
  · intro c first
    rcases closed.split first with rfl | rfl | rfl | rfl | rfl | rfl | rfl | rfl <;> rfl
  · intro c first
    rcases closed.split first with rfl | rfl | rfl | rfl | rfl | rfl | rfl | rfl <;> decide

theorem Closed.endsWord (closed : Closed rest) : ∀ c ∈ rest.head?, Text.isLetter c = false := by
  intro c first
  rcases closed.split first with rfl | rfl | rfl | rfl | rfl | rfl | rfl | rfl <;> decide

theorem punctuation?_eq_some : punctuation? c = some kind ↔ kind.mark? = some c := by
  constructor
  · intro found
    unfold punctuation? at found
    repeat' split at found
    all_goals first | (cases found; next same => rw [same]; rfl) | cases found
  · intro isMark
    cases kind <;> cases isMark <;> rfl

/-- A text that is read as one token of a kind, whatever ends it. -/
def Lexeme (kind : TokenKind) (text : List Char) : Prop :=
  ∃ c tail, text = c :: tail ∧ isBlank c = false ∧ kind ≠ .eof ∧
    ∀ rest, Closed rest → scan c (tail ++ rest) = .ok (kind, text.length)

theorem keyword?_eq_some {word : List Char} : keyword? word = some kind ↔
    (word = ['t', 'r', 'u', 'e'] ∧ kind = .true) ∨ (word = ['f', 'a', 'l', 's', 'e'] ∧ kind = .false) ∨
      (word = ['n', 'u', 'l', 'l'] ∧ kind = .null) := by
  unfold keyword?
  split
  · next same => simp [same, eq_comm]
  · split
    · next same => simp [same, eq_comm]
    · split
      · next same => simp [same, eq_comm]
      · simp_all

/-- What is spelled as a token of a kind is read as one. -/
theorem lexeme_of_spelling (spelling : Spelling kind text) : Lexeme kind text := by
  have word {c : Char} {tail : List Char} (found : keyword? (c :: tail) = some kind)
      (notMark : punctuation? c = none) (other : (c = '-' || isDigit c) = false) (notQuote : c ≠ '"')
      (all : (c :: tail).all Text.isLetter = true) (rest : List Char) (closed : Closed rest) :
      scan c (tail ++ rest) = .ok (kind, (c :: tail).length) := by
    have letters := List.all_eq_true.1 all
    have same : (tail ++ rest).takeWhile Text.isLetter = tail :=
      takeWhile_append_of_ends (fun d inside => letters d (List.mem_cons_of_mem _ inside)) closed.endsWord
    simp only [scan, notMark, if_neg notQuote, other, letters c List.mem_cons_self, same, found,
      if_true, Bool.false_eq_true, if_false]
  -- A kind is told by its first character, and what follows the text may not go on with it.
  cases spelling with
  | @mark kind mark isMark =>
    refine ⟨mark, [], rfl, ?_, ?_, fun rest _ => ?_⟩
    · cases kind <;> cases isMark <;> rfl
    · rintro rfl
      cases isMark
    · simp only [scan, punctuation?_eq_some.2 isMark, List.length_singleton]
  | @string inner quotable =>
    refine ⟨'"', inner ++ ['"'], rfl, rfl, by decide, fun rest _ => ?_⟩
    have read := quotable.scanString 1 rest
    rw [List.append_assoc, List.singleton_append]
    simp only [scan, show punctuation? '"' = none from rfl, if_true, read, Except.map, List.length_cons,
      List.length_append, List.length_nil]
    congr 2
    omega
  | number number =>
    obtain ⟨c, tail, rfl, start⟩ := number.start
    have digit : (c = '-' || isDigit c) = true := by simpa using start
    have solid : isBlank c = false ∧ punctuation? c = none ∧ c ≠ '"' := by
      rcases start with rfl | digit
      · decide
      have other {d : Char} (notDigit : isDigit d = false) : c ≠ d := fun same => by
        rw [same, notDigit] at digit
        cases digit
      refine ⟨?_, ?_, other rfl⟩
      · simp [isBlank, other (d := ' ') rfl, other (d := '\t') rfl, other (d := '\r') rfl,
          other (d := '\n') rfl]
      · simp [punctuation?, other (d := '{') rfl, other (d := '}') rfl, other (d := '[') rfl,
          other (d := ']') rfl, other (d := ':') rfl, other (d := ',') rfl]
    refine ⟨c, tail, rfl, solid.1, by decide, fun rest closed => ?_⟩
    have read := number.scanNumber closed.endsNumber
    rw [List.cons_append] at read
    simp only [scan, solid.2.1, if_neg solid.2.2, if_pos digit, read]
  | true => exact ⟨'t', ['r', 'u', 'e'], rfl, rfl, by decide, word rfl rfl rfl (by decide) rfl⟩
  | false =>
    exact ⟨'f', ['a', 'l', 's', 'e'], rfl, rfl, by decide, word rfl rfl rfl (by decide) rfl⟩
  | null => exact ⟨'n', ['u', 'l', 'l'], rfl, rfl, by decide, word rfl rfl rfl (by decide) rfl⟩

/-- What a scan takes for a token is spelled as one. -/
theorem spelling_of_scan (read : scan c cs = .ok (kind, n)) :
    ∃ tail after, cs = tail ++ after ∧ n = (c :: tail).length ∧ Spelling kind (c :: tail) := by
  -- The scanner looks for a mark, a string, a number and a word, in this order.
  unfold scan at read
  split at read
  · next mark =>
    cases read
    exact ⟨[], cs, rfl, rfl, .mark (punctuation?_eq_some.1 mark)⟩
  · split at read
    · next quote =>
      cases found : scanString 1 cs with
      | error e => simp [found, Except.map] at read
      | ok length =>
        simp only [found, Except.map, Except.ok.injEq, Prod.mk.injEq] at read
        obtain ⟨rfl, rfl⟩ := read
        obtain ⟨inner, after, rfl, rfl, quotable⟩ := quotable_of_scanString found
        exact ⟨inner ++ ['"'], after, by simp, by simp; omega, quote ▸ .string quotable⟩
    · split at read
      · cases found : scanNumber (c :: cs) with
        | error e => simp [found] at read
        | ok length =>
          simp only [found, Except.ok.injEq, Prod.mk.injEq] at read
          obtain ⟨rfl, rfl⟩ := read
          obtain ⟨number, after, split, rfl, isNumber⟩ := isNumber_of_scanNumber found
          obtain ⟨d, tail, rfl, -⟩ := isNumber.start
          cases split
          exact ⟨tail, after, rfl, rfl, .number isNumber⟩
      · split at read
        · simp only at read
          split at read
          · next word =>
            cases read
            refine ⟨cs.takeWhile Text.isLetter, cs.dropWhile Text.isLetter,
              List.takeWhile_append_dropWhile.symm, rfl, ?_⟩
            rcases keyword?_eq_some.1 word with ⟨same, rfl⟩ | ⟨same, rfl⟩ | ⟨same, rfl⟩
            · exact same ▸ .true
            · exact same ▸ .false
            · exact same ▸ .null
          · cases read
        · cases read

/-- The lexemes of a kind are its spellings. -/
theorem lexeme_iff : Lexeme kind text ↔ Spelling kind text := by
  refine ⟨fun lexeme => ?_, lexeme_of_spelling⟩
  obtain ⟨c, tail, rfl, -, -, always⟩ := lexeme
  have read := always [] fun _ first => nomatch first
  rw [List.append_nil] at read
  obtain ⟨front, after, rfl, length, spelling⟩ := spelling_of_scan read
  have none : after = [] := by simpa using length
  rwa [none, List.append_nil]

/-- The lexeme of a kind that is one mark is this mark. -/
theorem Lexeme.eq_mark {mark : Char} (lexeme : Lexeme kind text) (isMark : kind.mark? = some mark) :
    text = [mark] := by
  cases lexeme_iff.1 lexeme with
  | mark isMark' => rw [Option.some.inj (isMark'.symm.trans isMark)]
  | string | number | true | false | null => cases isMark

/-- What is scanned to the end of a text is a lexeme. -/
theorem lexeme_of_scan {tail : List Char} (scanned : scan c tail = .ok (kind, (c :: tail).length)) :
    Lexeme kind (c :: tail) := by
  obtain ⟨front, after, rfl, length, spelling⟩ := spelling_of_scan scanned
  have none : after = [] := by simpa using length
  rw [none, List.append_nil]
  exact lexeme_of_spelling spelling

/-- A token is known by how it is written, if what comes behind it ends it. -/
theorem Lexeme.cancel {kind' : TokenKind} {text' rest' : List Char} (lexeme : Lexeme kind text)
    (lexeme' : Lexeme kind' text') (closed : Closed rest) (closed' : Closed rest')
    (same : text ++ rest = text' ++ rest') : text = text' ∧ rest = rest' := by
  obtain ⟨c, tail, rfl, -, -, scanned⟩ := lexeme
  obtain ⟨c', tail', rfl, -, -, scanned'⟩ := lexeme'
  obtain ⟨rfl, behind⟩ : c = c' ∧ tail ++ rest = tail' ++ rest' := by simpa using same
  -- From one text only one token is taken.
  have both := (scanned rest closed).symm.trans (behind ▸ scanned' rest' closed')
  exact List.append_inj same (Prod.mk.inj (Except.ok.inj both)).2

/-- No token begins with a dash and a blank. -/
theorem Lexeme.ne_dash {rest' : List Char} (lexeme : Lexeme kind text) (closed : Closed rest) :
    text ++ rest ≠ '-' :: ' ' :: rest' := by
  intro same
  obtain ⟨c, tail, rfl, -, -, scanned⟩ := lexeme
  obtain ⟨rfl, behind⟩ : c = '-' ∧ tail ++ rest = ' ' :: rest' := by simpa using same
  have read := scanned rest closed
  rw [behind] at read
  cases read

end Lexer

end DocSync
