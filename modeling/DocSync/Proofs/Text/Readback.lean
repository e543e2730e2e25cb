import DocSync.Json.Reader
import DocSync.Proofs.Assoc
import DocSync.Proofs.Text.Legible
import DocSync.Proofs.Text.Numeral
import Mathlib.Data.List.TakeDrop

/-!
A JSON value that was written is read back, on one line or on several. Each part of a value is read from
the front of the text, and what stands behind it is left over for the next part.
-/

namespace DocSync.Text

/-- A hexadecimal digit is read as what it stands for. -/
theorem hexValue?_hexDigit : ∀ n < 16, hexValue? (hexDigit n) = some n := by decide

end DocSync.Text

namespace DocSync.Json

variable {c : Char} {n : Nat} {depth fuel : Nat} {step : Option String}
  {margin outer blanks rest reversed text : List Char}

/-! ### Texts in quotes -/

/-- A code unit is read from its four digits. -/
theorem readUnit?_hex (small : n < 0x10000) (rest : List Char) :
    readUnit? (Text.hex 4 n ++ rest) = some (n, rest) := by
  -- Each digit gives back its four bits, and the four together are the number.
  have digit : ∀ k, Text.hexValue? (Text.hexDigit (k % 16)) = some (k % 16) := fun k =>
    Text.hexValue?_hexDigit _ (Nat.mod_lt _ (by decide))
  have whole : ((n / 16 / 16 / 16 % 16 * 16 + n / 16 / 16 % 16) * 16 + n / 16 % 16) * 16 + n % 16 = n := by
    omega
  simp [Text.hex, readUnit?, digit, whole]

/-- A character is the one of its code. -/
theorem charOf?_toNat (c : Char) : charOf? c.toNat = some c := by
  have valid : c.toNat.isValidChar := c.valid
  rw [charOf?, if_pos valid, Char.ofNat_toNat]

/-- A code that is no surrogate is read as the character it stands for. -/
theorem readEscape?_unit (small : c.toNat < 0x10000) (rest : List Char) :
    readEscape? ('u' :: (Text.hex 4 c.toNat ++ rest)) = some (c, rest) := by
  -- No character has the code of a surrogate, so the unit stands for a character by itself.
  have single : (decide (c.toNat < 0xD800) || decide (0xDC00 ≤ c.toNat)) = true := by
    have valid := code_valid c
    simp only [Bool.or_eq_true, decide_eq_true_eq]
    omega
  rw [readEscape?, readUnit?_hex small, Option.bind_eq_bind, Option.bind_some]
  simp only [single, if_true, charOf?_toNat]
  rfl

/-- A character beyond sixteen bits is put together from its two surrogates. -/
theorem readEscape?_pair (large : 0x10000 ≤ c.toNat) (rest : List Char) :
    readEscape? ('u' :: (Text.hex 4 (0xD800 + (c.toNat - 0x10000) / 0x400) ++
      (escapeUnit (0xDC00 + (c.toNat - 0x10000) % 0x400) ++ rest))) = some (c, rest) := by
  -- Each half has ten bits, so it stays in the range of its surrogates.
  have valid := code_valid c
  obtain ⟨high, isHigh⟩ : ∃ high, high = 0xD800 + (c.toNat - 0x10000) / 0x400 := ⟨_, rfl⟩
  obtain ⟨low, isLow⟩ : ∃ low, low = 0xDC00 + (c.toNat - 0x10000) % 0x400 := ⟨_, rfl⟩
  have surrogate : (decide (high < 0xD800) || decide (0xDC00 ≤ high)) = false := by
    simp only [Bool.or_eq_false_iff, decide_eq_false_iff_not]
    omega
  have surrogate' : (decide (low < 0xDC00) || decide (0xE000 ≤ low)) = false := by
    simp only [Bool.or_eq_false_iff, decide_eq_false_iff_not]
    omega
  have code : 0x10000 + (high - 0xD800) * 0x400 + (low - 0xDC00) = c.toNat := by omega
  rw [← isHigh, ← isLow]
  rw [readEscape?, readUnit?_hex (by omega), Option.bind_eq_bind, Option.bind_some]
  simp only [surrogate, Bool.false_eq_true, if_false, escapeUnit, List.cons_append]
  rw [readUnit?_hex (by omega), Option.bind_eq_bind, Option.bind_some]
  simp only [surrogate', Bool.false_eq_true, if_false, code, charOf?_toNat]
  rfl

/-- A mark behind a backslash is read as the character it is the escape of. -/
theorem readEscape?_short : ∀ p ∈ shortEscapes, ∀ rest, readEscape? (p.2 :: rest) = some (p.1, rest) := by
  simp [shortEscapes, readEscape?]

/-- What is written for a character is read as that character. -/
theorem readString?_escapeChar (c : Char) (fuel : Nat) (reversed rest : List Char) :
    readString? (fuel + 1) reversed (escapeChar c ++ rest) = readString? fuel (c :: reversed) rest := by
  -- Behind a backslash the reader takes an escape.
  have escaped : ∀ {tail}, readEscape? tail = some (c, rest) →
      readString? (fuel + 1) reversed ('\\' :: tail) = readString? fuel (c :: reversed) rest := by
    intro tail found
    simp [readString?, found]
  have short : ∀ {mark}, (c, mark) ∈ shortEscapes →
      readString? (fuel + 1) reversed (['\\', mark] ++ rest) = readString? fuel (c :: reversed) rest :=
    fun inside => escaped (readEscape?_short _ inside rest)
  unfold escapeChar
  split
  · next same => exact short (by rw [same]; decide)
  next notQuote =>
  split
  · next same => exact short (by rw [same]; decide)
  next notEscape =>
  iterate 5
    split
    · next same => exact short (by rw [same]; decide)
  split
  · next plain =>
    simp only [Bool.and_eq_true, decide_eq_true_eq] at plain
    have notControl : ¬ c < ' ' := Nat.not_lt.2 plain.1
    simp [readString?, notQuote, notEscape, notControl]
  split
  · next small => exact escaped (readEscape?_unit small rest)
  · next large =>
    rw [List.append_assoc]
    exact escaped (readEscape?_pair (Nat.not_lt.1 large) rest)

/-- What is written for a text is read up to the closing quote. -/
theorem readString?_escaped (enough : text.length < fuel) :
    readString? fuel reversed (text.flatMap escapeChar ++ '"' :: rest) =
      some (String.ofList (reversed.reverse ++ text), rest) := by
  -- The induction is on the text: a character takes one step of the reader, however it is escaped.
  induction text generalizing fuel reversed with
  | nil =>
    obtain ⟨fuel, rfl⟩ := Nat.exists_eq_add_of_lt enough
    simp [readString?]
  | cons c tail ih =>
    cases fuel with
    | zero => simp at enough
    | succ fuel =>
      rw [List.flatMap_cons, List.append_assoc, readString?_escapeChar, ih (by simpa using enough)]
      simp

theorem length_escapeChar_pos (c : Char) : 0 < (escapeChar c).length := by
  obtain ⟨first, tail, written, -⟩ := (escaped_escapeChar c).start
  simp [written]

/-- No text is longer than what is written for it. -/
theorem length_le_escaped (text : List Char) : text.length ≤ (text.flatMap escapeChar).length := by
  -- Each character is written with at least one.
  induction text with
  | nil => simp
  | cons c tail ih =>
    have one := length_escapeChar_pos c
    simp only [List.flatMap_cons, List.length_append, List.length_cons]
    omega

theorem toList_quote (text : String) :
    (quote text).toList = '"' :: (text.toList.flatMap escapeChar ++ ['"']) := by
  simp [quote]

/-- A text in quotes is read from behind its opening quote. -/
theorem readText_quoted (text : String) (rest : List Char) :
    readText (text.toList.flatMap escapeChar ++ '"' :: rest) = .ok (text, rest) := by
  -- The reader may take as many steps as there are characters left, which is enough.
  have enough : text.toList.length < (text.toList.flatMap escapeChar ++ '"' :: rest).length + 1 := by
    have long := length_le_escaped text.toList
    simp only [List.length_append]
    omega
  rw [readText, readString?_escaped enough]
  simp

/-! ### Numerals -/

/-- Nothing that a number could go on with stands at the front of a text. -/
def EndsNumber (rest : List Char) : Prop :=
  ∀ c tail, rest = c :: tail → c.isDigit = false ∧ c ≠ '.' ∧ c ≠ 'e' ∧ c ≠ 'E'

/-- Digits are read up to the first character that is none. -/
theorem spanDigits_append (digits : ∀ c ∈ text, c.isDigit = true) (ends : EndsNumber rest) :
    spanDigits (text ++ rest) = (text, rest) := by
  -- What follows starts with no digit, so the digits end with the text.
  have behind : rest.takeWhile Char.isDigit = [] ∧ rest.dropWhile Char.isDigit = rest := by
    cases rest with
    | nil => simp
    | cons c tail => simp [(ends c tail rfl).1]
  rw [spanDigits, List.span_eq_takeWhile_dropWhile, List.takeWhile_append_of_pos digits,
    List.dropWhile_append_of_pos digits, behind.1, behind.2, List.append_nil]

theorem readFraction_of_ends (ends : EndsNumber rest) : readFraction rest = ([], rest) := by
  unfold readFraction
  split
  · exact absurd rfl (ends _ _ rfl).2.1
  · rfl

theorem readExponent_of_ends (ends : EndsNumber rest) : readExponent rest = (none, rest) := by
  unfold readExponent
  split
  · next e tail =>
    obtain ⟨-, -, notSmall, notLarge⟩ := ends _ _ rfl
    simp [notSmall, notLarge]
  · rfl

/-- A numeral starts with a digit, and with a zero only if that is all of it. -/
theorem toDigits_start (n : Nat) : ∃ c tail, Nat.toDigits 10 n = c :: tail ∧ (c = '0' → tail = []) := by
  induction n using Nat.strongRecOn with
  | ind n ih =>
    by_cases small : n < 10
    · exact ⟨_, [], Nat.toDigits_of_lt_base small, fun _ => rfl⟩
    · obtain ⟨c, tail, written, zero⟩ := ih (n / 10) (by omega)
      refine ⟨c, tail ++ [(n % 10).digitChar], ?_, fun same => ?_⟩
      · rw [Nat.toDigits_of_base_le (by decide) (by omega), written]
        rfl
      · -- What stands in front of the last digit would be zero.
        have front := Nat.ofDigitChars_ten_toDigits (n := n / 10)
        rw [written, zero same, same] at front
        have : (0 : Nat) = n / 10 := front
        omega

/-- Digits are read as the number that they were written for, and behind a sign as its negative. -/
theorem readNumber_digits (short : (Nat.toDigits 10 n).length ≤ Text.maxDigits) (ends : EndsNumber rest) :
    readNumber (Nat.toDigits 10 n ++ rest) = .ok (int n, rest) ∧
      readNumber ('-' :: (Nat.toDigits 10 n ++ rest)) = .ok (int (-n), rest) := by
  have value : natOf (Nat.toDigits 10 n) = n := Nat.ofDigitChars_ten_toDigits
  have all : ∀ d ∈ Nat.toDigits 10 n, d.isDigit = true := fun d member =>
    Nat.isDigit_of_mem_toDigits (by decide) (by decide) member
  have spanned := spanDigits_append all ends
  obtain ⟨c, tail, written, zero⟩ := toDigits_start n
  rw [written] at short value all spanned ⊢
  rw [List.cons_append] at spanned ⊢
  have unsigned : c ≠ '-' := Text.ne_of_isDigit (all c List.mem_cons_self) (by decide)
  -- A leading zero is taken alone, and other digits as far as they go.
  by_cases isZero : c = '0'
  · obtain rfl := zero isZero
    subst isZero
    have some_ : Text.maxDigits ≠ 0 := by decide
    simp [readNumber, bind, Except.bind, pure, Except.pure, readFraction_of_ends ends,
      readExponent_of_ends ends, value, some_]
  · simp [readNumber, unsigned, isZero, spanned, bind, Except.bind, pure, Except.pure,
      readFraction_of_ends ends, readExponent_of_ends ends, value, Nat.not_lt.2 short, -List.length_cons]

theorem toList_toString_natCast (n : Nat) : (toString (n : Int)).toList = Nat.toDigits 10 n := by
  change (Nat.repr n).toList = _
  simp [Nat.repr_eq_ofList_toDigits]

theorem toList_toString_negSucc (n : Nat) :
    (toString (Int.negSucc n)).toList = '-' :: Nat.toDigits 10 (n + 1) := by
  change ("-" ++ Nat.repr (n + 1)).toList = _
  simp [Nat.repr_eq_ofList_toDigits]

/-- What is written for an integer starts with a digit, or with a sign and a digit. -/
theorem toString_start (k : Int) : ∃ c tail, c.isDigit = true ∧
    ((toString k).toList = c :: tail ∨ (toString k).toList = '-' :: c :: tail) := by
  have digit : ∀ n, ∃ c tail, c.isDigit = true ∧ Nat.toDigits 10 n = c :: tail := by
    intro n
    obtain ⟨c, tail, written, -⟩ := toDigits_start n
    have member : c ∈ Nat.toDigits 10 n := written ▸ List.mem_cons_self
    exact ⟨c, tail, Nat.isDigit_of_mem_toDigits (by decide) (by decide) member, written⟩
  cases k with
  | ofNat n =>
    obtain ⟨c, tail, isDigit, written⟩ := digit n
    exact ⟨c, tail, isDigit, .inl (written ▸ toList_toString_natCast n)⟩
  | negSucc n =>
    obtain ⟨c, tail, isDigit, written⟩ := digit (n + 1)
    exact ⟨c, tail, isDigit, .inr (written ▸ toList_toString_negSucc n)⟩

/-- An integer that has not too many digits is read back. -/
theorem readNumber_int {k : Int} (short : (Text.writeInt? k).isSome = true) (ends : EndsNumber rest) :
    readNumber ((toString k).toList ++ rest) = .ok (int k, rest) := by
  -- What can be written has just as many digits as can be read.
  have few : (Nat.toDigits 10 k.natAbs).length ≤ Text.maxDigits := by
    unfold Text.writeInt? at short
    split at short
    · assumption
    · cases short
  cases k with
  | ofNat n =>
    rw [Int.ofNat_eq_natCast, toList_toString_natCast]
    exact (readNumber_digits few ends).1
  | negSucc n =>
    rw [toList_toString_negSucc, List.cons_append]
    exact (readNumber_digits few ends).2

/-- No integer is written as one of the words. -/
theorem readWord?_int (k : Int) (rest : List Char) : readWord? ((toString k).toList ++ rest) = none := by
  -- The words start with letters, or with a sign and a letter.
  obtain ⟨c, tail, isDigit, written⟩ := toString_start k
  have other : ∀ {d : Char}, d.isDigit = false → ¬ d = c := fun noDigit same =>
    Text.ne_of_isDigit isDigit noDigit same.symm
  have noWord : ¬ 'n' = c ∧ ¬ 't' = c ∧ ¬ 'f' = c ∧ ¬ 'N' = c ∧ ¬ 'I' = c ∧ ¬ '-' = c :=
    ⟨other (by decide), other (by decide), other (by decide), other (by decide), other (by decide),
      other (by decide)⟩
  rcases written with written | written <;> rw [written] <;> simp [readWord?, words, noWord]

/-! ### Values -/

/-- A value can be read where at most so many arrays and objects may lie inside one another: there is no
number in it with a fraction, no integer has too many digits, and no object has two members of one name. -/
inductive Readable : Nat → Json → Prop
  | null (room : Nat) : Readable room null
  | bool (room : Nat) (flag : Bool) : Readable room (bool flag)
  | int (room : Nat) {k : Int} : (Text.writeInt? k).isSome = true → Readable room (int k)
  | str (room : Nat) (text : String) : Readable room (str text)
  | arr {room : Nat} {items : List Json} : (∀ item ∈ items, Readable room item) →
    Readable (room + 1) (arr items)
  | obj {room : Nat} {members : List (String × Json)} : (members.map Prod.fst).Nodup →
    (∀ member ∈ members, Readable room member.2) → Readable (room + 1) (obj members)

/-- Blanks in front of something else are passed over. -/
theorem skipBlanks_append (blank : ∀ d ∈ blanks, isBlank d = true) (solid : isBlank c = false) :
    skipBlanks (blanks ++ c :: rest) = c :: rest := by
  rw [skipBlanks, List.dropWhile_append_of_pos blank, List.dropWhile_cons, solid]
  rfl

theorem skipBlanks_cons (solid : isBlank c = false) : skipBlanks (c :: rest) = c :: rest :=
  skipBlanks_append (List.forall_mem_nil _) solid

theorem flat_null : flat step margin null = ['n', 'u', 'l', 'l'] := by simp [flat, compact]

theorem flat_bool (flag : Bool) :
    flat step margin (bool flag) = if flag then ['t', 'r', 'u', 'e'] else ['f', 'a', 'l', 's', 'e'] := by
  cases flag <;> simp [flat, compact]

theorem flat_int (k : Int) : flat step margin (int k) = (toString k).toList := by simp [flat, compact]

/-- A value starts with a character that is no blank and closes no brackets. -/
theorem flat_start (step : Option String) (margin : List Char) {value : Json}
    (readable : Readable depth value) :
    ∃ c tail, flat step margin value = c :: tail ∧ isBlank c = false ∧ c ≠ ']' := by
  -- There is one case for each way in which a value is written.
  cases readable with
  | null => exact ⟨'n', _, flat_null, by decide, by decide⟩
  | bool _ flag =>
    cases flag with
    | true => exact ⟨'t', _, flat_bool true, by decide, by decide⟩
    | false => exact ⟨'f', _, flat_bool false, by decide, by decide⟩
  | str _ text => exact ⟨'"', _, (flat_str text).trans (toList_quote text), by decide, by decide⟩
  | @int _ k _ =>
    obtain ⟨c, tail, isDigit, written⟩ := toString_start k
    have blank : isBlank c = false := by
      simp [isBlank, Text.ne_of_isDigit isDigit (d := ' ') (by decide),
        Text.ne_of_isDigit isDigit (d := '\t') (by decide),
        Text.ne_of_isDigit isDigit (d := '\n') (by decide),
        Text.ne_of_isDigit isDigit (d := '\r') (by decide)]
    rw [flat_int]
    rcases written with written | written
    · exact ⟨c, tail, written, blank, Text.ne_of_isDigit isDigit (by decide)⟩
    · exact ⟨'-', c :: tail, written, by decide, by decide⟩
  | arr _ =>
    rw [flat]
    obtain ⟨tail, written⟩ := enclosed_start '[' ']' _
    exact ⟨'[', tail, written, by decide, by decide⟩
  | obj _ _ =>
    rw [flat]
    obtain ⟨tail, written⟩ := enclosed_start '\x7b' '\x7d' _
    exact ⟨'\x7b', tail, written, by decide, by decide⟩

/-- A margin of blanks, as it stands behind a line feed, or not at all on a single line. -/
theorem isBlank_of_mem_gap (blank : ∀ d ∈ margin, isBlank d = true) :
    ∀ d ∈ gap step margin, isBlank d = true := by
  unfold gap
  split
  · exact List.forall_mem_cons.2 ⟨by decide, blank⟩
  · exact fun _ member => nomatch member

/-- Between two parts stands a comma, and then nothing but blanks. -/
theorem exists_separator (step : Option String) (blank : ∀ d ∈ margin, isBlank d = true) :
    ∃ blanks, separator step margin = ',' :: blanks ∧ ∀ d ∈ blanks, isBlank d = true := by
  refine ⟨_, rfl, ?_⟩
  split
  · exact List.forall_mem_cons.2 ⟨by decide, blank⟩
  · exact List.forall_mem_singleton.2 (by decide)

/-- No number goes on with a blank, a comma or a bracket. -/
theorem endsNumber_append (blank : ∀ d ∈ blanks, isBlank d = true)
    (closing : c = ',' ∨ c = ']' ∨ c = '\x7d') : EndsNumber (blanks ++ c :: rest) := by
  -- The first character is the closing mark, or else a blank.
  intro d tail same
  cases blanks with
  | nil =>
    obtain ⟨rfl, -⟩ := List.cons.inj same
    rcases closing with rfl | rfl | rfl <;> decide
  | cons e blanks =>
    obtain ⟨rfl, -⟩ := List.cons.inj same
    have isBlank := blank e List.mem_cons_self
    simp only [Json.isBlank, Bool.or_eq_true, beq_iff_eq] at isBlank
    rcases isBlank with ((rfl | rfl) | rfl) | rfl <;> decide

theorem endsNumber_comma : EndsNumber (',' :: rest) :=
  endsNumber_append (List.forall_mem_nil _) (.inl rfl)

/-- Blanks in front of a row of parts are passed over. -/
theorem skipBlanks_row {between part tail : List Char} {parts : List (List Char)}
    (blank : ∀ d ∈ blanks, isBlank d = true) (starts : part = c :: tail) (solid : isBlank c = false) :
    skipBlanks (blanks ++ (between.intercalate (part :: parts) ++ rest)) =
      between.intercalate (part :: parts) ++ rest := by
  -- A row starts as its first part does, whether others follow or not.
  obtain ⟨behind, split⟩ : ∃ behind, between.intercalate (part :: parts) ++ rest = c :: behind := by
    cases parts with
    | nil => exact ⟨_, by rw [List.intercalate_singleton, starts]; rfl⟩
    | cons next parts => exact ⟨_, by rw [List.intercalate_cons_cons, starts]; rfl⟩
  rw [split, skipBlanks_append blank solid]

/-- Values in a row are read up to the bracket behind them. -/
theorem readItems_flat {items : List Json} (some_ : items ≠ []) (blank : ∀ d ∈ margin, isBlank d = true)
    (blank' : ∀ d ∈ outer, isBlank d = true) (readable : ∀ item ∈ items, Readable depth item)
    (each : ∀ item ∈ items, ∀ {fuel rest}, (flat step margin item).length ≤ fuel → EndsNumber rest →
      readValue fuel depth (flat step margin item ++ rest) = .ok (item, rest))
    (enough : ((separator step margin).intercalate (items.map (flat step margin))).length < fuel) :
    readItems fuel depth ((separator step margin).intercalate (items.map (flat step margin)) ++
      (gap step outer ++ ']' :: rest)) = .ok (items, rest) := by
  -- The induction is on the values: each is read by itself, and then a comma or the bracket decides.
  obtain ⟨blanks, separates, isBlanks⟩ := exists_separator step blank
  induction items generalizing fuel with
  | nil => exact absurd rfl some_
  | cons item tail ih =>
    obtain ⟨fuel, rfl⟩ : ∃ k, fuel = k + 1 := ⟨fuel - 1, by omega⟩
    rw [List.forall_mem_cons] at readable each
    cases tail with
    | nil =>
      rw [List.map_singleton, List.intercalate_singleton] at enough ⊢
      have closes : ∀ d ∈ gap step outer, isBlank d = true := isBlank_of_mem_gap blank'
      rw [readItems, each.1 (Nat.le_of_lt_succ enough) (endsNumber_append closes (.inr (.inl rfl)))]
      simp only [bind, Except.bind, skipBlanks_append closes (c := ']') (by decide)]
      rfl
    | cons next tail =>
      -- A comma follows the first value, and the others follow that.
      have others := @ih fuel (List.cons_ne_nil _ _) readable.2 each.2
      obtain ⟨c, start, written, solid, -⟩ := flat_start step margin (readable.2 next List.mem_cons_self)
      simp only [List.map_cons, List.intercalate_cons_cons, separates, List.append_assoc,
        List.cons_append, List.length_append, List.length_cons] at enough others ⊢
      rw [readItems, each.1 (by omega) endsNumber_comma]
      simp only [bind, Except.bind, skipBlanks_cons (c := ',') (by decide),
        skipBlanks_row isBlanks written solid, others (by omega)]
      rfl

theorem flatMember_eq (step : Option String) (margin : List Char) (member : String × Json) :
    flatMember step margin member =
      '"' :: (member.1.toList.flatMap escapeChar ++ '"' :: ':' :: ' ' :: flat step margin member.2) := by
  simp [flatMember, toList_quote]

/-- Of a member its name is read, and behind the colon its value. -/
theorem readMembers_flatMember {name : String} {value : Json} {before : List (String × Json)}
    (readable : Readable depth value)
    (ran : readValue fuel depth (flat step margin value ++ rest) = .ok (value, rest)) :
    readMembers (fuel + 1) depth before (flatMember step margin (name, value) ++ rest) =
      match skipBlanks rest with
      | '\x7d' :: rest => .ok (Assoc.set name value before, rest)
      | ',' :: rest => readMembers fuel depth (Assoc.set name value before) (skipBlanks rest)
      | _ => .error .malformed := by
  obtain ⟨c, start, written, solid, -⟩ := flat_start step margin readable
  have blank : skipBlanks (' ' :: (flat step margin value ++ rest)) = flat step margin value ++ rest := by
    rw [written]
    exact skipBlanks_append (List.forall_mem_singleton.2 rfl) solid
  simp only [flatMember_eq, List.cons_append, List.append_assoc, readMembers, readText_quoted, bind,
    Except.bind, skipBlanks_cons (c := ':') (by decide), blank, ran]
  rfl

/-- Members in a row are read up to the bracket behind them, and are set one after the other. -/
theorem readMembers_flat {members before : List (String × Json)} (some_ : members ≠ [])
    (blank : ∀ d ∈ margin, isBlank d = true) (blank' : ∀ d ∈ outer, isBlank d = true)
    (readable : ∀ member ∈ members, Readable depth member.2)
    (each : ∀ member ∈ members, ∀ {fuel rest}, (flat step margin member.2).length ≤ fuel →
      EndsNumber rest → readValue fuel depth (flat step margin member.2 ++ rest) = .ok (member.2, rest))
    (enough : ((separator step margin).intercalate (members.map (flatMember step margin))).length < fuel) :
    readMembers fuel depth before ((separator step margin).intercalate (members.map (flatMember step margin)) ++
      (gap step outer ++ '\x7d' :: rest)) =
        .ok (members.foldl (fun acc member => Assoc.set member.1 member.2 acc) before, rest) := by
  -- As with values in a row, but what has been read is carried along, and names come before values.
  obtain ⟨blanks, separates, isBlanks⟩ := exists_separator step blank
  have long : ∀ member : String × Json,
      (flat step margin member.2).length < (flatMember step margin member).length := by
    intro member
    simp only [flatMember, List.length_append, List.length_cons]
    omega
  induction members generalizing fuel before with
  | nil => exact absurd rfl some_
  | cons member tail ih =>
    obtain ⟨fuel, rfl⟩ : ∃ k, fuel = k + 1 := ⟨fuel - 1, by omega⟩
    rw [List.forall_mem_cons] at readable each
    have longer := long member
    cases tail with
    | nil =>
      rw [List.map_singleton, List.intercalate_singleton] at enough ⊢
      have closes : ∀ d ∈ gap step outer, isBlank d = true := isBlank_of_mem_gap blank'
      rw [readMembers_flatMember readable.1
        (each.1 (by omega) (endsNumber_append closes (.inr (.inr rfl)))),
        skipBlanks_append closes (by decide)]
      rfl
    | cons next tail =>
      -- A comma follows the first member, and the others follow that.
      have others := @ih fuel (Assoc.set member.1 member.2 before) (List.cons_ne_nil _ _) readable.2 each.2
      have starts := flatMember_eq step margin next
      simp only [List.map_cons, List.intercalate_cons_cons, separates, List.append_assoc,
        List.cons_append, List.length_append, List.length_cons] at enough others ⊢
      rw [readMembers_flatMember readable.1 (each.1 (by omega) endsNumber_comma), skipBlanks_cons (by decide)]
      simp only [skipBlanks_row isBlanks starts (by decide), others (by omega)]
      rfl

/-- What starts with no quote and no bracket is a word or a number. -/
theorem readValue_plain (noQuote : c ≠ '"') (noArray : c ≠ '[') (noObject : c ≠ '\x7b') :
    readValue (fuel + 1) depth (c :: rest) =
      match readWord? (c :: rest) with
      | some found => .ok found
      | none => readNumber (c :: rest) := by
  -- The reader looks for a word where the first character opens nothing, however deep it is.
  cases found : readWord? (c :: rest) <;> cases depth <;>
    simp [readValue, noQuote, noArray, noObject, found]

/-- Between brackets that do not close at once stand items. -/
theorem readValue_array (behind : skipBlanks rest = text) (some_ : ∀ tail, text ≠ ']' :: tail)
    {items : List Json} {after : List Char} (ran : readItems fuel depth text = .ok (items, after)) :
    readValue (fuel + 1) (depth + 1) ('[' :: rest) = .ok (arr items, after) := by
  simp only [readValue, behind, ran]
  rfl

/-- Between brackets that do not close at once stand members. -/
theorem readValue_object (behind : skipBlanks rest = text) (some_ : ∀ tail, text ≠ '\x7d' :: tail)
    {members : List (String × Json)} {after : List Char}
    (ran : readMembers fuel depth [] text = .ok (members, after)) :
    readValue (fuel + 1) (depth + 1) ('\x7b' :: rest) = .ok (obj members, after) := by
  simp only [readValue, behind, ran]
  rfl

/-- The parts of a value between its brackets, of which there are some. -/
theorem enclosed_append (left right : Char) {parts : List (List Char)} (some_ : parts ≠ []) :
    enclosed step margin left right parts ++ rest = left :: (gap step (deeper step margin) ++
      ((separator step (deeper step margin)).intercalate parts ++ (gap step margin ++ right :: rest))) := by
  rw [enclosed, if_neg (by simpa using some_)]
  simp

/-- The parts of a value take less room than the value. -/
theorem length_row_lt (left right : Char) {parts : List (List Char)} (some_ : parts ≠ [])
    (enough : (enclosed step margin left right parts).length ≤ fuel + 1) :
    ((separator step (deeper step margin)).intercalate parts).length < fuel := by
  rw [enclosed, if_neg (by simpa using some_)] at enough
  simp only [List.length_cons, List.length_append, List.length_nil] at enough
  omega

/-- A row of parts starts as its first part does. -/
theorem row_ne {between part tail : List Char} {parts : List (List Char)} {d : Char} (starts : part = c :: tail)
    (other : c ≠ d) (behind : List Char) : between.intercalate (part :: parts) ++ rest ≠ d :: behind := by
  rw [starts]
  intro same
  cases parts with
  | nil =>
    rw [List.intercalate_singleton] at same
    exact other (List.cons.inj same).1
  | cons next parts =>
    rw [List.intercalate_cons_cons] at same
    exact other (List.cons.inj same).1

/-- No value is written as nothing. -/
theorem exists_fuel {value : Json} (readable : Readable depth value)
    (enough : (flat step margin value).length ≤ fuel) : ∃ k, fuel = k + 1 := by
  obtain ⟨c, tail, written, -⟩ := flat_start step margin readable
  rw [written, List.length_cons] at enough
  exact ⟨fuel - 1, by omega⟩

/-- A readable value that was written is read back, whatever stands behind it. -/
theorem readValue_flat {value : Json} (readable : Readable depth value)
    (blank : ∀ d ∈ (step.getD "").toList, isBlank d = true) (blank' : ∀ d ∈ margin, isBlank d = true)
    (enough : (flat step margin value).length ≤ fuel) (ends : EndsNumber rest) :
    readValue fuel depth (flat step margin value ++ rest) = .ok (value, rest) := by
  -- The induction is on what makes the value readable; the margin grows with each bracket, and the number
  -- of brackets that may still be opened goes down.
  obtain ⟨fuel, rfl⟩ := exists_fuel readable enough
  induction readable generalizing fuel margin rest with
  | null =>
    rw [flat_null, List.cons_append, readValue_plain (by decide) (by decide) (by decide)]
    simp [readWord?, words]
  | bool _ flag =>
    cases flag <;> rw [flat_bool]
    · simp only [Bool.false_eq_true, if_false, List.cons_append]
      rw [readValue_plain (by decide) (by decide) (by decide)]
      simp [readWord?, words]
    · simp only [if_true, List.cons_append]
      rw [readValue_plain (by decide) (by decide) (by decide)]
      simp [readWord?, words]
  | @int _ k short =>
    have number := readNumber_int short ends
    have noWord := readWord?_int k rest
    rw [flat_int]
    obtain ⟨c, tail, isDigit, written | written⟩ := toString_start k
    · rw [written, List.cons_append] at number noWord ⊢
      rw [readValue_plain (Text.ne_of_isDigit isDigit (by decide)) (Text.ne_of_isDigit isDigit (by decide))
        (Text.ne_of_isDigit isDigit (by decide)), noWord, number]
    · rw [written, List.cons_append] at number noWord ⊢
      rw [readValue_plain (by decide) (by decide) (by decide), noWord, number]
  | str _ text =>
    rw [flat_str, toList_quote, List.cons_append, List.append_assoc]
    simp only [readValue, List.singleton_append, readText_quoted]
    rfl
  | @arr room items each ih =>
    have inner : ∀ d ∈ deeper step margin, isBlank d = true := List.forall_mem_append.2 ⟨blank', blank⟩
    rw [flat, flatItems_eq_map] at enough ⊢
    cases items with
    | nil =>
      simp only [enclosed, List.map_nil, List.isEmpty_nil, if_true, List.cons_append, List.nil_append]
      simp only [readValue, skipBlanks_cons (c := ']') (by decide)]
    | cons item tail =>
      obtain ⟨c, start, written, solid, other⟩ :=
        flat_start step (deeper step margin) (each item List.mem_cons_self)
      have some_ : (item :: tail).map (flat step (deeper step margin)) ≠ [] := by simp
      rw [enclosed_append _ _ some_]
      refine readValue_array (skipBlanks_row (isBlank_of_mem_gap inner) written solid) (row_ne written other) ?_
      refine readItems_flat (List.cons_ne_nil _ _) inner blank' each
        (fun value inside fuel rest long ends => ?_) (length_row_lt _ _ some_ enough)
      obtain ⟨fuel, rfl⟩ := exists_fuel (each value inside) long
      exact ih value inside inner ends fuel long
  | @obj room members nodup each ih =>
    have inner : ∀ d ∈ deeper step margin, isBlank d = true := List.forall_mem_append.2 ⟨blank', blank⟩
    rw [flat, flatMembers_eq_map] at enough ⊢
    cases members with
    | nil =>
      simp only [enclosed, List.map_nil, List.isEmpty_nil, if_true, List.cons_append, List.nil_append]
      simp only [readValue, skipBlanks_cons (c := '\x7d') (by decide)]
    | cons member tail =>
      have written := flatMember_eq step (deeper step margin) member
      have some_ : (member :: tail).map (flatMember step (deeper step margin)) ≠ [] := by simp
      rw [enclosed_append _ _ some_]
      refine readValue_object (skipBlanks_row (isBlank_of_mem_gap inner) written (by decide))
        (row_ne written (by decide)) ?_
      rw [← List.map_cons, readMembers_flat (List.cons_ne_nil _ _) inner blank' each
        (fun value inside fuel rest long ends => by
          obtain ⟨fuel, rfl⟩ := exists_fuel (each value inside) long
          exact ih value inside inner ends fuel long)
        (length_row_lt _ _ some_ enough), Assoc.foldl_set nodup]

/-- A value that was written is read back, on one line or on several that are indented by blanks. -/
theorem read_write {value : Json} {indent : Option Indent} (readable : Readable depth value)
    (blank : ∀ d ∈ ((indent.map Indent.step).getD "").toList, isBlank d = true) :
    read depth (value.write indent) = .ok value := by
  obtain ⟨c, tail, written, solid, -⟩ := flat_start (indent.map Indent.step) [] readable
  have start : skipBlanks (value.write indent).toList = (value.write indent).toList := by
    rw [toList_write, written]
    exact skipBlanks_cons solid
  have ran : readValue (2 * (value.write indent).toList.length + 1) depth
      (flat (indent.map Indent.step) [] value ++ []) = .ok (value, []) :=
    readValue_flat readable blank (List.forall_mem_nil _) (by rw [toList_write]; omega) nofun
  rw [List.append_nil, ← toList_write] at ran
  simp only [read, start, ran, bind, Except.bind]
  rfl

end DocSync.Json
