import DocSync.Proofs.Grammar.Tokens

/-!
The tokens of a text that is put together from parts. Blanks only move the position; a lexeme is read
as its token before whatever ends it, and a punctuation mark before anything at all.
-/

namespace DocSync.Lexer

variable {file : Json} {fuel fuel' : Nat} {text rest blank x y : List Char} {pos : Cursor}
  {kind : TokenKind} {ts us : List Token} {mark : Char}

/-- Some tokens before others. -/
def Lexed.behind (ts : List Token) (l : Lexed) : Lexed := ⟨ts ++ l.tokens, l.error⟩

theorem Lexed.behind_append (l : Lexed) : l.behind (ts ++ us) = (l.behind us).behind ts := by
  simp [behind]

/-- The tokens of a text that starts at a position. -/
def lex (file : Json) (text : List Char) (pos : Cursor) : Lexed :=
  tokensFrom file (text.length + 1) text pos

/-- Once it exceeds the length of the text, the count of tokens does not matter. -/
theorem tokensFrom_fuel (enough : text.length < fuel) (enough' : text.length < fuel') :
    tokensFrom file fuel text pos = tokensFrom file fuel' text pos := by
  induction fuel generalizing fuel' text pos with
  | zero => omega
  | succ fuel ih =>
    obtain ⟨fuel', rfl⟩ : ∃ n, fuel' = n + 1 := ⟨fuel' - 1, by omega⟩
    unfold tokensFrom
    cases front : text.dropWhile isBlank with
    | nil => rfl
    | cons c rest =>
      cases found : scan c rest with
      | error e => simp only [found]
      | ok read =>
        obtain ⟨kind, length⟩ := read
        -- A token takes a character at least.
        obtain ⟨tail, after, rfl, rfl, -⟩ := spelling_of_scan found
        have left : (c :: (tail ++ after)).drop (c :: tail).length = after := by
          rw [← List.cons_append, List.drop_left]
        have shorter : after.length < text.length := by
          have total := (text.dropWhile_suffix isBlank).length_le
          rw [front] at total
          simp at total
          omega
        simp only [found, left]
        rw [ih (by omega) (by omega : after.length < fuel')]

/-- Blanks at the front only move the position. -/
theorem lex_blanks (blanks : Blanks blank) :
    lex file (blank ++ text) pos = lex file text (pos.advance blank) := by
  have enough : text.length < (blank ++ text).length + 1 := by
    rw [List.length_append]
    omega
  rw [lex, lex, ← tokensFrom_fuel enough (Nat.lt_succ_self _)]
  unfold tokensFrom
  rw [List.takeWhile_append_of_pos blanks, List.dropWhile_append_of_pos blanks,
    Cursor.advance_append]

/-- What is scanned at the front is the first token. -/
theorem lex_scan {c : Char} {tail : List Char} (solid : isBlank c = false)
    (scanned : scan c (tail ++ rest) = .ok (kind, (c :: tail).length)) :
    lex file (c :: tail ++ rest) pos = (lex file rest (pos.advance (c :: tail))).behind
      [tokenAt file kind (c :: tail) pos (pos.advance (c :: tail))] := by
  have none : (c :: tail ++ rest).takeWhile isBlank = [] := by
    rw [List.cons_append, List.takeWhile_cons, solid]
    rfl
  have all : (c :: tail ++ rest).dropWhile isBlank = c :: (tail ++ rest) := by
    rw [List.cons_append, List.dropWhile_cons, solid]
    rfl
  have piece : (c :: (tail ++ rest)).take (c :: tail).length = c :: tail := by
    rw [← List.cons_append, List.take_left]
  have left : (c :: (tail ++ rest)).drop (c :: tail).length = rest := by
    rw [← List.cons_append, List.drop_left]
  -- Without blanks in front the first piece is the text itself, and the rest is lexed with fuel to spare.
  rw [lex, tokensFrom, none, all]
  simp only [scanned, piece, left]
  have enough : rest.length < (c :: tail ++ rest).length := by
    rw [List.length_append, List.length_cons]
    omega
  rw [lex, tokensFrom_fuel enough (Nat.lt_succ_self rest.length)]
  rfl

theorem lex_nil : lex file [] pos = ⟨[tokenAt file .eof [] pos pos], none⟩ := rfl

/-- A text is read as tokens from a position on, whatever ends the last of them. -/
def Lexes (file : Json) (pos : Cursor) (text : List Char) (ts : List Token) : Prop :=
  ∀ rest, Closed rest → lex file (text ++ rest) pos = (lex file rest (pos.advance text)).behind ts

/-- Marks of punctuation and blanks end whatever token stands before them. -/
theorem Closed.of_blanks (blanks : Blanks blank) (closed : Closed rest) : Closed (blank ++ rest) := by
  cases blank with
  | nil => exact closed
  | cons c blank =>
    rintro _ ⟨⟩
    exact .inl (blanks c List.mem_cons_self)

theorem closed_mark (ends : mark = ',' ∨ mark = ':' ∨ mark = ']' ∨ mark = '}') :
    Closed (mark :: rest) := by
  rintro _ ⟨⟩
  exact .inr ends

theorem closed_lineFeed : Closed ('\n' :: rest) := by
  rintro _ ⟨⟩
  exact .inl rfl

theorem closed_nil : Closed [] := fun _ first => nomatch first

namespace Lexes

theorem nil : Lexes file pos [] [] := fun _ _ => rfl

/-- A lexeme is its token. -/
theorem lexeme (lexeme : Lexeme kind text) :
    Lexes file pos text [tokenAt file kind text pos (pos.advance text)] := by
  obtain ⟨c, tail, rfl, solid, _, always⟩ := lexeme
  exact fun rest closed => lex_scan solid (always rest closed)

/-- Parts that end one another are read one after the other. -/
theorem append (first : Lexes file pos x ts) (second : Lexes file (pos.advance x) y us)
    (ends : ∀ rest, Closed rest → Closed (y ++ rest)) : Lexes file pos (x ++ y) (ts ++ us) := by
  intro rest closed
  rw [List.append_assoc, first _ (ends rest closed), second rest closed, Lexed.behind_append,
    Cursor.advance_append]

/-- Blanks before a part are passed over. -/
theorem after_blanks (blanks : Blanks blank) (lexes : Lexes file (pos.advance blank) text ts) :
    Lexes file pos (blank ++ text) ts := by
  intro rest closed
  rw [List.append_assoc, lex_blanks blanks, lexes rest closed, Cursor.advance_append]

/-- A punctuation mark is a token before anything. -/
theorem after_mark (isMark : punctuation? mark = some kind)
    (lexes : Lexes file (pos.advance [mark]) text ts) :
    Lexes file pos (mark :: text) (tokenAt file kind [mark] pos (pos.advance [mark]) :: ts) := by
  have solid : isBlank mark = false := by
    unfold punctuation? at isMark
    repeat' split at isMark
    all_goals first | (next same => subst same; rfl) | cases isMark
  intro rest closed
  have scanned : scan mark ([] ++ (text ++ rest)) = .ok (kind, [mark].length) := by
    simp only [scan, isMark, List.length_singleton]
  have one : lex file ([mark] ++ (text ++ rest)) pos = _ := lex_scan solid scanned
  rw [List.singleton_append] at one
  rw [List.cons_append, one, lexes rest closed, ← Lexed.behind_append, List.singleton_append,
    show mark :: text = [mark] ++ text from rfl, Cursor.advance_append]

end Lexes

end DocSync.Lexer
