import DocSync.Proofs.Grammar.Derivation
import DocSync.Proofs.Grammar.Lexeme

/-!
The tokens of a text, told by the text itself: they stand in it one behind the other, and what lies
between them is blank.
-/

namespace DocSync

namespace Lexer

/-- Nothing but blanks. -/
def Blanks (text : List Char) : Prop := ∀ c ∈ text, isBlank c = true

/-- Tokens stand in a text from a position on, with blanks before each. -/
inductive Written (file : Json) : Cursor → List Token → List Char → Prop
  | nil (pos : Cursor) : Written file pos [] []
  | cons {pos : Cursor} {kind : TokenKind} {ts : List Token} {blank text rest : List Char} :
    Blanks blank → Spelling kind text → Written file ((pos.advance blank).advance text) ts rest →
      Written file pos
        (tokenAt file kind text (pos.advance blank) ((pos.advance blank).advance text) :: ts)
        (blank ++ (text ++ rest))

variable {fuel : Nat} {file : Json} {pos : Cursor} {text cs : List Char} {ts us : List Token}

theorem Cursor.offset_advance (pos : Cursor) (run : List Char) :
    (pos.advance run).offset = pos.offset + run.length := by
  induction run generalizing pos with
  | nil => rfl
  | cons c run ih =>
    have one : (pos.step c).offset = pos.offset + 1 := by
      unfold step
      split <;> rfl
    change ((pos.step c).advance run).offset = _
    rw [ih, one, List.length_cons]
    omega

theorem Cursor.advance_append (pos : Cursor) (x y : List Char) :
    pos.advance (x ++ y) = (pos.advance x).advance y := List.foldl_append

theorem Written.kind_ne_eof (written : Written file pos ts cs) : ∀ t ∈ ts, t.kind ≠ .eof := by
  induction written with
  | nil => exact fun t inside => nomatch inside
  | cons _ spelling _ ih =>
    obtain ⟨_, _, _, _, notEnd, _⟩ := lexeme_of_spelling spelling
    exact List.forall_mem_cons.2 ⟨notEnd, ih⟩

/-- What two runs of tokens are written as falls into what each of them is. -/
theorem Written.append (written : Written file pos (ts ++ us) cs) :
    ∃ front after, cs = front ++ after ∧ Written file pos ts front ∧
      Written file (pos.advance front) us after := by
  induction ts generalizing pos cs with
  | nil => exact ⟨[], cs, rfl, .nil pos, written⟩
  | cons t ts ih =>
    cases written with
    | @cons _ kind _ blank text rest blanks spelling behind =>
      obtain ⟨front, after, rfl, first, second⟩ := ih behind
      refine ⟨blank ++ (text ++ front), after, by simp, .cons blanks spelling first, ?_⟩
      rwa [Cursor.advance_append, Cursor.advance_append]

/-- A mark alone, with blanks before it. -/
theorem Written.mark {t : Token} {mark : Char} (written : Written file pos (t :: ts) cs)
    (isMark : t.kind.mark? = some mark) :
    ∃ blank rest, cs = blank ++ mark :: rest ∧ Blanks blank ∧
      t = tokenAt file t.kind [mark] (pos.advance blank) ((pos.advance blank).advance [mark]) ∧
      Written file ((pos.advance blank).advance [mark]) ts rest := by
  cases written with
  | @cons _ kind _ blank text rest blanks spelling behind =>
    obtain rfl := (lexeme_of_spelling spelling).eq_mark isMark
    exact ⟨blank, rest, rfl, blanks, rfl, behind⟩

/-- Where no fault is found, the tokens are those of the text, with the end marked behind them. -/
theorem written_tokensFrom (clean : (tokensFrom file fuel text pos).error = none)
    (enough : text.length < fuel) :
    ∃ ts front blank, (tokensFrom file fuel text pos).tokens =
        ts ++ [tokenAt file .eof [] (pos.advance text) (pos.advance text)] ∧
      text = front ++ blank ∧ Blanks blank ∧ Written file pos ts front := by
  induction fuel generalizing text pos with
  | zero => omega
  | succ fuel ih =>
    have split := List.takeWhile_append_dropWhile (p := isBlank) (l := text)
    have blanks : Blanks (text.takeWhile isBlank) := fun c inside => List.mem_takeWhile_imp inside
    unfold tokensFrom at clean ⊢
    simp only at clean ⊢
    -- Behind the blanks the text is at its end, or goes on with a piece that was scanned.
    cases front : text.dropWhile isBlank with
    | nil =>
      rw [front, List.append_nil] at split
      exact ⟨[], [], text, by rw [split]; rfl, rfl, split ▸ blanks, .nil _⟩
    | cons c rest =>
      simp only [front] at clean
      cases found : scan c rest with
      | error e => simp [found] at clean
      | ok read =>
        obtain ⟨kind, length⟩ := read
        obtain ⟨tail, after, rfl, rfl, spelling⟩ := spelling_of_scan found
        simp only [found] at clean ⊢
        have piece : (c :: (tail ++ after)).take (c :: tail).length = c :: tail := by
          rw [← List.cons_append, List.take_left]
        have left : (c :: (tail ++ after)).drop (c :: tail).length = after := by
          rw [← List.cons_append, List.drop_left]
        rw [piece, left] at clean ⊢
        rw [front] at split
        have shorter : after.length < fuel := by
          have total := congrArg List.length split
          simp at total
          omega
        obtain ⟨ts, front', blank, tokens, rfl, blanks', written⟩ := ih clean shorter
        refine ⟨_ :: ts, text.takeWhile isBlank ++ (c :: tail ++ front'), blank, ?_,
          split.symm.trans (by simp), blanks', .cons blanks spelling written⟩
        have whole : text.takeWhile isBlank ++ (c :: tail) ++ (front' ++ blank) = text :=
          Eq.trans (by simp) split
        rw [tokens, ← Cursor.advance_append, ← Cursor.advance_append, whole]
        rfl

end Lexer

theorem Derives.kind_ne_eof {ts : List Token} {reading : Reading} (derives : Derives ts reading) :
    ∀ t ∈ ts, t.kind ≠ .eof := by
  -- The grammar asks for a kind wherever it takes a token, and never for the end.
  induction derives with
  | scalar isScalar =>
    rintro t inside
    obtain rfl := List.mem_singleton.1 inside
    intro isEnd
    rw [isEnd] at isScalar
    cases isScalar
  | @container first last isObject ts latest opener closer _ ih =>
    have open_ : first.kind ≠ .eof := by rw [opener]; cases isObject <;> decide
    have close : last.kind ≠ .eof := by rw [closer]; cases isObject <;> decide
    simp only [List.forall_mem_cons, List.forall_mem_append]
    exact ⟨open_, ih, close, by simp⟩
  | element _ ih => exact ih
  | member isString isColon _ ih =>
    simp only [List.forall_mem_cons]
    exact ⟨by rw [isString]; decide, by rw [isColon]; decide, ih⟩
  | none isObject => exact fun t inside => nomatch inside
  | first _ ih => exact ih
  | more _ isComma _ earlier ih =>
    simp only [List.forall_mem_cons, List.forall_mem_append]
    exact ⟨earlier, by rw [isComma]; decide, ih⟩

/-- A text that is parsed is written out of tokens that the grammar derives its tree from. -/
theorem Parser.written_of_parse {text : String} {file : Json} {tree : ParseTree}
    (parsed : parse text file = .ok tree) :
    ∃ ts last front blank, (Lexer.tokenize text file).tokens = ts ++ [last] ∧ last.kind = .eof ∧
      text.toList = front ++ blank ∧ Lexer.Blanks blank ∧ Lexer.Written file {} ts front ∧
      Derives ts (.value tree) := by
  simp only [parse] at parsed
  split at parsed
  · cases parsed
  · next clean =>
    obtain ⟨ts, front, blank, tokens, split, blanks, written⟩ :=
      Lexer.written_tokensFrom clean (Nat.lt_succ_self _)
    obtain ⟨read, rest, whole, derives, ends⟩ := derives_of_treeOf parsed
    -- The marks of the end are all that is behind the tree.
    have keeps : ∀ {ts : List Token}, (∀ t ∈ ts, t.kind ≠ .eof) →
        (ts.filter fun t => t.kind ≠ .eof) = ts := fun solid =>
      List.filter_eq_self.2 fun t inside => by simpa using solid t inside
    have drops : ∀ {ts : List Token}, (∀ t ∈ ts, t.kind = .eof) →
        (ts.filter fun t => t.kind ≠ .eof) = [] := fun void =>
      List.filter_eq_nil_iff.2 fun t inside => by simp [void t inside]
    have same : ts = read := by
      rw [Lexer.tokenize, tokens] at whole
      have kept := congrArg (List.filter fun t => t.kind ≠ .eof) whole
      rw [List.filter_append, List.filter_append, keeps written.kind_ne_eof,
        keeps derives.kind_ne_eof, drops ends, drops (by simp [Lexer.tokenAt]), List.append_nil,
        List.append_nil] at kept
      exact kept
    exact ⟨ts, _, front, blank, tokens, rfl, split, blanks, written, same ▸ derives⟩

end DocSync
