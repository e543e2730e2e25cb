import DocSync.Proofs.Grammar.Machine
import DocSync.Proofs.Grammar.Scanning

/-!
The grammar of documents, without tokens and without a machine: which texts are values, pairs and runs of
items, and what they are read as where they stand. The parser reads just the texts of this grammar, and
reads them as what the grammar derives.
-/

namespace DocSync

open Lexer (Blanks Closed Cursor Lexes Spelling Written)

/-- A punctuation mark with nothing but blanks around it. -/
def Gap (mark : Char) (gap : List Char) : Prop :=
  ∃ before after, gap = before ++ mark :: after ∧ Blanks before ∧ Blanks after

/-- The bracket that opens a container. -/
def openMark (isObject : Bool) : Char := if isObject then '{' else '['

/-- The bracket that closes a container. -/
def closeMark (isObject : Bool) : Char := if isObject then '}' else ']'

/-- The span of a text that starts at a position: from its first character to behind its last. -/
def extent (file : Json) (pos : Cursor) (text : List Char) : Location where
  line := pos.line
  col := pos.col
  start := pos.offset
  stop := (pos.advance text).offset
  endLine := some (pos.advance text).line
  endCol := some (pos.advance text).col
  file := file

/-- The grammar of documents: what a text that starts at a position is read as. -/
inductive Phrase (file : Json) : Cursor → List Char → Reading → Prop
  | scalar {pos : Cursor} {kind : TokenKind} {text : List Char} : kind.isScalar = true →
    Spelling kind text →
      Phrase file pos text (.value (.token ⟨kind, String.ofList text, extent file pos text⟩))
  | container {pos : Cursor} {isObject : Bool} {inner closing text : List Char}
    {latest : List ParseTree} :
    Phrase file (pos.advance [openMark isObject]) inner (.items isObject latest) → Blanks closing →
      text = openMark isObject :: (inner ++ (closing ++ [closeMark isObject])) →
      Phrase file pos text
        (.value (.rule (ruleOf isObject) latest.reverse (extent file pos text)))
  | element {pos : Cursor} {text : List Char} {tree : ParseTree} :
    Phrase file pos text (.value tree) → Phrase file pos text (.item false tree)
  | member {pos : Cursor} {key gap value text : List Char} {tree : ParseTree} :
    Spelling .string key → Gap ':' gap → Phrase file (pos.advance (key ++ gap)) value (.value tree) →
      text = key ++ (gap ++ value) →
      Phrase file pos text (.item true (.rule .pair
        [.token ⟨.string, String.ofList key, extent file pos key⟩, tree] (extent file pos text)))
  | none (pos : Cursor) (isObject : Bool) : Phrase file pos [] (.items isObject [])
  | first {pos : Cursor} {isObject : Bool} {blank text : List Char} {tree : ParseTree} :
    Blanks blank → Phrase file (pos.advance blank) text (.item isObject tree) →
      Phrase file pos (blank ++ text) (.items isObject [tree])
  | more {pos : Cursor} {isObject : Bool} {before gap text : List Char} {tree latest : ParseTree}
    {earlier : List ParseTree} :
    Phrase file pos before (.items isObject (latest :: earlier)) → Gap ',' gap →
      Phrase file (pos.advance (before ++ gap)) text (.item isObject tree) →
      Phrase file pos (before ++ (gap ++ text)) (.items isObject (tree :: latest :: earlier))

/-- The grammar of a whole text: one value, and blanks around it. -/
def Document (file : Json) (text : String) (tree : ParseTree) : Prop :=
  ∃ leading body trailing, text.toList = leading ++ (body ++ trailing) ∧ Blanks leading ∧
    Blanks trailing ∧ Phrase file (Cursor.advance {} leading) body (.value tree)

/-! ### Spans -/

section Spans

variable {file : Json} {pos : Cursor} {text rest : List Char} {tree : ParseTree}

theorem Lexer.Cursor.advance_mark (pos : Cursor) (before : List Char) (mark : Char)
    (after : List Char) :
    pos.advance (before ++ mark :: after) = ((pos.advance before).advance [mark]).advance after := by
  rw [advance_append]
  rfl

/-- No line is the zeroth. -/
theorem Lexer.Cursor.line_advance_pos (line : 0 < pos.line) (run : List Char) :
    0 < (pos.advance run).line := by
  induction run generalizing pos with
  | nil => exact line
  | cons c run ih =>
    have one : 0 < (pos.step c).line := by
      unfold step
      split
      · exact Nat.succ_pos _
      · exact line
    exact ih one

/-- Behind a character no column is the zeroth. -/
theorem Lexer.Cursor.col_advance_pos (pos : Cursor) (nonempty : text ≠ []) :
    0 < (pos.advance text).col := by
  obtain ⟨front, c, rfl⟩ := (List.eq_nil_or_concat' text).resolve_left nonempty
  rw [advance_append]
  change 0 < ((pos.advance front).step c).col
  unfold step
  split <;> exact Nat.succ_pos _

/-- A span that ends at a position that is not the start of the text does end there. -/
theorem orElse_of_pos {n : Nat} (pos : 0 < n) (fallback : Int) :
    Location.orElse (n : Int) fallback = n := by
  rw [Location.orElse, if_neg (by omega)]

/-- A span that is drawn to the last text of a whole is the span of the whole. -/
theorem extent_spanTo {start : Cursor} {last whole : List Char} (line : 0 < start.line)
    (nonempty : last ≠ []) (ends : start.advance last = pos.advance whole) (front : List Char) :
    (extent file pos front).spanTo (extent file start last) = extent file pos whole := by
  have offset : 0 < (start.advance last).offset := by
    have := List.length_pos_iff.2 nonempty
    rw [Lexer.Cursor.offset_advance]
    omega
  have down := Lexer.Cursor.line_advance_pos line last
  have across := start.col_advance_pos nonempty
  rw [ends] at offset down across
  simp only [extent, Location.spanTo, Option.getD_some, ends, orElse_of_pos offset, orElse_of_pos down,
    orElse_of_pos across]

/-- A value's span is that of its text. -/
theorem Phrase.span (phrase : Phrase file pos text (.value tree)) :
    tree.span = extent file pos text ∧ text ≠ [] := by
  cases phrase with
  | scalar _ spelling =>
    obtain ⟨c, tail, rfl, -⟩ := Lexer.lexeme_of_spelling spelling
    exact ⟨rfl, List.cons_ne_nil _ _⟩
  | container _ _ text => exact ⟨rfl, text ▸ List.cons_ne_nil _ _⟩

/-- A container's span is drawn from bracket to bracket. -/
theorem extent_brackets (line : 0 < pos.line) (first last : Char) (inner closing : List Char) :
    (extent file pos [first]).spanTo
        (extent file (((pos.advance [first]).advance inner).advance closing) [last]) =
      extent file pos (first :: (inner ++ (closing ++ [last]))) := by
  refine extent_spanTo ?_ (List.cons_ne_nil _ _) ?_ _
  · exact Lexer.Cursor.line_advance_pos
      (Lexer.Cursor.line_advance_pos (Lexer.Cursor.line_advance_pos line _) _) _
  · change _ = (pos.advance [first]).advance (inner ++ (closing ++ [last]))
    simp only [Lexer.Cursor.advance_append]

/-- A pair's span is drawn from its key to its value. -/
theorem Phrase.extent_pair {key gap value : List Char}
    (phrase : Phrase file (pos.advance (key ++ gap)) value (.value tree)) (line : 0 < pos.line) :
    (extent file pos key).spanTo tree.span = extent file pos (key ++ (gap ++ value)) := by
  obtain ⟨span, nonempty⟩ := phrase.span
  rw [span]
  refine extent_spanTo (Lexer.Cursor.line_advance_pos line _) nonempty ?_ key
  rw [← List.append_assoc, Lexer.Cursor.advance_append pos (key ++ gap)]

end Spans

/-! ### What the grammar derives is parsed -/

theorem mark?_openerOf (isObject : Bool) : (openerOf isObject).mark? = some (openMark isObject) := by
  cases isObject <;> rfl

theorem mark?_closerOf (isObject : Bool) : (closerOf isObject).mark? = some (closeMark isObject) := by
  cases isObject <;> rfl

section Parsing

variable {file : Json} {pos : Cursor} {text cs : List Char} {reading : Reading} {ts : List Token}

/-- A gap ends whatever token stands before it. -/
theorem Gap.closed {mark : Char} {gap : List Char} (isGap : Gap mark gap)
    (ends : mark = ',' ∨ mark = ':' ∨ mark = ']' ∨ mark = '\x7d') (rest : List Char) :
    Closed (gap ++ rest) := by
  obtain ⟨b, a, rfl, blanks, _⟩ := isGap
  rw [List.append_assoc]
  exact .of_blanks blanks (Lexer.closed_mark ends)

/-- A mark and the blanks around it are the token of the mark. -/
theorem Gap.lexes {kind : TokenKind} {mark : Char} {gap : List Char} (isGap : Gap mark gap)
    (isMark : kind.mark? = some mark) (file : Json) (pos : Cursor) :
    ∃ t : Token, t.kind = kind ∧ ∀ {rest : List Char} {ts : List Token},
      Lexes file (pos.advance gap) rest ts → Lexes file pos (gap ++ rest) (t :: ts) := by
  obtain ⟨before, after, rfl, blanks, blanks'⟩ := isGap
  refine ⟨Lexer.tokenAt file kind [mark] (pos.advance before) ((pos.advance before).advance [mark]), rfl,
    fun {rest ts} behind => ?_⟩
  have passed : Lexes file ((pos.advance before).advance [mark]) (after ++ rest) ts := by
    refine .after_blanks blanks' ?_
    rwa [← pos.advance_mark]
  rw [List.append_assoc]
  exact .after_blanks blanks (.after_mark (Lexer.punctuation?_eq_some.2 isMark) passed)

/-- A phrase is read as tokens that the grammar of tokens derives the same from. -/
theorem Phrase.lexes (phrase : Phrase file pos text reading) (line : 0 < pos.line) :
    ∃ ts, Lexes file pos text ts ∧ Derives ts reading := by
  -- Each phrase is lexed from where it starts, and two that are adjacent have a mark between them.
  induction phrase with
  | scalar isScalar spelling =>
    exact ⟨_, .lexeme (Lexer.lexeme_of_spelling spelling), .scalar isScalar⟩
  | @container pos isObject inner closing text latest _ blanks shape ih =>
    have inside := Lexer.Cursor.line_advance_pos line [openMark isObject]
    obtain ⟨ts, lexes, derives⟩ := ih inside
    have ends : ∀ rest, Closed rest → Closed (closing ++ [closeMark isObject] ++ rest) := fun rest _ => by
      rw [List.append_assoc]
      refine Closed.of_blanks blanks (Lexer.closed_mark ?_)
      cases isObject
      · exact .inr (.inr (.inl rfl))
      · exact .inr (.inr (.inr rfl))
    refine ⟨Lexer.tokenAt file (openerOf isObject) [openMark isObject] pos
      (pos.advance [openMark isObject]) :: (ts ++ [Lexer.tokenAt file (closerOf isObject)
        [closeMark isObject] (((pos.advance [openMark isObject]).advance inner).advance closing)
        ((((pos.advance [openMark isObject]).advance inner).advance closing).advance
          [closeMark isObject])]), ?_, ?_⟩
    · rw [shape]
      refine .after_mark (Lexer.punctuation?_eq_some.2 (mark?_openerOf isObject)) (lexes.append ?_ ends)
      exact .after_blanks blanks
        (.after_mark (Lexer.punctuation?_eq_some.2 (mark?_closerOf isObject)) .nil)
    · rw [shape, ← extent_brackets line]
      exact .container rfl rfl derives
  | element _ ih =>
    obtain ⟨ts, lexes, derives⟩ := ih line
    exact ⟨ts, lexes, .element derives⟩
  | @member pos key gap value text tree spelling isGap phrase shape ih =>
    have later := Lexer.Cursor.line_advance_pos line (key ++ gap)
    obtain ⟨ts, lexes, derives⟩ := ih later
    rw [Lexer.Cursor.advance_append] at lexes
    obtain ⟨colon, isColon, parted⟩ :=
      isGap.lexes (show TokenKind.colon.mark? = some ':' from rfl) file (pos.advance key)
    refine ⟨Lexer.tokenAt file .string key pos (pos.advance key) :: colon :: ts, ?_, ?_⟩
    · rw [shape]
      exact (Lexes.lexeme (Lexer.lexeme_of_spelling spelling)).append (parted lexes) fun rest _ =>
        List.append_assoc gap value rest ▸ isGap.closed (.inr (.inl rfl)) _
    · rw [shape, ← phrase.extent_pair line]
      exact .member rfl isColon derives
  | none pos isObject => exact ⟨[], .nil, .none isObject⟩
  | first blanks _ ih =>
    obtain ⟨ts, lexes, derives⟩ := ih (Lexer.Cursor.line_advance_pos line _)
    exact ⟨ts, .after_blanks blanks lexes, .first derives⟩
  | @more pos isObject before gap text tree latest earlier _ isGap _ ih ih' =>
    obtain ⟨ts, lexes, derives⟩ := ih line
    obtain ⟨ts', lexes', derives'⟩ := ih' (Lexer.Cursor.line_advance_pos line _)
    rw [Lexer.Cursor.advance_append] at lexes'
    obtain ⟨comma, isComma, parted⟩ :=
      isGap.lexes (show TokenKind.comma.mark? = some ',' from rfl) file (pos.advance before)
    refine ⟨ts ++ comma :: ts', ?_, .more derives isComma derives'⟩
    exact lexes.append (parted lexes') fun rest _ =>
      List.append_assoc gap text rest ▸ isGap.closed (.inl rfl) _

/-- A document is parsed as what the grammar reads it as. -/
theorem Document.parse {text : String} {tree : ParseTree} (document : Document file text tree) :
    Parser.parse text file = .ok tree := by
  obtain ⟨leading, body, trailing, split, blanks, blanks', phrase⟩ := document
  have line : 0 < (Cursor.advance {} leading).line :=
    Lexer.Cursor.line_advance_pos Nat.zero_lt_one leading
  obtain ⟨ts, lexes, derives⟩ := phrase.lexes line
  have whole : Lexes file {} (leading ++ body) ts := .after_blanks blanks lexes
  have closed : Closed trailing := by
    have closed := Closed.of_blanks blanks' Lexer.closed_nil
    rwa [List.append_nil] at closed
  have tokens := whole trailing closed
  have ended : Lexer.lex file trailing (Cursor.advance {} (leading ++ body)) = _ :=
    (List.append_nil trailing ▸ Lexer.lex_blanks blanks').trans Lexer.lex_nil
  rw [List.append_assoc, ← split, ended] at tokens
  rw [Lexer.lex] at tokens
  simp only [Parser.parse, Lexer.tokenize, tokens]
  exact Parser.treeOf_of_derives derives rfl

/-! ### What is parsed is derived by the grammar -/

/-- What tokens are read as is found in a text: a phrase, with blanks before it if it is one item or value. -/
def Reading.Found (file : Json) (pos : Cursor) (cs : List Char) : Reading → Prop
  | .items isObject latest => Phrase file pos cs (.items isObject latest)
  | reading => ∃ blank text, cs = blank ++ text ∧ Blanks blank ∧
    Phrase file (pos.advance blank) text reading

/-- What the grammar of tokens derives is found where the tokens are written. -/
theorem found_of_derives (derives : Derives ts reading) (written : Written file pos ts cs)
    (line : 0 < pos.line) : reading.Found file pos cs := by
  -- Each token is found behind some blanks, and the phrase starts where the first one does.
  induction derives generalizing pos cs with
  | @scalar t isScalar =>
    cases written with
    | @cons _ kind _ blank text rest blanks spelling behind =>
      cases behind
      exact ⟨blank, text, by simp, blanks, .scalar isScalar spelling⟩
  | @container first last isObject ts latest opener closer _ ih =>
    obtain ⟨blank, rest, rfl, blanks, isFirst, written⟩ :=
      written.mark (opener ▸ mark?_openerOf isObject)
    obtain ⟨inner, after, rfl, within, behind⟩ := written.append
    obtain ⟨closing, after, rfl, blanks', isLast, done⟩ :=
      behind.mark (closer ▸ mark?_closerOf isObject)
    cases done
    have early := Lexer.Cursor.line_advance_pos line blank
    have inside := Lexer.Cursor.line_advance_pos early [openMark isObject]
    refine ⟨blank, openMark isObject :: (inner ++ (closing ++ [closeMark isObject])), rfl, blanks, ?_⟩
    have drawn : first.span.spanTo last.span = _ :=
      (congrArg₂ Location.spanTo (congrArg Token.span isFirst) (congrArg Token.span isLast)).trans
        (extent_brackets early (openMark isObject) (closeMark isObject) inner closing)
    rw [drawn]
    exact .container (ih within inside) blanks' rfl
  | element _ ih =>
    obtain ⟨blank, text, rfl, blanks, phrase⟩ := ih written line
    exact ⟨blank, text, rfl, blanks, .element phrase⟩
  | @member key colon ts tree isString isColon _ ih =>
    cases written with
    | @cons _ kind _ blank text rest blanks spelling behind =>
      have isKey : kind = .string := isString
      subst isKey
      have early := Lexer.Cursor.line_advance_pos line blank
      obtain ⟨before, rest, rfl, blanks', -, behind⟩ := behind.mark
        (show colon.kind.mark? = some ':' by rw [isColon]; rfl)
      obtain ⟨after, value, rfl, blanks'', phrase⟩ := ih behind <|
        Lexer.Cursor.line_advance_pos (Lexer.Cursor.line_advance_pos
          (Lexer.Cursor.line_advance_pos early text) before) [':']
      rw [← Lexer.Cursor.advance_mark, ← Lexer.Cursor.advance_append] at phrase
      refine ⟨blank, text ++ ((before ++ ':' :: after) ++ value), by simp, blanks, ?_⟩
      have drawn : (extent file (pos.advance blank) text).spanTo tree.span = _ := phrase.extent_pair early
      change Phrase file _ _ (.item true (.rule .pair _
        ((extent file (pos.advance blank) text).spanTo tree.span)))
      rw [drawn]
      exact .member spelling ⟨before, after, rfl, blanks', blanks''⟩ phrase rfl
  | none isObject =>
    cases written
    exact .none pos isObject
  | first _ ih =>
    obtain ⟨blank, text, rfl, blanks, phrase⟩ := ih written line
    exact .first blanks phrase
  | @more isObject comma before ts tree latest earlier _ isComma _ ih ih' =>
    obtain ⟨front, after, rfl, upTo, behind⟩ := written.append
    obtain ⟨space, rest, rfl, spaces, -, behind⟩ := behind.mark
      (show comma.kind.mark? = some ',' by rw [isComma]; rfl)
    obtain ⟨space', text, rfl, spaces', phrase⟩ := ih' behind <|
      Lexer.Cursor.line_advance_pos (Lexer.Cursor.line_advance_pos
        (Lexer.Cursor.line_advance_pos line front) space) [',']
    rw [← Lexer.Cursor.advance_mark, ← Lexer.Cursor.advance_append] at phrase
    have more := Phrase.more (ih upTo line) ⟨space, space', rfl, spaces, spaces'⟩ phrase
    rw [List.append_assoc, List.cons_append] at more
    exact more

/-- What is parsed is a document. -/
theorem document_of_parse {text : String} {tree : ParseTree} (parsed : Parser.parse text file = .ok tree) :
    Document file text tree := by
  obtain ⟨ts, -, front, trailing, -, -, split, blanks, written, derives⟩ := Parser.written_of_parse parsed
  obtain ⟨leading, body, rfl, blanks', phrase⟩ := found_of_derives derives written Nat.zero_lt_one
  exact ⟨leading, body, trailing, by rw [split, List.append_assoc], blanks', blanks, phrase⟩

end Parsing

/-- A text is parsed just if the grammar derives it as a document, and then as the tree that the grammar
reads it as, with the spans of its parts; any other text is refused with a fault. -/
theorem parse_eq_ok_iff (text : String) (file : Json) :
    (∀ tree, Parser.parse text file = .ok tree ↔ Document file text tree) ∧
      ((∃ e, Parser.parse text file = .error e) ↔ ¬ ∃ tree, Document file text tree) := by
  refine ⟨fun tree => ⟨document_of_parse, Document.parse⟩, ?_, fun none => ?_⟩
  · rintro ⟨e, failed⟩ ⟨tree, document⟩
    rw [document.parse] at failed
    cases failed
  · cases parsed : Parser.parse text file with
    | error e => exact ⟨e, rfl⟩
    | ok tree => exact absurd ⟨tree, document_of_parse parsed⟩ none

end DocSync
