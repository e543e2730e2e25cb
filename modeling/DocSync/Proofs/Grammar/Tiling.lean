import DocSync.Proofs.Grammar.Tokens

/-!
The tokens of a text as tiles of it. Each is what the text has at its place, nothing but blanks lies between
them, and the lines and columns that they carry are those that can be counted in the text.
-/

namespace DocSync

namespace Text

/-- The line of a position: one more than there are line feeds before it. -/
def lineAt (text : List Char) (n : Nat) : Nat := 1 + (text.take n).count '\n'

/-- The column of a position: one more than there are characters between it and the last line feed before
it, or the start of the text. -/
def columnAt (text : List Char) (n : Nat) : Nat :=
  1 + ((text.take n).reverse.takeWhile (· != '\n')).length

end Text

/-- A token stands in a text from a position up to another one. -/
structure Token.StandsAt (file : Json) (text : List Char) (t : Token) (lo hi : Nat) : Prop where
  start : t.span.start = lo
  stop : t.span.stop = hi
  ordered : lo ≤ hi
  inside : hi ≤ text.length
  lexeme : t.lexeme = String.ofList (t.span.slice text)
  line : t.span.line = Text.lineAt text lo
  col : t.span.col = Text.columnAt text lo
  endLine : t.span.endLine = some (Text.lineAt text hi : Int)
  endCol : t.span.endCol = some (Text.columnAt text hi : Int)
  file : t.span.file = file

/-- A stretch of a text without anything but spaces, tabs, carriage returns and line feeds. -/
def Text.BlankFrom (text : List Char) (lo hi : Int) : Prop :=
  ∀ c ∈ Text.slice text lo hi, c = ' ' ∨ c = '\t' ∨ c = '\r' ∨ c = '\n'

/-- Tokens tile a text from a position up to its end. -/
structure Tiled (file : Json) (text : List Char) (n : Nat) (tokens : List Token) : Prop where
  stands : ∀ t ∈ tokens, ∃ lo hi, t.StandsAt file text lo hi
  /-- A token that does not mark the end takes up some text. -/
  solid : ∀ t ∈ tokens, t.kind ≠ .eof → t.span.start < t.span.stop
  behind : ∀ t ∈ tokens, (n : Int) ≤ t.span.start
  ordered : tokens.Pairwise fun a b => a.span.stop ≤ b.span.start
  leading : ∀ t ∈ tokens.head?, Text.BlankFrom text n t.span.start
  between : tokens.IsChain fun a b => Text.BlankFrom text a.span.stop b.span.start
  /-- The last token, and no other, marks the end, and stands there. -/
  ended : ∃ ts last, tokens = ts ++ [last] ∧ (∀ t ∈ ts, t.kind ≠ .eof) ∧ last.kind = .eof ∧
    last.StandsAt file text text.length text.length

variable {file : Json} {text : List Char} {n : Nat}

/-- A token with blanks before it is one more tile. -/
theorem Tiled.cons {t : Token} {tokens : List Token} {lo hi : Nat}
    (stands : t.StandsAt file text lo hi) (solid : lo < hi) (notEnd : t.kind ≠ .eof)
    (after : n ≤ lo) (blank : Text.BlankFrom text n lo) (tiled : Tiled file text hi tokens) :
    Tiled file text n (t :: tokens) := by
  -- The others begin where this one stops, so it has to be compared with the first of them only.
  have start := stands.start
  have stop := stands.stop
  refine ⟨?_, ?_, ?_, ?_, ?_, ?_, ?_⟩
  · exact List.forall_mem_cons.2 ⟨⟨lo, hi, stands⟩, tiled.stands⟩
  · exact List.forall_mem_cons.2 ⟨fun _ => by omega, tiled.solid⟩
  · refine List.forall_mem_cons.2 ⟨by omega, fun u member => ?_⟩
    have := tiled.behind u member
    omega
  · exact List.pairwise_cons.2 ⟨fun u member => stop ▸ tiled.behind u member, tiled.ordered⟩
  · rintro _ ⟨⟩
    rwa [start]
  · exact List.isChain_cons.2 ⟨fun u first => stop ▸ tiled.leading u first, tiled.between⟩
  · obtain ⟨ts, last, rfl, inner, isEnd, stands⟩ := tiled.ended
    exact ⟨t :: ts, last, rfl, List.forall_mem_cons.2 ⟨notEnd, inner⟩, isEnd, stands⟩

namespace Lexer

variable {pos : Cursor} {x y cs blank : List Char} {kind : TokenKind} {ts : List Token}

/-! ### Lines and columns -/

theorem Cursor.line_advance (pos : Cursor) (run : List Char) :
    (pos.advance run).line = pos.line + run.count '\n' := by
  induction run generalizing pos with
  | nil => rfl
  | cons c run ih =>
    have later := ih (pos.step c)
    change ((pos.step c).advance run).line = _
    rw [later]
    -- A line feed is counted, and any other character is not.
    by_cases feed : c = '\n'
    · simp [step, feed]
      omega
    · simp [step, feed]

theorem Cursor.col_advance (run : List Char) :
    (Cursor.advance {} run).col = 1 + (run.reverse.takeWhile (· != '\n')).length := by
  -- The last character decides: after a line feed the count starts anew.
  induction run using List.reverseRecOn with
  | nil => rfl
  | append_singleton run c ih =>
    have last : Cursor.advance {} (run ++ [c]) = (Cursor.advance {} run).step c :=
      Cursor.advance_append _ _ _
    rw [last, List.reverse_append]
    by_cases feed : c = '\n'
    · simp [step, feed]
    · simp [step, feed, ih]
      omega

/-- What a cursor counts on its way through the front of a text is told by the text. -/
theorem Cursor.advance_front (x y : List Char) :
    (Cursor.advance {} x).offset = x.length ∧
      (Cursor.advance {} x).line = Text.lineAt (x ++ y) x.length ∧
      (Cursor.advance {} x).col = Text.columnAt (x ++ y) x.length := by
  rw [Cursor.offset_advance, Cursor.line_advance, Cursor.col_advance, Text.lineAt, Text.columnAt,
    List.take_left]
  exact ⟨Nat.zero_add _, rfl, rfl⟩

/-! ### Tiles -/

/-- A token stands where the cursor met it. -/
theorem standsAt_tokenAt (file : Json) (kind : TokenKind) (x y rest : List Char) :
    (tokenAt file kind y (Cursor.advance {} x) (Cursor.advance {} (x ++ y))).StandsAt file
      (x ++ (y ++ rest)) x.length (x ++ y).length := by
  -- The cursor has counted what lies before the token, and then the token itself.
  obtain ⟨first, line, col⟩ := Cursor.advance_front x (y ++ rest)
  obtain ⟨last, endLine, endCol⟩ := Cursor.advance_front (x ++ y) rest
  rw [List.append_assoc] at endLine endCol
  have ordered : x.length ≤ (x ++ y).length := by simp
  have inside : (x ++ y).length ≤ (x ++ (y ++ rest)).length := by simp
  refine ⟨congrArg Int.ofNat first, congrArg Int.ofNat last, ordered, inside, ?_,
    congrArg Int.ofNat line, congrArg Int.ofNat col, congrArg (some ∘ Int.ofNat) endLine,
    congrArg (some ∘ Int.ofNat) endCol, rfl⟩
  simp only [tokenAt, Location.slice, first, last]
  rw [Text.slice_ofNat ordered inside, List.drop_left, List.length_append, Nat.add_sub_cancel_left,
    List.take_left]

theorem blankFrom_of_blanks (blanks : Blanks blank) (x y : List Char) :
    Text.BlankFrom (x ++ (blank ++ y)) x.length (x ++ blank).length := by
  intro c member
  rw [Text.slice_ofNat (by simp) (by simp), List.drop_left, List.length_append,
    Nat.add_sub_cancel_left, List.take_left] at member
  simpa [isBlank, or_assoc] using blanks c member

/-- The mark of the end with blanks before it is the last tile. -/
theorem tiled_end (blanks : Blanks blank) (x : List Char) :
    Tiled file (x ++ blank) x.length
      [tokenAt file .eof [] (Cursor.advance {} (x ++ blank)) (Cursor.advance {} (x ++ blank))] := by
  -- The mark takes up no text: it starts and it stops where the text ends.
  have stands := standsAt_tokenAt file .eof (x ++ blank) [] []
  rw [List.append_nil, List.append_nil] at stands
  have start := stands.start
  have blankEnd := blankFrom_of_blanks blanks x []
  rw [List.append_nil] at blankEnd
  refine ⟨?_, ?_, ?_, List.pairwise_singleton _ _, ?_, .singleton _, ?_⟩
  · exact List.forall_mem_singleton.2 ⟨_, _, stands⟩
  · exact List.forall_mem_singleton.2 fun notEnd => absurd rfl notEnd
  · refine List.forall_mem_singleton.2 ?_
    rw [start, List.length_append]
    omega
  · rintro _ ⟨⟩
    rwa [start]
  · exact ⟨[], _, rfl, List.forall_mem_nil _, rfl, stands⟩

/-- Tokens that are written in a text tile it, with the mark of the end behind them. -/
theorem tiled_of_written (written : Written file (Cursor.advance {} x) ts cs) (blanks : Blanks blank) :
    Tiled file (x ++ (cs ++ blank)) x.length
      (ts ++ [tokenAt file .eof [] (Cursor.advance {} (x ++ (cs ++ blank)))
        (Cursor.advance {} (x ++ (cs ++ blank)))]) := by
  generalize here : Cursor.advance {} x = pos at written
  -- Each token moves the front of the text behind itself.
  induction written generalizing x with
  | nil => exact tiled_end blanks x
  | @cons pos kind ts space lexeme rest spaces spelling _ ih =>
    subst here
    obtain ⟨c, tail, rfl, _, notEnd, _⟩ := lexeme_of_spelling spelling
    have tiled := ih (x := x ++ space ++ (c :: tail)) (by rw [Cursor.advance_append,
      Cursor.advance_append])
    have whole : x ++ (space ++ (c :: tail ++ rest) ++ blank) =
        x ++ space ++ (c :: tail ++ (rest ++ blank)) := by simp
    -- The token stands behind its blanks, and what is written after it goes on where it stops.
    have stands := standsAt_tokenAt file kind (x ++ space) (c :: tail) (rest ++ blank)
    have between := blankFrom_of_blanks spaces x (c :: tail ++ (rest ++ blank))
    rw [List.append_assoc _ (c :: tail)] at tiled
    rw [← List.append_assoc x space] at between
    rw [whole, ← Cursor.advance_append, ← Cursor.advance_append]
    exact tiled.cons stands (by simp) notEnd (by simp) between

/-- The tokens of a text in which the lexer finds no fault tile it. -/
theorem tiled_of_tokenize {text : String} (clean : (tokenize text file).error = none) :
    Tiled file text.toList 0 (tokenize text file).tokens := by
  -- From the start of the text, all tokens are written one behind the other.
  obtain ⟨ts, front, blank, tokens, split, blanks, written⟩ :=
    written_tokensFrom clean (Nat.lt_succ_self _)
  have tiled := tiled_of_written (x := []) written blanks
  rw [List.nil_append, ← split] at tiled
  rw [tokenize, tokens]
  exact tiled

theorem tiled_of_tokenize_list :
    (tokenize "[1,\n 2]" .null).error = none ∧
      Tiled .null "[1,\n 2]".toList 0 (tokenize "[1,\n 2]" .null).tokens :=
  ⟨by rfl, tiled_of_tokenize (by rfl)⟩

end Lexer

end DocSync
