import DocSync.Proofs.Grammar.Machine
import DocSync.Proofs.Grammar.Tiling

/-!
Where a run of tokens goes wrong. Whatever the machine waits for, some tokens still bring it to its end;
so a token that it refuses is the first one behind which no sentence is left.
-/

namespace DocSync

/-- The tokens of a value, with the end marked behind them. -/
def Sentence (ts : List Token) : Prop :=
  ∃ read last tree, ts = read ++ [last] ∧ Derives read (.value tree) ∧ last.kind = .eof

/-- Tokens that can be gone on from to a sentence. -/
def Viable (ts : List Token) : Prop := ∃ rest, Sentence (ts ++ rest)

theorem Viable.of_append {ts us : List Token} (viable : Viable (ts ++ us)) : Viable ts := by
  obtain ⟨rest, sentence⟩ := viable
  exact ⟨us ++ rest, List.append_assoc ts us rest ▸ sentence⟩

/-- The first token of a run behind which no sentence is left, and the tokens before it. -/
structure FirstWrong (tokens before : List Token) (t : Token) : Prop where
  split : ∃ after, tokens = before ++ t :: after
  viable : ∀ front, front <+: before → Viable front
  broken : ¬ Viable (before ++ [t])

/-- A token of a kind, without a text. -/
def Token.bare (kind : TokenKind) : Token := ⟨kind, "", .unknown⟩

namespace Parser

variable {state next : State} {ts : List Token} {t : Token} {tree : ParseTree} {outer : List Open}

/-! ### Bringing the machine to its end -/

/-- The brackets that close the open containers. -/
def closers (outer : List Open) : List Token := outer.map fun o => Token.bare o.closer

/-- Some tokens that bring the machine to its end. -/
def State.completion : State → List Token
  | .value outer => Token.bare .null :: closers outer
  | .first top outer | .after top outer => closers (top :: outer)
  | .key top outer =>
    Token.bare .string :: Token.bare .colon :: Token.bare .null :: closers (top :: outer)
  | .colon top outer => Token.bare .colon :: Token.bare .null :: closers (top :: outer)
  | .done _ => []

theorem Open.closer_ne_eof (o : Open) : o.closer ≠ .eof := by
  unfold closer
  split <;> decide

theorem Open.closer_add (o : Open) (value : ParseTree) : (o.add value).closer = o.closer := by
  unfold add
  split <;> rfl

theorem State.kind_ne_eof_of_mem_completion (state : State) :
    ∀ t ∈ state.completion, t.kind ≠ .eof := by
  have closing : ∀ outer, ∀ t ∈ closers outer, t.kind ≠ .eof := by
    intro outer t member
    obtain ⟨o, _, rfl⟩ := List.mem_map.1 member
    exact o.closer_ne_eof
  cases state with
  | value outer => exact List.forall_mem_cons.2 ⟨by decide, closing outer⟩
  | first top outer => exact closing (top :: outer)
  | key top outer =>
    simp only [completion, List.forall_mem_cons]
    exact ⟨by decide, by decide, by decide, closing (top :: outer)⟩
  | colon top outer =>
    simp only [completion, List.forall_mem_cons]
    exact ⟨by decide, by decide, closing (top :: outer)⟩
  | after top outer => exact closing (top :: outer)
  | done tree => exact List.forall_mem_nil _

/-- The closing brackets lead out of all containers behind a finished value. -/
theorem run_closers (tree : ParseTree) (outer : List Open) :
    ∃ whole, run (finish tree outer) (closers outer) = .ok (.done whole) := by
  -- A closing bracket makes the innermost container a finished value of the next one.
  induction outer generalizing tree with
  | nil => exact ⟨tree, rfl⟩
  | cons o outer ih =>
    have closes : (Token.bare o.closer).kind = (o.add tree).closer := (o.closer_add tree).symm
    obtain ⟨whole, runs⟩ := ih ((o.add tree).close (Token.bare o.closer))
    exact ⟨whole, (run_closing closes).trans runs⟩

/-- A value and the closing brackets lead to the end. -/
theorem run_null (outer : List Open) :
    ∃ whole, run (.value outer) (Token.bare .null :: closers outer) = .ok (.done whole) := by
  have steps : step (.value outer) (Token.bare .null) =
      .ok (finish (.token (Token.bare .null)) outer) := rfl
  rw [run_cons steps]
  exact run_closers _ outer

theorem run_completion (state : State) :
    ∃ whole, run state state.completion = .ok (.done whole) := by
  -- Where a value is due a null is one, and where a key is due any string is one.
  cases state with
  | value outer => exact run_null outer
  | first top outer =>
    have steps : step (.first top outer) (Token.bare top.closer) =
        .ok (finish (top.close (Token.bare top.closer)) outer) := if_pos rfl
    exact (run_cons steps).symm ▸ run_closers _ outer
  | key top outer => exact run_null ({ top with pending := some (Token.bare .string) } :: outer)
  | colon top outer => exact run_null (top :: outer)
  | after top outer =>
    have closes : (Token.bare top.closer).kind = top.closer := rfl
    exact (run_closing closes).symm ▸ run_closers _ outer
  | done tree => exact ⟨tree, rfl⟩

/-! ### What can be gone on from -/

theorem run_append (state : State) (ts us : List Token) :
    run state (ts ++ us) = run state ts >>= fun next => run next us := by
  induction ts generalizing state with
  | nil => rfl
  | cons t ts ih =>
    rw [List.cons_append, run, run]
    cases step state t with
    | error wanted => rfl
    | ok next => exact ih next

/-- What the machine takes can be gone on from. -/
theorem viable_of_run (solid : ∀ t ∈ ts, t.kind ≠ .eof) (runs : run (.value []) ts = .ok state) :
    Viable ts := by
  -- Some more tokens bring the machine to its end, and what it has read by then makes up a tree.
  obtain ⟨tree, ends⟩ := run_completion state
  have whole : run (.value []) (ts ++ state.completion) = .ok (.done tree) := by
    rw [run_append, runs]
    exact ends
  have consumed := consumed_run (.value .top) whole
  have solid' : ∀ t ∈ ts ++ state.completion, t.kind ≠ .eof :=
    List.forall_mem_append.2 ⟨solid, state.kind_ne_eof_of_mem_completion⟩
  rw [List.nil_append] at consumed
  generalize all : ts ++ state.completion = read at consumed solid'
  cases consumed with
  | @done read rest _ derives ends =>
    -- No token marks the end, so all of them belong to the tree.
    cases rest with
    | cons t rest => exact absurd (ends t List.mem_cons_self) (solid' t (by simp))
    | nil =>
      rw [List.append_nil] at all
      refine ⟨state.completion ++ [Token.bare .eof], read, Token.bare .eof, tree, ?_, derives, rfl⟩
      rw [← List.append_assoc, all]

/-- What can be gone on from is taken by the machine. -/
theorem run_of_viable (viable : Viable ts) : ∃ state, run (.value []) ts = .ok state := by
  -- The machine takes the whole sentence, and so it takes the front of it.
  obtain ⟨rest, read, last, tree, whole, derives, isEnd⟩ := viable
  have runs := (read_of_derives derives).2 [] [last]
  have ended : step (.done tree) last = .ok (.done tree) := if_pos isEnd
  rw [← whole, run_append, finish, run_cons ended] at runs
  cases taken : run (.value []) ts with
  | ok state => exact ⟨state, rfl⟩
  | error refused => rw [taken] at runs; cases runs

/-! ### Where the machine stops -/

/-- A run is refused with the token that its machine stops at. -/
theorem exists_of_run_error {wanted : Wanted} (stops : run state ts = .error (wanted, t)) :
    ∃ before after reached, ts = before ++ t :: after ∧ run state before = .ok reached ∧
      step reached t = .error wanted := by
  -- The first step that fails is the one that the run fails with.
  induction ts generalizing state with
  | nil => cases stops
  | cons u rest ih =>
    rw [run] at stops
    cases steps : step state u with
    | error wanted' =>
      rw [steps] at stops
      cases stops
      exact ⟨[], rest, state, rfl, rfl, steps⟩
    | ok next =>
      rw [steps] at stops
      obtain ⟨before, after, reached, rfl, runs, fails⟩ := ih stops
      exact ⟨u :: before, after, reached, rfl, (run_cons steps).trans runs, fails⟩

/-- The end is taken only where nothing is open any more. -/
theorem done_of_step_eof (isEnd : t.kind = .eof) (steps : step state t = .ok next) :
    ∃ tree, next = .done tree := by
  -- Whatever the machine waits for inside of a value, it is not the end.
  cases state with
  | done tree =>
    simp only [step, isEnd, if_true] at steps
    cases steps
    exact ⟨tree, rfl⟩
  | value outer => simp [step, stepValue, isEnd, TokenKind.isScalar] at steps
  | first top outer =>
    cases object : top.isObject <;>
      simp [step, stepKey, stepValue, top.closer_ne_eof.symm, object, isEnd,
        TokenKind.isScalar] at steps
  | key top outer => simp [step, stepKey, isEnd] at steps
  | colon top outer => simp [step, isEnd] at steps
  | after top outer => simp [step, isEnd, top.closer_ne_eof.symm] at steps

/-- A run that takes the mark of the end with its last token is done. -/
theorem done_of_run_eof {last : Token} (isEnd : last.kind = .eof)
    (runs : run state (ts ++ [last]) = .ok next) : ∃ tree, next = .done tree := by
  rw [run_append] at runs
  cases taken : run state ts with
  | error refused => rw [taken] at runs; cases runs
  | ok reached =>
    rw [taken] at runs
    change run reached [last] = .ok next at runs
    rw [run] at runs
    cases steps : step reached last with
    | error wanted => rw [steps] at runs; cases runs
    | ok next =>
      rw [steps] at runs
      cases runs
      exact done_of_step_eof isEnd steps

/-- A text without lexical faults that is not parsed is refused at its first wrong token, and with what
the machine waited for there. -/
theorem firstWrong_of_parse {text : String} {file : Json} {e : ParseError}
    (clean : (Lexer.tokenize text file).error = none) (failed : parse text file = .error e) :
    ∃ before t wanted, FirstWrong (Lexer.tokenize text file).tokens before t ∧
      e = ⟨.expected wanted t.kind t.lexeme, some t.span.line, some t.span.col, file⟩ := by
  obtain ⟨ts, last, tokens, solid, isEnd, _⟩ := (Lexer.tiled_of_tokenize clean).ended
  simp only [parse, clean, treeOf] at failed
  rw [tokens] at failed ⊢
  split at failed
  · cases failed
  · next wanted t stops =>
    cases failed
    obtain ⟨before, after, reached, split, runs, refused⟩ := exists_of_run_error stops
    -- The end is marked by the last token, so none of those before the refused one marks it.
    have solid' : ∀ u ∈ before, u.kind ≠ .eof := by
      intro u member
      have front : before <+: ts := by
        refine List.prefix_of_prefix_length_le ⟨t :: after, split.symm⟩ ⟨[last], rfl⟩ ?_
        have lengths := congrArg List.length split
        simp at lengths
        omega
      exact solid u (front.subset member)
    refine ⟨before, t, wanted, ⟨⟨after, split⟩, ?_, ?_⟩, rfl⟩
    · rintro front ⟨rest, rfl⟩
      exact (viable_of_run solid' runs).of_append
    · -- Could the refused token be gone on from, the machine would have taken it.
      intro viable
      obtain ⟨state, taken⟩ := run_of_viable viable
      rw [run_append, runs] at taken
      simp [run, refused, bind, Except.bind] at taken
  · next state notDone runs =>
    -- The end is marked, so a run that takes all tokens is done.
    obtain ⟨tree, done⟩ := done_of_run_eof isEnd runs
    exact absurd done (notDone tree)

theorem firstWrong_of_parse_list :
    (Lexer.tokenize "[1,]" .null).error = none ∧
      parse "[1,]" .null =
        .error ⟨.expected .value .rbracket "]", some 1, some 4, .null⟩ ∧
      ∃ before t wanted, FirstWrong (Lexer.tokenize "[1,]" .null).tokens before t ∧
        (⟨.expected .value .rbracket "]", some 1, some 4, .null⟩ : ParseError) =
          ⟨.expected wanted t.kind t.lexeme, some t.span.line, some t.span.col, .null⟩ :=
  ⟨by rfl, by rfl, firstWrong_of_parse (by rfl) (by rfl)⟩

end Parser

end DocSync
