import DocSync.Grammar.ParseError
import DocSync.Text.Hex
import DocSync.Text.Letter

/-! From a text to its tokens. -/

namespace DocSync.Lexer

/-- A position in the text: how far in, on which line, in which column. -/
structure Cursor where
  offset : Nat := 0
  line : Nat := 1
  col : Nat := 1
  deriving DecidableEq, Repr, Inhabited

/-- The position after one more character; a line feed starts the next line. -/
def Cursor.step (pos : Cursor) (c : Char) : Cursor :=
  if c = '\n' then ⟨pos.offset + 1, pos.line + 1, 1⟩
  else ⟨pos.offset + 1, pos.line, pos.col + 1⟩

/-- The position after a run of characters. -/
def Cursor.advance (pos : Cursor) (run : List Char) : Cursor := run.foldl Cursor.step pos

/-- The characters that may stand between tokens. -/
def isBlank (c : Char) : Bool := c == ' ' || c == '\t' || c == '\r' || c == '\n'

/-- The decimal digits of a number. -/
def isDigit (c : Char) : Bool := '0' ≤ c && c ≤ '9'

/-- The characters that may follow a backslash. -/
def isEscapable (c : Char) : Bool :=
  c == '"' || c == '\\' || c == '/' || c == 'b' || c == 'f' || c == 'n' || c == 'r' || c == 't' ||
    c == 'u'

/-- The digits of a Unicode escape. -/
def isHex (c : Char) : Bool := (Text.hexValue? c).isSome

/-- The token a punctuation mark is. -/
def punctuation? (c : Char) : Option TokenKind :=
  if c = '{' then some .lbrace
  else if c = '}' then some .rbrace
  else if c = '[' then some .lbracket
  else if c = ']' then some .rbracket
  else if c = ':' then some .colon
  else if c = ',' then some .comma
  else none

/-- The token a word is. -/
def keyword? (word : List Char) : Option TokenKind :=
  if word = ['t', 'r', 'u', 'e'] then some .true
  else if word = ['f', 'a', 'l', 's', 'e'] then some .false
  else if word = ['n', 'u', 'l', 'l'] then some .null
  else none

/-- A fault, and how many characters after the token's start it shows. -/
abbrev Refusal := SyntaxFault × Nat

/--
How many characters a string takes, where `taken` of them have been read and the given ones come
next. A fault shows at the character that caused it, but a string without end at its own start.
-/
def scanString (taken : Nat) : List Char → Except Refusal Nat
  | [] => .error (.unterminated, 0)
  | '"' :: _ => .ok (taken + 1)
  | '\\' :: 'u' :: a :: b :: c :: d :: rest =>
    if isHex a && isHex b && isHex c && isHex d then scanString (taken + 6) rest
    else .error (.badUnicodeEscape, taken)
  | '\\' :: 'u' :: _ => .error (.badUnicodeEscape, taken)
  | '\\' :: c :: rest =>
    if isEscapable c then scanString (taken + 2) rest else .error (.badEscape (some c), taken)
  | ['\\'] => .error (.badEscape none, taken)
  | c :: rest =>
    if c.toNat < 0x20 then .error (.controlChar, taken) else scanString (taken + 1) rest

/-- The length of the run of digits at the front. -/
def digitRun (cs : List Char) : Nat := (cs.takeWhile isDigit).length

/-- How many characters an optional sign takes. -/
def signLength : List Char → Nat
  | '-' :: _ => 1
  | _ => 0

/-- How many characters the whole part of a number takes: a lone zero, or digits that start with
another one. -/
def wholeLength : List Char → Except SyntaxFault Nat
  | '0' :: _ => .ok 1
  | cs => if digitRun cs = 0 then .error .badNumber else .ok (digitRun cs)

/-- How many characters an optional fraction takes. -/
def fractionLength : List Char → Except SyntaxFault Nat
  | '.' :: cs => if digitRun cs = 0 then .error .noFraction else .ok (1 + digitRun cs)
  | _ => .ok 0

/-- How many characters an optional exponent takes. -/
def exponentLength : List Char → Except SyntaxFault Nat
  | c :: cs =>
    if c = 'e' || c = 'E' then
      let sign := match cs with
        | s :: _ => if s = '+' || s = '-' then 1 else 0
        | [] => 0
      let digits := digitRun (cs.drop sign)
      if digits = 0 then .error .noExponent else .ok (1 + sign + digits)
    else .ok 0
  | [] => .ok 0

/-- How many characters a number takes. -/
def scanNumber (cs : List Char) : Except SyntaxFault Nat := do
  let sign := signLength cs
  let whole := sign + (← wholeLength (cs.drop sign))
  let fraction := whole + (← fractionLength (cs.drop whole))
  let exponent ← exponentLength (cs.drop fraction)
  return fraction + exponent

/-- The kind and the length of the token that starts with a character. -/
def scan (c : Char) (rest : List Char) : Except Refusal (TokenKind × Nat) :=
  match punctuation? c with
  | some kind => .ok (kind, 1)
  | none =>
    if c = '"' then (scanString 1 rest).map fun length => (.string, length)
    else if c = '-' || isDigit c then
      match scanNumber (c :: rest) with
      | .ok length => .ok (.number, length)
      -- A malformed number is reported where it starts.
      | .error fault => .error (fault, 0)
    else if Text.isLetter c then
      let word := c :: rest.takeWhile Text.isLetter
      match keyword? word with
      | some kind => .ok (kind, word.length)
      | none => .error (.unknownWord (String.ofList word), 0)
    else .error (.unexpectedChar c, 0)

/-- A token between two positions. -/
def tokenAt (file : Json) (kind : TokenKind) (lexeme : List Char) (first last : Cursor) :
    Token where
  kind := kind
  lexeme := String.ofList lexeme
  span :=
    { line := first.line, col := first.col, start := first.offset, stop := last.offset
      endLine := some last.line, endCol := some last.col, file := file }

/-- The tokens of a text up to the first fault, and that fault if there is one. -/
structure Lexed where
  tokens : List Token
  error : Option ParseError
  deriving DecidableEq, Repr

/-- The tokens from a position on. A token takes a character at least, so `fuel` need not exceed
the number of characters left by more than one. -/
def tokensFrom (file : Json) : Nat → List Char → Cursor → Lexed
  | 0, _, _ => ⟨[], none⟩
  | fuel + 1, text, pos =>
    let first := pos.advance (text.takeWhile isBlank)
    match text.dropWhile isBlank with
    | [] => ⟨[tokenAt file .eof [] first first], none⟩
    | c :: rest =>
      match scan c rest with
      | .error (fault, taken) =>
        let shown := first.advance ((c :: rest).take taken)
        ⟨[], some ⟨fault, some shown.line, some shown.col, file⟩⟩
      | .ok (kind, length) =>
        let lexeme := (c :: rest).take length
        let last := first.advance lexeme
        let later := tokensFrom file fuel ((c :: rest).drop length) last
        ⟨tokenAt file kind lexeme first last :: later.tokens, later.error⟩

/-- The tokens of a text, the last one marking its end. -/
def tokenize (text : String) (file : Json) : Lexed :=
  tokensFrom file (text.toList.length + 1) text.toList {}

end DocSync.Lexer
