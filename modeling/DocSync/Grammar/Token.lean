import DocSync.Location
import DocSync.Text.Quoted

/-! The tokens of a document text. -/

namespace DocSync

/-- What a token is. -/
inductive TokenKind where
  | eof
  | lbrace
  | rbrace
  | lbracket
  | rbracket
  | colon
  | comma
  | string
  | number
  | true
  | false
  | null
  deriving DecidableEq, Repr, Inhabited

namespace TokenKind

/-- The kind's name in listings. -/
def name : TokenKind → String
  | eof => "EOF"
  | lbrace => "LBRACE"
  | rbrace => "RBRACE"
  | lbracket => "LBRACKET"
  | rbracket => "RBRACKET"
  | colon => "COLON"
  | comma => "COMMA"
  | string => "STRING"
  | number => "NUMBER"
  | true => "TRUE"
  | false => "FALSE"
  | null => "NULL"

/-- Every kind of token. -/
def all : List TokenKind :=
  [eof, lbrace, rbrace, lbracket, rbracket, colon, comma, string, number, true, false, null]

/-- The kind of a name. -/
def ofName? (text : String) : Option TokenKind := all.find? (·.name == text)

/-- The kinds that are values by themselves. -/
def isScalar : TokenKind → Bool
  | string | number | true | false | null => .true
  | _ => .false

/-- The phrase for a kind whose tokens are all alike to a reader; the others show their text. -/
def phrase? : TokenKind → Option String
  | eof => some "end of input"
  | lbrace => some "'\x7b'"
  | rbrace => some "'\x7d'"
  | lbracket => some "'['"
  | rbracket => some "']'"
  | colon => some "':'"
  | comma => some "','"
  | string => some "string"
  | _ => none

end TokenKind

/-- A token: its kind, its text as written, and where it stands. -/
structure Token where
  kind : TokenKind
  lexeme : String
  span : Location
  deriving DecidableEq, Repr, Inhabited

/-- A token in one short line; a text over twenty characters is cut. -/
def Token.summary (t : Token) : String :=
  let shown :=
    if t.lexeme.length > 20 then String.ofList (t.lexeme.toList.take 17) ++ "..." else t.lexeme
  "Token(" ++ t.kind.name ++ ", " ++ Text.quoted shown ++ ", " ++
    toString t.span.line ++ ":" ++ toString t.span.col ++ ")"

end DocSync
