import DocSync.Grammar.Token

/-! Why a text is not a document, and where that shows. -/

namespace DocSync

/-- What the grammar would have taken. -/
inductive Wanted where
  | value
  | token (kind : TokenKind)
  deriving DecidableEq, Repr

/-- What is wrong with a text, or with a tree offered as its parse. -/
inductive SyntaxFault where
  | unexpectedChar (c : Char)
  | badEscape (c : Option Char)
  | badUnicodeEscape
  | controlChar
  | unterminated
  | badNumber
  | noFraction
  | noExponent
  | unknownWord (word : String)
  | expected (wanted : Wanted) (found : TokenKind) (lexeme : String)
  | unknownRule (rule : String)
  | keyNotTerminal
  deriving DecidableEq, Repr

/-- A wanted thing in words. -/
def Wanted.phrase : Wanted → String
  | value => "a value"
  | token kind => kind.phrase?.getD kind.name.toLower

/-- A fault in words. -/
def SyntaxFault.message : SyntaxFault → String
  | unexpectedChar c => "Unexpected character " ++ Text.quoted (String.singleton c)
  | badEscape c => "Invalid escape sequence \\" ++ (c.map String.singleton).getD ""
  | badUnicodeEscape => "Invalid unicode escape"
  | controlChar => "Control character in string"
  | unterminated => "Unterminated string"
  | badNumber => "Malformed number"
  | noFraction => "Malformed number: digits expected after '.'"
  | noExponent => "Malformed number: exponent digits expected"
  | unknownWord word => "Unknown literal " ++ Text.quoted word
  | expected wanted found lexeme =>
    "Expected " ++ wanted.phrase ++ ", found " ++ found.phrase?.getD (Text.quoted lexeme)
  | unknownRule rule => "Unknown rule " ++ Text.quoted rule
  | keyNotTerminal => "Pair key must be a terminal"

/-- Where a fault lies, as far as that is known. -/
structure Place where
  line : Option Int := none
  col : Option Int := none
  file : Json := .null
  deriving DecidableEq, Repr, Inhabited

/-- A message led by a place, given in texts. A column is named only after a line, a void file name
counts as none, and the colons that would end the place are dropped. -/
def ledBy (line col : Option String) (file : Json) (message : String) : String :=
  let file := if file.isVoid then "" else file.asText ++ ":"
  let line := match line with
    | some line => line ++ ":" ++ ((col.map (· ++ ":")).getD "")
    | none => ""
  let place := (file ++ line).toList
  if place.isEmpty then message
  else String.ofList (place.reverse.dropWhile (· == ':')).reverse ++ " " ++ message

/-- A message led by its place. -/
def Place.lead (p : Place) (message : String) : String :=
  ledBy (p.line.map toString) (p.col.map toString) p.file message

/-- A fault and its place. -/
structure ParseError where
  fault : SyntaxFault
  place : Place
  deriving DecidableEq, Repr

/-- The error in words, led by its place. -/
def ParseError.message (e : ParseError) : String := e.place.lead e.fault.message

end DocSync
