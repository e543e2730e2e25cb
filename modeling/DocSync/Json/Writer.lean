import DocSync.Json.Misfit
import DocSync.Json.View
import DocSync.Text.Hex

/-!
JSON values as text. Everything beyond printable ASCII is escaped, so the text of a value is ASCII,
and its lines end at line feeds only.
-/

namespace DocSync.Json

/-- A code unit as an escape. -/
def escapeUnit (unit : Nat) : List Char := '\\' :: 'u' :: Text.hex 4 unit

/-- One character inside quotes. -/
def escapeChar (c : Char) : List Char :=
  if c = '"' then ['\\', '"']
  else if c = '\\' then ['\\', '\\']
  else if c = '\n' then ['\\', 'n']
  else if c = '\r' then ['\\', 'r']
  else if c = '\t' then ['\\', 't']
  else if c = '\x08' then ['\\', 'b']
  else if c = '\x0c' then ['\\', 'f']
  else if ' ' ≤ c && c ≤ '~' then [c]
  else if c.toNat < 0x10000 then escapeUnit c.toNat
  else
    -- Beyond sixteen bits a character is a pair of surrogates.
    let rest := c.toNat - 0x10000
    escapeUnit (0xD800 + rest / 0x400) ++ escapeUnit (0xDC00 + rest % 0x400)

/-- A text in quotes. -/
def quote (text : String) : String :=
  String.ofList ('"' :: text.toList.flatMap escapeChar ++ ['"'])

/-- Numbers have an exponent below a ten-thousandth and where more than sixteen digits would stand
before the point. What is no number, or infinite, goes by a word. -/
def numberStyle : NumberStyle where
  plainFrom := -4
  plainBelow := 16
  exponentWidth := 2
  nan := "NaN"
  infinity := "Infinity"

mutual
/-- A value on a single line. -/
def compact : Json → String
  | null => "null"
  | bool value => if value then "true" else "false"
  | int value => toString value
  | float value => numberStyle.write value
  | str text => quote text
  | arr items => "[" ++ ", ".intercalate (compactItems items) ++ "]"
  | obj members => "\x7b" ++ ", ".intercalate (compactMembers members) ++ "\x7d"

/-- Several values, each on a single line. -/
def compactItems : List Json → List String
  | [] => []
  | item :: rest => compact item :: compactItems rest

/-- Several members, each on a single line. -/
def compactMembers : List (String × Json) → List String
  | [] => []
  | (name, value) :: rest => (quote name ++ ": " ++ compact value) :: compactMembers rest
end

/-- Lines with a text before the first one. -/
def openLines (lead : String) : List String → List String
  | [] => [lead]
  | first :: rest => (lead ++ first) :: rest

/-- Lines with a text behind the last one. -/
def closeLines (tail : String) : List String → List String
  | [] => []
  | [last] => [last ++ tail]
  | line :: rest => line :: closeLines tail rest

/-- The lines of several blocks, every block but the last closed by a comma. -/
def joinBlocks : List (List String) → List String
  | [] => []
  | [last] => last
  | block :: rest => closeLines "," block ++ joinBlocks rest

/-- The lines between two brackets, indented by `step`; nothing between them takes a single line. -/
def bracketed (step left right : String) (blocks : List (List String)) : List String :=
  if blocks.isEmpty then [left ++ right]
  else left :: (joinBlocks blocks).map (step ++ ·) ++ [right]

mutual
/-- The lines of a value, each level indented by `step`. -/
def lines (step : String) : Json → List String
  | arr items => bracketed step "[" "]" (itemLines step items)
  | obj members => bracketed step "\x7b" "\x7d" (memberLines step members)
  | value => [compact value]

/-- The lines of several values. -/
def itemLines (step : String) : List Json → List (List String)
  | [] => []
  | item :: rest => lines step item :: itemLines step rest

/-- The lines of several members, each led by its name. -/
def memberLines (step : String) : List (String × Json) → List (List String)
  | [] => []
  | (name, value) :: rest =>
    openLines (quote name ++ ": ") (lines step value) :: memberLines step rest
end

/-- How a value is spread over lines. -/
inductive Indent where
  /-- Each level by so many blanks; a number below zero counts as zero. -/
  | blanks (width : Int)
  /-- Each level by a text. -/
  | text (step : String)
  deriving DecidableEq, Repr, Inhabited

/-- The text that one level is indented by. -/
def Indent.step : Indent → String
  | blanks width => String.ofList (List.replicate width.toNat ' ')
  | text step => step

/-- Numbers that count something are below this one, and not below its negative. -/
def countBound : Int := Int.pow 2 63

/-- No text holds so many blanks. -/
def widthBound : Int := Int.pow 2 40

/-- So many blanks as an indentation, if they can be counted and held. -/
def Indent.ofWidth (width : Int) : Except Misfit Indent :=
  if width < -countBound || countBound ≤ width then .error .uncountable
  else if widthBound ≤ width then .error .tooWide
  else .ok (blanks width)

/-- The indentation that a value asks for; null asks for none. -/
def Indent.asked : Json → Except Misfit (Option Indent)
  | null => .ok none
  | str step => .ok (some (text step))
  | value =>
    match value.count? with
    | some width => (ofWidth width).map some
    | none => .error .noSum

/-- An indentation as JSON. -/
def Indent.toJson : Indent → Json
  | blanks width => .int width
  | text step => .str step

/-- The lines of a value under an indentation; without one there is a single line. -/
def linesWith (indent : Option Indent) (value : Json) : List String :=
  match indent with
  | some indent => value.lines indent.step
  | none => [value.compact]

/-- A value as text. -/
def write (indent : Option Indent) (value : Json) : String :=
  "\n".intercalate (value.linesWith indent)

end DocSync.Json
