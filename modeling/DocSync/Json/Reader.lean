import DocSync.Assoc
import DocSync.Json.Value
import DocSync.Text.Hex
import DocSync.Text.Numeral

/-!
JSON values from text. Beyond the standard, the words for what is no number or infinite are taken
for numbers. Of two members with one name the later counts. A text is refused where it first goes
wrong, be it no JSON, an integer of too many digits, or a value too deep inside others.
-/

namespace DocSync.Json

/-- Why a text is refused. -/
inductive ReadFault where
  /-- The text is no JSON. -/
  | malformed
  /-- An integer has more digits than are read. -/
  | longInteger
  /-- A value lies inside more arrays and objects than are entered. -/
  | tooDeep
  deriving DecidableEq, Repr, Inhabited

/-- The blanks between the parts of a value. -/
def isBlank (c : Char) : Bool := c == ' ' || c == '\t' || c == '\n' || c == '\r'

/-- A text without the blanks it starts with. -/
def skipBlanks (text : List Char) : List Char := text.dropWhile isBlank

/-- The number of four hexadecimal digits, and what follows them. -/
def readUnit? : List Char → Option (Nat × List Char)
  | a :: b :: c :: d :: rest => do
    let a ← Text.hexValue? a
    let b ← Text.hexValue? b
    let c ← Text.hexValue? c
    let d ← Text.hexValue? d
    return (((a * 16 + b) * 16 + c) * 16 + d, rest)
  | _ => none

/-- The character a code stands for; a lone surrogate stands for none. -/
def charOf? (code : Nat) : Option Char := if code.isValidChar then some (Char.ofNat code) else none

/-- The character of an escape, from behind its backslash, and what follows it. -/
def readEscape? : List Char → Option (Char × List Char)
  | 'b' :: rest => some ('\x08', rest)
  | 'f' :: rest => some ('\x0c', rest)
  | 'n' :: rest => some ('\n', rest)
  | 'r' :: rest => some ('\r', rest)
  | 't' :: rest => some ('\t', rest)
  | 'u' :: digits => do
    let (high, rest) ← readUnit? digits
    if high < 0xD800 || 0xDC00 ≤ high then return (← charOf? high, rest)
    else
      match rest with
      | '\\' :: 'u' :: digits =>
        let (low, rest) ← readUnit? digits
        if low < 0xDC00 || 0xE000 ≤ low then none
        else return (← charOf? (0x10000 + (high - 0xD800) * 0x400 + (low - 0xDC00)), rest)
      | _ => none
  | c :: rest => if c = '"' || c = '\\' || c = '/' then some (c, rest) else none
  | [] => none

/-- A string from behind its opening quote, the characters read so far being `reversed`; `fuel`
bounds the characters to come. -/
def readString? : Nat → List Char → List Char → Option (String × List Char)
  | 0, _, _ => none
  | _, _, [] => none
  | fuel + 1, reversed, c :: rest =>
    if c = '"' then some (String.ofList reversed.reverse, rest)
    else if c = '\\' then do
      let (c, rest) ← readEscape? rest
      readString? fuel (c :: reversed) rest
    else if c < ' ' then none
    else readString? fuel (c :: reversed) rest

/-- The decimal digits a text starts with, and what follows them. -/
def spanDigits (text : List Char) : List Char × List Char := text.span Char.isDigit

/-- The value of decimal digits. -/
def natOf (digits : List Char) : Nat := digits.foldl (fun n c => 10 * n + (c.toNat - 48)) 0

/-- The digits of the fraction a text starts with, if it does, and what follows it. -/
def readFraction (text : List Char) : List Char × List Char :=
  match text with
  | '.' :: rest =>
    match spanDigits rest with
    | ([], _) => ([], text)
    | found => found
  | _ => ([], text)

/-- The exponent a text starts with, if it does, and what follows it. -/
def readExponent (text : List Char) : Option Int × List Char :=
  match text with
  | e :: rest =>
    if e = 'e' || e = 'E' then
      let (negative, rest) := match rest with
        | '+' :: rest => (false, rest)
        | '-' :: rest => (true, rest)
        | _ => (false, rest)
      match spanDigits rest with
      | ([], _) => (none, text)
      | (digits, rest) =>
        let magnitude : Int := natOf digits
        (some (if negative then -magnitude else magnitude), rest)
    else (none, text)
  | [] => (none, text)

/-- The number a text starts with. A zero is not followed by further digits. -/
def readNumber (text : List Char) : Except ReadFault (Json × List Char) := do
  let (negative, unsigned) := match text with
    | '-' :: rest => (true, rest)
    | _ => (false, text)
  let (whole, rest) ← match unsigned with
    | '0' :: rest => pure (['0'], rest)
    | _ =>
      match spanDigits unsigned with
      | ([], _) => throw .malformed
      | found => pure found
  let (fraction, rest) := readFraction rest
  let (exponent, rest) := readExponent rest
  if fraction.isEmpty && exponent.isNone then
    -- Only integers have a greatest length.
    if whole.length > Text.maxDigits then throw .longInteger
    else
      let n : Int := natOf whole
      return (int (if negative then -n else n), rest)
  else
    let scale := exponent.getD 0 - fraction.length
    return (float (Binary64.ofDecimal negative (natOf (whole ++ fraction)) scale), rest)

/-- The words that are values. -/
def words : List (List Char × Json) :=
  [(['n', 'u', 'l', 'l'], null), (['t', 'r', 'u', 'e'], bool true),
   (['f', 'a', 'l', 's', 'e'], bool false), (['N', 'a', 'N'], float .nan),
   (['I', 'n', 'f', 'i', 'n', 'i', 't', 'y'], float (.infinity false)),
   (['-', 'I', 'n', 'f', 'i', 'n', 'i', 't', 'y'], float (.infinity true))]

/-- The word a text starts with. -/
def readWord? (text : List Char) : Option (Json × List Char) :=
  (words.find? fun word => word.1.isPrefixOf text).map fun word =>
    (word.2, text.drop word.1.length)

/-- A string from behind its opening quote. -/
def readText (text : List Char) : Except ReadFault (String × List Char) :=
  match readString? (text.length + 1) [] text with
  | some found => .ok found
  | none => .error .malformed

mutual
/-- The value a text starts with, and what follows it, inside at most `depth` arrays and objects;
`fuel` bounds the depth and the number of its parts. -/
def readValue : Nat → Nat → List Char → Except ReadFault (Json × List Char)
  | 0, _, _ => .error .malformed
  | fuel + 1, depth, text =>
    match text, depth with
    | '"' :: rest, _ => do
      let (text, rest) ← readText rest
      return (str text, rest)
    | '[' :: _, 0 | '{' :: _, 0 => .error .tooDeep
    | '[' :: rest, depth + 1 =>
      match skipBlanks rest with
      | ']' :: rest => .ok (arr [], rest)
      | rest => do
        let (items, rest) ← readItems fuel depth rest
        return (arr items, rest)
    | '{' :: rest, depth + 1 =>
      match skipBlanks rest with
      | '}' :: rest => .ok (obj [], rest)
      | rest => do
        let (members, rest) ← readMembers fuel depth [] rest
        return (obj members, rest)
    | _, _ =>
      match readWord? text with
      | some found => .ok found
      | none => readNumber text

/-- The items of an array up to its closing bracket. -/
def readItems : Nat → Nat → List Char → Except ReadFault (List Json × List Char)
  | 0, _, _ => .error .malformed
  | fuel + 1, depth, text => do
    let (item, rest) ← readValue fuel depth text
    match skipBlanks rest with
    | ']' :: rest => return ([item], rest)
    | ',' :: rest =>
      let (items, rest) ← readItems fuel depth (skipBlanks rest)
      return (item :: items, rest)
    | _ => throw .malformed

/-- The members of an object up to its closing bracket, after those already read. -/
def readMembers : Nat → Nat → List (String × Json) → List Char →
    Except ReadFault (List (String × Json) × List Char)
  | 0, _, _, _ => .error .malformed
  | fuel + 1, depth, read, text =>
    match text with
    | '"' :: rest => do
      let (name, rest) ← readText rest
      match skipBlanks rest with
      | ':' :: rest =>
        let (value, rest) ← readValue fuel depth (skipBlanks rest)
        let read := Assoc.set name value read
        match skipBlanks rest with
        | '}' :: rest => return (read, rest)
        | ',' :: rest => readMembers fuel depth read (skipBlanks rest)
        | _ => throw .malformed
      | _ => throw .malformed
    | _ => .error .malformed
end

/-- The value that a whole text is, with at most `depth` arrays and objects inside one another. -/
def read (depth : Nat) (text : String) : Except ReadFault Json := do
  let chars := text.toList
  let (value, rest) ← readValue (2 * chars.length + 1) depth (skipBlanks chars)
  if (skipBlanks rest).isEmpty then return value else throw .malformed

end DocSync.Json
