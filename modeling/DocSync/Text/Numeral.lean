/-!
Decimal numerals as they are read from free text: any script's digits, single underscores between
digits, one sign, and blanks around the whole.
-/

namespace DocSync.Text

/-- The code point of the digit zero of each script that has decimal digits. -/
def zeroDigits : List Nat :=
  [0x30, 0x660, 0x6F0, 0x7C0, 0x966, 0x9E6, 0xA66, 0xAE6, 0xB66, 0xBE6, 0xC66, 0xCE6, 0xD66,
   0xDE6, 0xE50, 0xED0, 0xF20, 0x1040, 0x1090, 0x17E0, 0x1810, 0x1946, 0x19D0, 0x1A80, 0x1A90,
   0x1B50, 0x1BB0, 0x1C40, 0x1C50, 0xA620, 0xA8D0, 0xA900, 0xA9D0, 0xA9F0, 0xAA50, 0xABF0, 0xFF10,
   0x104A0, 0x10D30, 0x11066, 0x110F0, 0x11136, 0x111D0, 0x112F0, 0x11450, 0x114D0, 0x11650,
   0x116C0, 0x11730, 0x118E0, 0x11950, 0x11C50, 0x11D50, 0x11DA0, 0x16A60, 0x16AC0, 0x16B50,
   0x1D7CE, 0x1D7D8, 0x1D7E2, 0x1D7EC, 0x1D7F6, 0x1E140, 0x1E2F0, 0x1E950, 0x1FBF0]

/-- Numerals of more digits than this are neither read nor written. -/
def maxDigits : Nat := 4300

/-- The value of a decimal digit of any script. -/
def digitValue? (c : Char) : Option Nat :=
  (zeroDigits.find? fun first => first ≤ c.toNat && c.toNat < first + 10).map (c.toNat - ·)

/-- The blanks that may surround a numeral: ASCII blanks and the spaces beyond ASCII. -/
def isNumeralBlank (c : Char) : Bool :=
  let code := c.toNat
  (9 ≤ code && code ≤ 13) || code == 0x20 || code == 0x85 || code == 0xA0 || code == 0x1680 ||
    (0x2000 ≤ code && code ≤ 0x200A) || code == 0x2028 || code == 0x2029 || code == 0x202F ||
    code == 0x205F || code == 0x3000

/-- Digits with single underscores between them, of which `room` may come; `afterDigit` says that an
underscore may come next. -/
def readDigits (value : Nat) (afterDigit : Bool) (room : Nat) : List Char → Option Nat
  | [] => if afterDigit then some value else none
  | c :: rest =>
    if c = '_' then if afterDigit then readDigits value false room rest else none
    else
      match digitValue? c, room with
      | some d, room + 1 => readDigits (10 * value + d) true room rest
      | _, _ => none

/-- The integer a numeral denotes, or nothing when the text is no numeral or one too long. -/
def readInt? (text : List Char) : Option Int :=
  let core := ((text.dropWhile isNumeralBlank).reverse.dropWhile isNumeralBlank).reverse
  match core with
  | '-' :: digits => (readDigits 0 false maxDigits digits).map fun n => -(n : Int)
  | '+' :: digits => (readDigits 0 false maxDigits digits).map Int.ofNat
  | digits => (readDigits 0 false maxDigits digits).map Int.ofNat

/-- An integer as a numeral, or nothing when the numeral is too long. -/
def writeInt? (n : Int) : Option String :=
  if (Nat.toDigits 10 n.natAbs).length ≤ maxDigits then some (toString n) else none

end DocSync.Text
