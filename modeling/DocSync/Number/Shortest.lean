import DocSync.Number.Binary64

/-!
Floating-point numbers as text: the fewest digits from which the number is read back, and how they
are laid out.
-/

namespace DocSync

namespace Binary64

/-- How many decimal digits a natural number takes. -/
def digitCount (n : Nat) : Nat := (Nat.toDigits 10 n).length

/-- The least power of ten above a positive quotient, by its exponent. -/
def decimalLead (num den : Nat) : Int :=
  if den ≤ num then digitCount (num / den) else 1 - (digitCount ((den - 1) / num) : Int)

/-- The whole number on a decimal grid, counted in steps of `10 ^ grid`, from which a magnitude is
read back: the nearest one if it serves, and else the neighbour on the other side. -/
def onGrid? (mantissa : Nat) (exponent grid : Int) : Option (Nat × Int) :=
  let (num, den) := ratio mantissa exponent
  let num := num * Nat.pow 10 (-grid).toNat
  let den := den * Nat.pow 10 grid.toNat
  -- Below a power of two the numbers lie closer, so the nearer neighbour need not serve.
  ([roundDiv num den, num / den, num / den + 1].find? fun digits =>
    ofDecimal false digits grid == finite false mantissa exponent).map fun digits => (digits, grid)

/-- The fewest digits from which a positive magnitude is read back, with the grid they count on. -/
def shortest (mantissa : Nat) (exponent : Int) : Nat × Int :=
  let (num, den) := ratio mantissa exponent
  let lead := decimalLead num den
  let found := (List.range 17).findSome? fun (n : Nat) =>
    onGrid? mantissa exponent (lead - (n + 1))
  -- Seventeen digits always serve; the exact value stands in for a proof of it.
  found.getD (mantissa * Nat.pow 2 exponent.toNat * Nat.pow 5 (-exponent).toNat, min exponent 0)

end Binary64

/-- How numbers are laid out. -/
structure NumberStyle where
  /-- The least exponent of the first digit at which a number is written without an exponent. -/
  plainFrom : Int
  /-- The exponent from which on a number is written with an exponent again. -/
  plainBelow : Int
  /-- How many digits an exponent has at least. -/
  exponentWidth : Nat
  /-- The word for what is no number. -/
  nan : String
  /-- The word for the infinite. -/
  infinity : String

namespace NumberStyle

variable (style : NumberStyle)

/-- Digits with zeros before them up to a width. -/
def padded (width : Nat) (digits : List Char) : List Char :=
  List.replicate (width - digits.length) '0' ++ digits

/-- Digits without an exponent, where the first one counts `10 ^ lead`. There is a digit on either
side of the point. -/
def plain (digits : List Char) (lead : Int) : List Char :=
  if lead < 0 then '0' :: '.' :: padded (digits.length + (-lead - 1).toNat) digits
  else
    let places := lead.toNat + 1
    let whole := digits.take places
    let fraction := digits.drop places
    whole ++ List.replicate (places - whole.length) '0' ++ '.' ::
      (if fraction.isEmpty then ['0'] else fraction)

/-- Digits with an exponent, the point after the first digit if more follow. -/
def scientific (digits : List Char) (lead : Int) : List Char :=
  let fraction := digits.drop 1
  digits.take 1 ++ (if fraction.isEmpty then [] else '.' :: fraction) ++ 'e' ::
    (if lead < 0 then '-' else '+') :: padded style.exponentWidth (Nat.toDigits 10 lead.natAbs)

/-- A positive magnitude as text. -/
def magnitude (mantissa : Nat) (exponent : Int) : List Char :=
  let (value, grid) := Binary64.shortest mantissa exponent
  let digits := Nat.toDigits 10 value
  let lead := (digits.length : Int) - 1 + grid
  let digits := (digits.reverse.dropWhile (· == '0')).reverse
  if style.plainFrom ≤ lead ∧ lead < style.plainBelow then plain digits lead
  else style.scientific digits lead

/-- A number as text. -/
def write : Binary64 → String
  | .nan => style.nan
  | .infinity negative => (if negative then "-" else "") ++ style.infinity
  | .finite negative mantissa exponent =>
    let digits := if mantissa = 0 then ['0', '.', '0'] else style.magnitude mantissa exponent
    String.ofList (if negative then '-' :: digits else digits)

end NumberStyle

end DocSync
