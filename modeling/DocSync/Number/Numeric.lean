import DocSync.Number.Binary64

/-!
Numbers as values hold them: integers, and numbers in floating point. They compare by their exact
values, whatever their types, and a sum is in floating point as soon as one of its terms is.
-/

namespace DocSync

namespace Binary64

/-- A finite number as an exact quotient. -/
def quotient? : Binary64 → Option (Int × Nat)
  | finite negative mantissa exponent =>
    let (num, den) := ratio mantissa exponent
    some (if negative then -(num : Int) else num, den)
  | _ => none

/-- The number nearest to a quotient of either sign. -/
def nearest (num : Int) (den : Nat) : Binary64 := ofRatio (num < 0) num.natAbs den

/-- The sum of two numbers, rounded once. A sum that comes to nothing is negative only if both its
terms are. -/
def add : Binary64 → Binary64 → Binary64
  | nan, _ => nan
  | _, nan => nan
  | infinity a, infinity b => if a = b then infinity a else nan
  | infinity a, finite .. => infinity a
  | finite .., infinity b => infinity b
  | a@(finite negative ..), b@(finite otherNegative ..) =>
    match a.quotient?, b.quotient? with
    | some (m, d), some (n, e) =>
      let num := m * e + n * d
      if num = 0 then zero (negative && otherNegative) else nearest num (d * e)
    | _, _ => nan

end Binary64

/-- A number of either type. -/
inductive Numeric where
  | whole (value : Int)
  | float (value : Binary64)
  deriving DecidableEq, Repr, Inhabited

namespace Numeric

/-- A finite number as an exact quotient. -/
def quotient? : Numeric → Option (Int × Nat)
  | whole value => some (value, 1)
  | float value => value.quotient?

/-- A number is less than another. What is no number is neither less nor greater than any. -/
def below (a b : Numeric) : Bool :=
  match a.quotient?, b.quotient? with
  | some (m, d), some (n, e) => m * e < n * d
  | some _, none => b == float (.infinity false)
  | none, some _ => a == float (.infinity true)
  | none, none => a == float (.infinity true) && b == float (.infinity false)

/-- Two numbers are equal. What is no number is not even equal to itself. -/
def equal (a b : Numeric) : Bool :=
  match a.quotient?, b.quotient? with
  | some (m, d), some (n, e) => m * e == n * d
  | none, none => a == b && a != float .nan
  | _, _ => false

/-- The number in floating point. -/
def toFloat : Numeric → Binary64
  | whole value => .nearest value 1
  | float value => value

/-- The sum of two numbers. -/
def add : Numeric → Numeric → Numeric
  | whole a, whole b => whole (a + b)
  | a, b => float (a.toFloat.add b.toFloat)

/-- Integers compare as usual. -/
@[simp] theorem below_whole (a b : Int) : (whole a).below (whole b) = decide (a < b) := by
  simp [below, quotient?]

/-- Integers are equal only to themselves. -/
@[simp] theorem equal_whole (a b : Int) : (whole a).equal (whole b) = decide (a = b) := by
  rw [Bool.eq_iff_iff]
  simp [equal, quotient?]

end Numeric

end DocSync
