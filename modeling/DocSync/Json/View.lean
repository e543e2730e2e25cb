import DocSync.Json.Value
import DocSync.Number.Numeric
import DocSync.Number.Shortest
import DocSync.Text.Quoted

/-!
What JSON values are taken for where their shape is not known: their texts in messages, what counts
as nothing, the parts of a value, the number it counts as, and what two values come to together.
-/

namespace DocSync.Json

/-- Numbers in messages are laid out as they are written, but what is no number, or infinite, goes
by a word of its own. -/
def shownNumbers : NumberStyle where
  plainFrom := -4
  plainBelow := 16
  exponentWidth := 2
  nan := "nan"
  infinity := "inf"

mutual
/-- A value as messages show it. -/
def shown : Json → String
  | null => "None"
  | bool value => if value then "True" else "False"
  | int value => toString value
  | float value => shownNumbers.write value
  | str text => Text.quoted text
  | arr items => "[" ++ ", ".intercalate (shownItems items) ++ "]"
  | obj members => "\x7b" ++ ", ".intercalate (shownMembers members) ++ "\x7d"

/-- Several values as messages show them. -/
def shownItems : List Json → List String
  | [] => []
  | item :: rest => shown item :: shownItems rest

/-- Several members as messages show them. -/
def shownMembers : List (String × Json) → List String
  | [] => []
  | (name, value) :: rest => (Text.quoted name ++ ": " ++ shown value) :: shownMembers rest
end

/-- The name messages have for a value's type. -/
def typeName : Json → String
  | null => "NoneType"
  | bool _ => "bool"
  | int _ => "int"
  | float _ => "float"
  | str _ => "str"
  | arr _ => "list"
  | obj _ => "dict"

/-- A value that stands for nothing: null, false, zero, or something empty. -/
def isVoid : Json → Bool
  | null => true
  | bool value => !value
  | int value => value == 0
  | float value => value.isZero
  | str text => text.isEmpty
  | arr items => items.isEmpty
  | obj members => members.isEmpty

/-- The value is made of items or members. -/
def isCompound : Json → Bool
  | arr _ | obj _ => true
  | _ => false

/-- How many parts a value has, if it has parts. -/
def size? : Json → Option Nat
  | str text => some text.length
  | arr items => some items.length
  | obj members => some members.length
  | _ => none

/-- The parts of a value that has parts: items, names, or characters. -/
def parts? : Json → Option (List Json)
  | str text => some (text.toList.map fun c => str (String.singleton c))
  | arr items => some items
  | obj members => some (members.map fun entry => str entry.1)
  | _ => none

/-- The text that a value is. -/
def text? : Json → Option String
  | str text => some text
  | _ => none

/-- A value put into a text: its own text, or else the one that messages show. -/
def asText (value : Json) : String := value.text?.getD value.shown

/-- The truth value that a value is. -/
def bool? : Json → Option Bool
  | bool value => some value
  | _ => none

/-- The integer that a value is. -/
def int? : Json → Option Int
  | int n => some n
  | _ => none

/-- The integer that a value equals as a number; false and true are zero and one. -/
def whole? : Json → Option Int
  | bool value => some (if value then 1 else 0)
  | int value => some value
  | float value => value.toInt?
  | _ => none

/-- The integer that a value counts as where a whole number is needed; false and true are zero and
one. -/
def count? : Json → Option Int
  | bool value => some (if value then 1 else 0)
  | int value => some value
  | _ => none

/-- The number that a value is; false and true are zero and one. -/
def number? : Json → Option Numeric
  | bool value => some (.whole (if value then 1 else 0))
  | int value => some (.whole value)
  | float value => some (.float value)
  | _ => none

/-- A number as a value. -/
def ofNumeric : Numeric → Json
  | .whole value => int value
  | .float value => float value

/-- The sum of two values of one kind: texts and lists come one behind the other, and numbers are
added. -/
def sum? : Json → Json → Option Json
  | str a, str b => some (str (a ++ b))
  | arr a, arr b => some (arr (a ++ b))
  | a, b =>
    match a.number?, b.number? with
    | some m, some n => some (ofNumeric (m.add n))
    | _, _ => none

end DocSync.Json
