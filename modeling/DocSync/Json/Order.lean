import DocSync.Json.Alike

/-!
How values compare: numbers with numbers, where false and true are zero and one, and texts with
texts. No other two values are in any order.
-/

namespace DocSync.Json

/-- One value comes before another, if they can be compared. -/
def below? : Json → Json → Option Bool
  | str a, str b => some (a < b)
  | a, b =>
    match a.number?, b.number? with
    | some m, some n => some (m.below n)
    | _, _ => none

/-- One value equals another or comes before it, if they can be compared. -/
def atMost? : Json → Json → Option Bool
  | str a, str b => some (a ≤ b)
  | a, b =>
    match a.number?, b.number? with
    | some m, some n => some (m.below n || m.equal n)
    | _, _ => none

/-- Two values are equal: alike, unless they are no numbers where numbers should be. -/
def equal (a b : Json) : Bool :=
  match a.number?, b.number? with
  | some m, some n => m.equal n
  | _, _ => a.alike b

/-- Integers are in their usual order. -/
@[simp] theorem below?_int (a b : Int) : (int a).below? (int b) = some (decide (a < b)) := by
  simp [below?, number?]

end DocSync.Json
