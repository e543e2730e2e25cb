import DocSync.Json.Stray

/-!
Values that come to the same, however they were written: numbers are alike when they are equal,
with false and true for zero and one, and the members of an object may stand in any order.
-/

namespace DocSync.Json

mutual
/-- A value with its numbers in one spelling: integers wherever they are equal to one. -/
def leveled : Json → Json
  | bool value => int (if value then 1 else 0)
  | float value =>
    match value.toInt? with
    | some n => int n
    | none => float value
  | arr items => arr (leveledItems items)
  | obj members => obj (leveledMembers members)
  | value => value

/-- Several values with their numbers in one spelling. -/
def leveledItems : List Json → List Json
  | [] => []
  | item :: rest => leveled item :: leveledItems rest

/-- Several members with the numbers of their values in one spelling. -/
def leveledMembers : List (String × Json) → List (String × Json)
  | [] => []
  | (name, value) :: rest => (name, leveled value) :: leveledMembers rest
end

/-- Two values come to the same. -/
def alike (a b : Json) : Bool := a.leveled.sorted == b.leveled.sorted

theorem alike_refl (a : Json) : a.alike a = true := by simp [alike]

theorem alike_comm (a b : Json) : a.alike b = b.alike a := by
  unfold alike
  exact Bool.beq_comm

/-- Texts are alike only if they are the same. -/
theorem alike_str {a b : String} : (str a).alike (str b) = true ↔ a = b := by
  simp [alike, leveled, sorted]

end DocSync.Json
