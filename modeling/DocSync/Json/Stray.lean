import DocSync.Json.View
import DocSync.Sorting

/-!
Stray members. The formatting and the spans of a stored model are not checked for the types of their
parts. A part of another type than it should have is kept beside the others as it came, so that it
can be written back.
-/

namespace DocSync

/-- The members of a stored object that are of another type than they should be, by name. -/
abbrev Strays := List (String × Json)

/-- The members that a test of name and value turns down. -/
def Strays.of (isProper : String → Json → Bool) (members : List (String × Json)) : Strays :=
  members.filter fun member => !isProper member.1 member.2

namespace Json

mutual
/-- A value with the members of all its objects in order of name. -/
def sorted : Json → Json
  | arr items => arr (sortedItems items)
  | obj members => obj (stableSort (fun a b => a.1 ≤ b.1) (sortedMembers members))
  | value => value

/-- Several values with their members in order. -/
def sortedItems : List Json → List Json
  | [] => []
  | item :: rest => sorted item :: sortedItems rest

/-- Several members with those of their values in order. -/
def sortedMembers : List (String × Json) → List (String × Json)
  | [] => []
  | (name, value) :: rest => (name, sorted value) :: sortedMembers rest
end

/-- An object whose members give way to stray ones of their names. -/
def withStrays (strays : Strays) : Json → Json
  | obj members =>
    obj (members.map fun member => (member.1, ((strays.lookup member.1).map sorted).getD member.2))
  | value => value

theorem withStrays_nil (value : Json) : value.withStrays [] = value := by
  cases value <;> simp [withStrays]

end Json

end DocSync
