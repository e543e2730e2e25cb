import DocSync.Dict
import DocSync.Number.Binary64

/-! JSON values. -/

namespace DocSync

/-- A JSON value. The members of an object keep the order they were written in. -/
inductive Json where
  | null
  | bool (value : Bool)
  | int (value : Int)
  /-- A number written with a fraction or an exponent, or a word for what is no number. -/
  | float (value : Binary64)
  | str (text : String)
  | arr (items : List Json)
  | obj (members : List (String × Json))
  deriving Repr, Inhabited

namespace Json

mutual
/-- Two values are the same, their members in the same order. -/
def same : Json → Json → Bool
  | null, null => true
  | bool a, bool b => a == b
  | int a, int b => a == b
  | float a, float b => a == b
  | str a, str b => a == b
  | arr a, arr b => sameItems a b
  | obj a, obj b => sameMembers a b
  | _, _ => false

/-- Two lists hold the same values. -/
def sameItems : List Json → List Json → Bool
  | [], [] => true
  | a :: as, b :: bs => same a b && sameItems as bs
  | _, _ => false

/-- Two lists hold the same values under the same names. -/
def sameMembers : List (String × Json) → List (String × Json) → Bool
  | [], [] => true
  | (n, a) :: as, (k, b) :: bs => n == k && same a b && sameMembers as bs
  | _, _ => false
end

mutual
theorem same_iff : ∀ a b : Json, same a b = true ↔ a = b
  | null, b => by cases b <;> simp [same]
  | bool _, b => by cases b <;> simp [same]
  | int _, b => by cases b <;> simp [same]
  | float _, b => by cases b <;> simp [same]
  | str _, b => by cases b <;> simp [same]
  | arr items, b => by cases b <;> simp [same, sameItems_iff items]
  | obj members, b => by cases b <;> simp [same, sameMembers_iff members]

theorem sameItems_iff : ∀ as bs : List Json, sameItems as bs = true ↔ as = bs
  | [], bs => by cases bs <;> simp [sameItems]
  | a :: as, bs => by cases bs <;> simp [sameItems, same_iff a, sameItems_iff as]

theorem sameMembers_iff : ∀ as bs : List (String × Json), sameMembers as bs = true ↔ as = bs
  | [], bs => by cases bs <;> simp [sameMembers]
  | (n, a) :: as, bs => by
    cases bs <;> simp [sameMembers, same_iff a, sameMembers_iff as, Prod.ext_iff]
end

instance : DecidableEq Json := fun a b => decidable_of_iff _ (same_iff a b)

/-- A text, or null in its absence. -/
def ofText? (text : Option String) : Json := (text.map str).getD null

/-- An integer, or null in its absence. -/
def ofInt? (n : Option Int) : Json := (n.map int).getD null

/-- An object whose members come from a map. -/
def ofDict {α : Type} (value : α → Json) (d : Dict α) : Json :=
  obj (d.entries.map fun entry => (entry.1, value entry.2))

/-- The members of an object; no other value has members. -/
def members : Json → List (String × Json)
  | obj members => members
  | _ => []

/-- The member of an object by its name. -/
def member? (name : String) (value : Json) : Option Json := value.members.lookup name

/-- The value is null. -/
def isNull : Json → Bool
  | null => true
  | _ => false

end Json

end DocSync
