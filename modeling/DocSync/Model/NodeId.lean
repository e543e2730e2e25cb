import DocSync.Json.View

/-!
What nodes go by. Mostly their ids are texts, but a stored model may number its nodes, or name them
by any other value that has no parts. An id keeps the spelling it was given; which node it means
depends on its name alone, and numbers that are equal are one name.
-/

namespace DocSync

/-- The id of a node. -/
inductive NodeId where
  | text (text : String)
  | null
  | bool (value : Bool)
  | int (value : Int)
  | float (value : Binary64)
  deriving DecidableEq, Repr, Inhabited

/-- What ids are told apart by. -/
inductive Name where
  | null
  /-- An integer; false and true are zero and one. -/
  | number (value : Int)
  /-- A number that is no integer. -/
  | fraction (value : Binary64)
  | text (text : String)
  deriving DecidableEq, Repr, Inhabited

namespace NodeId

instance : Coe String NodeId := ⟨text⟩

/-- The value that an id is. -/
def toJson : NodeId → Json
  | text value => .str value
  | null => .null
  | bool value => .bool value
  | int value => .int value
  | float value => .float value

/-- The id that a value is; a value with parts is none. -/
def ofJson? : Json → Option NodeId
  | .str value => some (text value)
  | .null => some null
  | .bool value => some (bool value)
  | .int value => some (int value)
  | .float value => some (float value)
  | .arr _ => none
  | .obj _ => none

theorem ofJson?_toJson (id : NodeId) : ofJson? id.toJson = some id := by cases id <;> rfl

/-- An id as messages show it. -/
def shown (id : NodeId) : String := id.toJson.shown

/-- The id stands for nothing, so that a new node is given a fresh one in its place. -/
def isVoid (id : NodeId) : Bool := id.toJson.isVoid

/-- The name of an id: numbers have one name when they are equal, whatever their spelling. -/
def name : NodeId → Name
  | text value => .text value
  | null => .null
  | bool value => .number (if value then 1 else 0)
  | int value => .number value
  | float value =>
    match value.toInt? with
    | some n => .number n
    | none => .fraction value

/-- A text is the only id of its name. -/
theorem name_eq_text_iff {id : NodeId} {value : String} :
    id.name = .text value ↔ id = text value := by
  cases id with
  | float number =>
    -- A float is a number or a fraction.
    cases found : number.toInt? <;> simp [name, found]
  | _ => simp [name]

/-- The value that stands under an id's name in a list of values by ids. -/
def lookup? {α : Type} (id : NodeId) (entries : List (NodeId × α)) : Option α :=
  (entries.find? (·.1.name == id.name)).map Prod.snd

end NodeId

/-- The name that a value is; a value with parts is none. -/
def Name.of? (value : Json) : Option Name := (NodeId.ofJson? value).map NodeId.name

theorem Name.of?_toJson (id : NodeId) : Name.of? id.toJson = some id.name := by
  rw [Name.of?, NodeId.ofJson?_toJson]
  rfl

end DocSync
