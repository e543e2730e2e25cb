/-! The kinds of nodes a document is made of, and the names their parts go by. -/

namespace DocSync

/-- The slot of an object: its chain of pairs. -/
def membersSlot : String := "MEMBERS"

/-- The slot of an array: its chain of values. -/
def itemsSlot : String := "ITEMS"

/-- The field that holds a pair's key. -/
def keyField : String := "KEY"

/-- The field that holds a scalar, and the slot that holds a pair's object or array. -/
def valueName : String := "VALUE"

/-- The name under which a sibling is linked, beside the names of slots. -/
def nextName : String := "next"

/-- What a node stands for. -/
inductive Kind where
  | object
  | array
  | pair
  | scalar
  deriving DecidableEq, Repr, Inhabited

namespace Kind

/-- Every kind. -/
def all : List Kind := [object, array, pair, scalar]

/-- The kind's name. -/
def name : Kind → String
  | object => "object"
  | array => "array"
  | pair => "pair"
  | scalar => "scalar"

/-- The kind of a name. -/
def ofName? (text : String) : Option Kind := all.find? (·.name == text)

/-- The slot in which a node of the kind holds a chain of children; scalars have none. -/
def slot? : Kind → Option String
  | object => some membersSlot
  | array => some itemsSlot
  | pair => some valueName
  | scalar => none

/-- The fields a node of the kind shows, in order. -/
def fieldNames : Kind → List String
  | object => []
  | array => []
  | pair => [keyField, valueName]
  | scalar => [valueName]

/-- The brackets around a kind's children. -/
def brackets? : Kind → Option (String × String)
  | object => some ("\x7b", "\x7d")
  | array => some ("[", "]")
  | pair => none
  | scalar => none

theorem ofName?_name (kind : Kind) : ofName? kind.name = some kind := by
  cases kind <;> decide

end Kind

end DocSync
