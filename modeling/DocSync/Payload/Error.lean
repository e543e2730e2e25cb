import DocSync.Json.Reader
import DocSync.Model.Edit

/-! What can be wrong with a stored model. -/

namespace DocSync

/-- Why a model cannot be restored. -/
inductive PayloadError where
  /-- The text cannot be read as JSON. -/
  | unreadable (fault : Json.ReadFault)
  /-- The value is not an object but something of the given type. -/
  | notObject (type : String)
  /-- The list of nodes or of top-level nodes is missing. -/
  | missingList (name : String)
  /-- The list of top-level nodes is no list. -/
  | badRoots
  /-- A record misses a member, or refers to something that is not there. -/
  | absent (shown : String)
  /-- A record has something of the wrong shape. -/
  | badRecord
  | unknownKind (shown : String)
  /-- An edit that restores the model was refused, over something that is shown. -/
  | inconsistent (shown : String) (fault : EditFault)
  /-- The links leave other nodes at top level than those stored. -/
  | rootsDiffer
  deriving DecidableEq, Repr, Inhabited

namespace PayloadError

/-- The error in words. -/
def message : PayloadError → String
  | unreadable .malformed => "Invalid JSON"
  | unreadable .longInteger => "Integer too long"
  | unreadable .tooDeep => "Value too deep"
  | notObject type => "Expected an object, got " ++ type
  | missingList name => "Missing model field: " ++ Text.quoted name
  | badRoots => "Missing model field"
  | absent shown => "Malformed node record or dangling reference: " ++ shown
  | badRecord => "Malformed node record"
  | unknownKind shown => "Unknown node type: " ++ shown
  | inconsistent shown fault => "Inconsistent links: " ++ fault.message ++ ": " ++ shown
  | rootsDiffer => "Top-level node list does not match the links"

/-- What an edit was refused over. -/
def subjectText : Subject → String
  | .node id => id.shown
  | .slot parent slot => "(" ++ parent.shown ++ ", " ++ Text.quoted slot ++ ")"

/-- The refusal of an edit that restores a model. -/
def ofEdit : EditError → PayloadError
  | .refused subject fault => inconsistent (subjectText subject) fault
  | .notTopLevel => badRecord

end PayloadError

end DocSync
