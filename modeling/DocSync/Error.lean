import DocSync.Change.Entry
import DocSync.Grammar.ParseError

/-! Everything that can go wrong in a synchronization, by cause. -/

namespace DocSync

/-- Why an entry cannot be replayed. -/
inductive EntryFault where
  | unknownNode (id : NodeId)
  | idExists
  | stillLinked
  | noSlot (kind : Kind) (slot : String)
  | slotOccupied
  | alreadyLinked
  | cycle
  | linkAbsent
  | fieldDiffers
  | unknownEntry
  deriving DecidableEq, Repr, Inhabited

/-- A fault in words. -/
def EntryFault.message : EntryFault → String
  | unknownNode id => "Unknown node " ++ id.shown
  | idExists => "Node id already exists"
  | stillLinked => "Node is still linked"
  | noSlot kind slot => "No slot " ++ Text.quoted slot ++ " on " ++ kind.name
  | slotOccupied => "Slot is occupied"
  | alreadyLinked => "Child is already linked"
  | cycle => "Link would create a cycle"
  | linkAbsent => "Link is not present"
  | fieldDiffers => "Field does not hold the expected value"
  | unknownEntry => "Unknown change-set entry"

/-- Why a node cannot be shown. -/
inductive RenderError where
  /-- It lacks what its kind must show. -/
  | pairWithoutKey (id : NodeId)
  | pairWithoutValue (id : NodeId)
  | scalarWithoutValue (id : NodeId)
  /-- A stored model gave something that is no text where a text is needed. -/
  | misfit (fault : Misfit)
  deriving DecidableEq, Repr, Inhabited

/-- A fault in words. -/
def Misfit.message : Misfit → String
  | noText => "what is no text cannot be shown"
  | noSum => "what is no text cannot be put together with one"
  | uncountable => "so large a number counts nothing"
  | tooWide => "no text holds so many blanks"

/-- The error in words. -/
def RenderError.message : RenderError → String
  | pairWithoutKey id => "pair " ++ id.shown ++ " has no key"
  | pairWithoutValue id => "pair " ++ id.shown ++ " has no value"
  | scalarWithoutValue id => "scalar " ++ id.shown ++ " has no value"
  | misfit fault => fault.message

/-- Why spans cannot be trusted. -/
inductive StaleFault where
  | otherText
  | noSpan
  | olderText
  | noSlotSpan (slot : String)
  deriving DecidableEq, Repr, Inhabited

/-- A fault in words. -/
def StaleFault.message : StaleFault → String
  | otherText => "text model was built from a different text"
  | noSpan => "node has no span"
  | olderText => "span was measured against an older text"
  | noSlotSpan slot => "slot " ++ Text.quoted slot ++ " has no span"

/-- A message about the node of an id; a void id names none. -/
def aboutNode (id : Json) (message : String) : String :=
  if id.isVoid then message else "node " ++ id.shown ++ ": " ++ message

/-- Why an edit of the model is no set of independent edits of the text. -/
inductive ConflictFault where
  | topLevelDeleted (id : NodeId)
  | topLevelCreated (id : NodeId)
  | topLevelChain
  | siblingsMoved (owner : NodeId) (slot : String)
  /-- Two splices overlap, the bounds of which are shown as they were given. -/
  | overlap (start stop nextStart nextStop : Json)
  deriving DecidableEq, Repr, Inhabited

/-- A fault in words. -/
def ConflictFault.message : ConflictFault → String
  | topLevelDeleted id => "top-level node " ++ id.shown ++ " was deleted"
  | topLevelCreated id => "top-level node " ++ id.shown ++ " was created"
  | topLevelChain => "a top-level sibling chain changed"
  | siblingsMoved owner slot =>
    "siblings of " ++ owner.shown ++ "." ++ slot ++ " moved or were reordered"
  | overlap start stop nextStart nextStop =>
    "splices overlap at " ++ start.shown ++ "-" ++ stop.shown ++ " and " ++ nextStart.shown ++
      "-" ++ nextStop.shown

/-- No free label was found for a node that is told apart by number. -/
def collisionMessage (id probes : Json) : String :=
  "Could not find a free id for " ++ id.shown ++ " after " ++ probes.asText ++ " probes"

/-- What can go wrong. -/
inductive Error where
  /-- The text is not a document. -/
  | parse (error : ParseError)
  /-- A tree offered as a parse has a pair without exactly two parts. -/
  | pairShape
  /-- An edit of the model was refused. -/
  | edit (error : EditError)
  /-- An entry of a change set was refused. -/
  | entry (entry : Entry) (fault : EntryFault)
  /-- An entry holds too little to be taken back. -/
  | irreversible (id : NodeId)
  /-- No node has the id. -/
  | unknownId (id : NodeId)
  | render (error : RenderError)
  /-- Something that is no text, or no position, stands where one is needed. -/
  | misfit (fault : Misfit)
  | stale (node : Option NodeId) (fault : StaleFault)
  | conflict (fault : ConflictFault)
  /-- No free label was found for a node; the limit is named as it was given. -/
  | collision (id : String) (probes : Json)
  /-- A label to be renumbered starts with no number. -/
  | noNumber (label : String)
  /-- The new number of a label takes too many digits. -/
  | longNumber (label : String)
  /-- A pass was asked for inside another one. -/
  | passRunning
  deriving DecidableEq, Inhabited

namespace Error

/-- The error in words; for an edit that was refused, without what it was refused over. -/
def message : Error → String
  | parse error => error.message
  | pairShape => "a pair has two parts"
  | edit (.refused _ fault) => fault.message
  | edit .notTopLevel => "node is not at top level"
  | entry _ fault => fault.message
  | irreversible id => "DeleteNode(" ++ id.shown ++ ") carries no type to recreate"
  | unknownId id => "no node " ++ id.shown
  | render error => error.message
  | misfit fault => fault.message
  | stale node fault => aboutNode ((node.map NodeId.toJson).getD .null) fault.message
  | conflict fault => fault.message
  | collision id probes => collisionMessage (.str id) probes
  | noNumber label => "no number in " ++ Text.quoted label
  | longNumber label => "number too long for " ++ Text.quoted label
  | passRunning => "A reconciliation pass is already running"

/-- The error is one that synchronization knows, and not a misuse of it. -/
def isFailure : Error → Bool
  | pairShape | edit .notTopLevel | irreversible _ | unknownId _ | misfit _ | noNumber _
  | longNumber _ => false
  | _ => true

/-- The error that keeps a node from being shown. What does not fit is no fault of the node. -/
def ofRender : RenderError → Error
  | .misfit fault => misfit fault
  | error => render error

end Error

/-- The entry that takes an entry back, if the entry holds enough for that. -/
def Entry.invert (entry : Entry) : Except Error Entry :=
  match entry.inverse?, entry with
  | some back, _ => .ok back
  | none, .delete id _ _ => .error (.irreversible id)
  | none, _ => .error (.entry entry .unknownEntry)

end DocSync
