import DocSync.Model.Edit

/-!
Change sets: the structural edits that turn one model into another, listed in the order in which
they can be replayed.
-/

namespace DocSync

/-- A link by the ids of its ends: the slot, or `next`, of a parent, and the child it leads to. -/
structure Link where
  parent : NodeId
  slot : String
  child : NodeId
  deriving DecidableEq, Repr, Inhabited

/-- A node without its links. -/
structure Specimen where
  id : NodeId
  kind : Kind
  content : Content
  deriving DecidableEq, Inhabited

/-- A field before and after; `none` where it is absent. -/
structure FieldChange where
  node : NodeId
  name : String
  old : Option String
  new : Option String
  deriving DecidableEq, Repr, Inhabited

/-- One structural edit. -/
inductive Entry where
  /-- A new node, linked nowhere. -/
  | create (node : Specimen)
  /-- The end of a node that is linked nowhere; the kind and the content serve to bring it back. -/
  | delete (id : NodeId) (kind : Option Kind) (content : Content)
  | addLink (link : Link)
  | removeLink (link : Link)
  | changeField (change : FieldChange)
  /-- Something that is no edit. -/
  | other (text : String)
  deriving DecidableEq, Inhabited

/-- The entry that takes an entry back. A deletion without a kind cannot be taken back, nor can what
is no edit. -/
def Entry.inverse? : Entry → Option Entry
  | create node => some (delete node.id (some node.kind) node.content)
  | delete id kind content => kind.map fun kind => create ⟨id, kind, content⟩
  | addLink link => some (removeLink link)
  | removeLink link => some (addLink link)
  | changeField change => some (changeField { change with old := change.new, new := change.old })
  | other _ => none

/-- Taking back twice is taking back nothing. -/
theorem Entry.inverse?_inverse? {entry back : Entry} (taken : entry.inverse? = some back) :
    back.inverse? = some entry := by
  cases entry with
  | create node => cases taken; rfl
  | delete id kind content =>
    cases kind with
    | none => cases taken
    | some kind => cases taken; rfl
  | addLink link => cases taken; rfl
  | removeLink link => cases taken; rfl
  | changeField change => cases taken; rfl
  | other text => cases taken

/-- The difference between two models. -/
structure ChangeSet where
  removedLinks : List Link := []
  deletions : List Specimen := []
  creations : List Specimen := []
  addedLinks : List Link := []
  fieldChanges : List FieldChange := []
  /-- For each node of both models, its id in the new one and its id in the old one. -/
  idMap : List (NodeId × NodeId) := []
  deriving DecidableEq, Inhabited

namespace ChangeSet

/-- All entries in the order of replay: links fall, nodes go, nodes come, links rise, fields
change. -/
def entries (c : ChangeSet) : List Entry :=
  c.removedLinks.map .removeLink ++
    c.deletions.map (fun node => .delete node.id (some node.kind) node.content) ++
    c.creations.map .create ++ c.addedLinks.map .addLink ++ c.fieldChanges.map .changeField

/-- The number of entries. -/
def size (c : ChangeSet) : Nat := c.entries.length

/-- There is nothing to change. -/
def isEmpty (c : ChangeSet) : Bool := c.entries.isEmpty

/-- The number of entries of each kind, on one line. -/
def summary (c : ChangeSet) : String :=
  "+" ++ toString c.creations.length ++ " nodes, -" ++ toString c.deletions.length ++
    " nodes, +" ++ toString c.addedLinks.length ++ " links, -" ++
    toString c.removedLinks.length ++ " links, ~" ++ toString c.fieldChanges.length ++ " fields"

end ChangeSet

end DocSync
