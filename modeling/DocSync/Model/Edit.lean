import DocSync.Model.Basic
import DocSync.Text.Quoted

/-!
The primitive edits of a model. Each checks what it needs, changes the model, and names the event
that tells of the change. An edit that is refused leaves the model as it was; the one exception is
the linking of a node that the model does not hold, which is noticed late.
-/

namespace DocSync

/-- A change to a model, as its listeners hear of it. -/
inductive Event where
  | create (node : NodeId)
  | delete (node : NodeId)
  | link (parent : NodeId) (slot : String) (child : NodeId)
  | unlink (parent : NodeId) (slot : String) (child : NodeId)
  | field (node : NodeId) (name : String) (old new : Option String)
  deriving DecidableEq, Repr, Inhabited

/-- What an edit was refused over: a node, or one of its slots. -/
inductive Subject where
  | node (id : NodeId)
  | slot (parent : NodeId) (slot : String)
  deriving DecidableEq, Repr, Inhabited

/-- Why an edit is refused. -/
inductive EditFault where
  | idExists
  | foreign
  | stillLinked
  | noSlot (kind : Kind) (slot : String)
  | slotOccupied
  | slotEmpty
  | alreadyLinked
  | cycle
  deriving DecidableEq, Repr, Inhabited

/-- A fault in words. -/
def EditFault.message : EditFault → String
  | idExists => "Node id already exists"
  | foreign => "Node is not part of this model"
  | stillLinked => "Node is still linked"
  | noSlot kind slot => kind.name ++ " has no slot " ++ Text.quoted slot
  | slotOccupied => "Slot is occupied"
  | slotEmpty => "Slot is empty"
  | alreadyLinked => "Child is already linked"
  | cycle => "Link would create a cycle"

/-- How an edit can fail. -/
inductive EditError where
  | refused (subject : Subject) (fault : EditFault)
  /-- The node to be linked is not among the top-level nodes. -/
  | notTopLevel
  deriving DecidableEq, Repr, Inhabited

/-- An edit of a model. The model reached is kept also when the edit fails. -/
abbrev Edit := EStateM EditError Model

namespace Model

/-- A new node at the end of the top level, under an id whose name no other node has. -/
def createNode (id : NodeId) (kind : Kind) (content : Content) : Edit (Key × Event) := fun m =>
  if (m.find? id).isSome then .error (.refused (.node id) .idExists) m
  else
    let key := m.nodes.size
    let node : Node := { content with id := id, kind := kind }
    .ok (key, .create id) { m with nodes := m.nodes.push node, roots := m.roots ++ [key] }

/-- A node that is linked nowhere taken out of the model. -/
def deleteNode (k : Key) : Edit Event := fun m =>
  let node := m.node k
  if !node.live then .error (.refused (.node node.id) .foreign) m
  else if node.parent.isSome || node.next.isSome || node.head.isSome then
    .error (.refused (.node node.id) .stillLinked) m
  else
    let gone := m.update k fun n => { n with live := false }
    .ok (.delete node.id) { gone with roots := m.roots.erase k }

/-- The refusal of a node that belongs to no model. -/
def deleteForeign (id : NodeId) : Edit Event := fun m => .error (.refused (.node id) .foreign) m

/-- The owner that the chain at a node's link belongs to. -/
def ownerAt (m : Model) (parent : Key) : Edge → Option Key
  | .child => some parent
  | .next => (m.node parent).owner

/-- Every node of a chain given an owner. -/
def setOwner (m : Model) (owner : Option Key) (chain : List Key) : Model :=
  chain.foldl (fun m k => m.update k fun n => { n with owner := owner }) m

/-- The link and the link back between a parent and a child. -/
def join (m : Model) (parent : Key) (edge : Edge) (child : Key) : Model :=
  (m.update parent fun n => n.retarget edge (some child)).update child
    fun n => { n with parent := some (parent, edge) }

/-- A top-level node, with its chain, attached to a node's slot or behind a sibling. -/
def link (parent : Key) (slot : String) (child : Key) : Edit Event := fun m =>
  let p := m.node parent
  let c := m.node child
  match p.edge? slot with
  | none => .error (.refused (.slot p.id slot) (.noSlot p.kind slot)) m
  | some edge =>
    if (p.target? edge).isSome then .error (.refused (.slot p.id slot) .slotOccupied) m
    else if c.parent.isSome then .error (.refused (.node c.id) .alreadyLinked) m
    else if m.top parent = child then .error (.refused (.node c.id) .cycle) m
    else
      let joined := m.join parent edge child
      if child ∈ m.roots then
        let owned := joined.setOwner (m.ownerAt parent edge) (joined.chain child)
        .ok (.link p.id slot c.id) { owned with roots := m.roots.erase child }
      else .error .notTopLevel joined

/-- The node at a link detached, with its chain; it goes to the end of the top level. -/
def unlink (parent : Key) (slot : String) : Edit (Key × Event) := fun m =>
  let p := m.node parent
  match p.edge? slot with
  | none => .error (.refused (.slot p.id slot) (.noSlot p.kind slot)) m
  | some edge =>
    match p.target? edge with
    | none => .error (.refused (.slot p.id slot) .slotEmpty) m
    | some child =>
      let parted := (m.update parent fun n => n.retarget edge none).update child
        fun n => { n with parent := none }
      let free := parted.setOwner none (parted.chain child)
      .ok (child, .unlink p.id slot (m.node child).id) { free with roots := m.roots ++ [child] }

/-- A field set to a value, or removed. -/
def setField (k : Key) (name : String) (value : Option String) : Edit Event := fun m =>
  let node := m.node k
  let change (n : Node) : Node :=
    match value with
    | some text => { n with fields := n.fields.insert name text }
    | none => { n with fields := n.fields.erase name }
  .ok (.field node.id name (node.fields.get? name) value) (m.update k change)

end Model

end DocSync
