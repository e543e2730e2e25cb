import DocSync.Change.Entry
import DocSync.Error
import DocSync.Model.Forest

/-!
Outlines: what the replay of entries needs to know of a model, by names alone. A run of entries is
checked against an outline before the first of them changes the model. Where a model holds two nodes
of one name, which only an edit that failed leaves behind, the later one stands for both.
-/

namespace DocSync

/-- A node as an outline knows it. -/
structure Outlined where
  name : Name
  kind : Kind
  fields : Dict String
  deriving DecidableEq, Inhabited

/-- A link by the names of its ends. -/
structure NamedLink where
  parent : Name
  slot : String
  child : Name
  deriving DecidableEq, Repr, Inhabited

/-- A link without the spelling of its ids. -/
def Link.named (link : Link) : NamedLink := ⟨link.parent.name, link.slot, link.child.name⟩

/-- The nodes of a model and the links between them, the latest first. Of two nodes with one name,
of two links from one slot, and of two parents of one node the first in its list counts. -/
structure Outline where
  nodes : List Outlined := []
  links : List NamedLink := []
  /-- The node that is linked to, and the node that links to it. -/
  parents : List (Name × Name) := []
  /-- The nodes that link to others, each as often as it has links. -/
  holders : List Name := []
  deriving DecidableEq, Inhabited

namespace Outline

/-- The node of a name. -/
def node? (o : Outline) (name : Name) : Option Outlined := o.nodes.find? (·.name == name)

/-- The link that leaves a slot. -/
def link? (o : Outline) (parent : Name) (slot : String) : Option NamedLink :=
  o.links.find? fun l => l.parent == parent && l.slot == slot

/-- The node that links to a node. -/
def parent? (o : Outline) (name : Name) : Option Name := o.parents.lookup name

/-- The node links to another one. -/
def hasLink (o : Outline) (name : Name) : Bool := o.holders.contains name

/-- A node is met on the way up from another one; `fuel` bounds the way. -/
def isAboveFrom (o : Outline) (name : Name) : Nat → Option Name → Bool
  | 0, _ => false
  | _, none => false
  | fuel + 1, some below => below == name || o.isAboveFrom name fuel (o.parent? below)

/-- A node is another one, or above it. What links to nothing is above nothing. -/
def isAbove (o : Outline) (name below : Name) : Bool :=
  below == name || (o.hasLink name && o.isAboveFrom name (o.parents.length + 1) (some below))

/-- The outline with one link more. -/
def addLink (o : Outline) (link : NamedLink) : Outline :=
  { o with
    links := link :: o.links
    parents := (link.child, link.parent) :: o.parents
    holders := link.parent :: o.holders }

/-- The outline with the link of a slot taken away. -/
def removeLink (o : Outline) (link : NamedLink) : Outline :=
  { o with
    links := o.links.filter fun l => !(l.parent == link.parent && l.slot == link.slot)
    parents := o.parents.filter (·.1 != link.child)
    holders := o.holders.erase link.parent }

/-- The outline with the fields of a node replaced. -/
def setFields (o : Outline) (name : Name) (fields : Dict String) : Outline :=
  { o with nodes := o.nodes.map fun n => if n.name = name then { n with fields } else n }

/-- The outline after one entry. -/
def step (o : Outline) (entry : Entry) : Except Error Outline :=
  let refuse {α : Type} (fault : EntryFault) : Except Error α := .error (.entry entry fault)
  let require (id : NodeId) : Except Error Outlined :=
    match o.node? id.name with
    | some node => .ok node
    | none => refuse (.unknownNode id)
  match entry with
  | .create node =>
    if (o.node? node.id.name).isSome then refuse .idExists
    else .ok { o with nodes := ⟨node.id.name, node.kind, node.content.fields⟩ :: o.nodes }
  | .delete id _ _ => do
    discard (require id)
    if (o.parent? id.name).isSome || o.hasLink id.name then refuse .stillLinked
    else .ok { o with nodes := o.nodes.filter (·.name != id.name) }
  | .addLink link => do
    let parent ← require link.parent
    discard (require link.child)
    if link.slot ≠ nextName ∧ parent.kind.slot? ≠ some link.slot then
      refuse (.noSlot parent.kind link.slot)
    else if (o.link? link.parent.name link.slot).isSome then refuse .slotOccupied
    else if (o.parent? link.child.name).isSome then refuse .alreadyLinked
    else if o.isAbove link.child.name link.parent.name then refuse .cycle
    else .ok (o.addLink link.named)
  | .removeLink link =>
    if o.link? link.parent.name link.slot ≠ some link.named then refuse .linkAbsent
    -- A node linked to from two places loses both its parents with the first link that goes.
    else if (o.parent? link.child.name).isNone then .error (.unknownId link.child)
    else .ok (o.removeLink link.named)
  | .changeField change => do
    let node ← require change.node
    if node.fields.get? change.name ≠ change.old then refuse .fieldDiffers
    else
      .ok (o.setFields change.node.name (match change.new with
        | some value => node.fields.insert change.name value
        | none => node.fields.erase change.name))
  | .other _ => refuse .unknownEntry

/-- The outline after a run of entries; the first one that cannot be replayed is refused. -/
def replay (o : Outline) : List Entry → Except Error Outline
  | [] => .ok o
  | entry :: rest => do (← o.step entry).replay rest

end Outline

namespace Model

/-- The links that leave a node. -/
def linksOf (m : Model) (k : Key) : List NamedLink :=
  let n := m.node k
  [Edge.child, Edge.next].filterMap fun edge =>
    (n.target? edge).map fun target => ⟨n.id.name, n.edgeName edge, (m.node target).id.name⟩

/-- The outline of a model. -/
def outline (m : Model) : Outline :=
  let order := m.order.reverse
  let links := order.flatMap fun k => (m.linksOf k).reverse
  { nodes := order.map fun k => ⟨(m.node k).id.name, (m.node k).kind, (m.node k).fields⟩
    links := links
    parents := links.map fun l => (l.child, l.parent)
    holders := links.map (·.parent) }

end Model

end DocSync
