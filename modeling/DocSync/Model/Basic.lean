import DocSync.Model.Frame
import DocSync.Model.NodeId
import DocSync.Model.Origin

/-!
The node model: cells in an arena, linked to a first child and a next sibling, with the links back
kept beside them. A cell is never reused, so a key names one node for good, also after the node has
been destroyed or another one has taken over its id.
-/

namespace DocSync

/-- What a node holds apart from its identity and its links. -/
structure Content where
  fields : Dict String := .empty
  frames : Dict Frame := .empty
  origin : Option Origin := none
  deriving DecidableEq, Inhabited

/-- The place of a node in the arena. -/
abbrev Key := Nat

/-- The two links that a node may hold. -/
inductive Edge where
  /-- From a node to the head of the chain in its slot. -/
  | child
  /-- From a node to its next sibling. -/
  | next
  deriving DecidableEq, Repr, Inhabited

/-- One node: its content, its links, and the links that lead back from it. -/
structure Node extends Content where
  id : NodeId
  kind : Kind
  /-- The head of the chain in the node's slot. -/
  head : Option Key := none
  /-- The next sibling. -/
  next : Option Key := none
  /-- The node that links here, and by which link. -/
  parent : Option (Key × Edge) := none
  /-- The node whose slot holds this node's chain; none in a chain at top level. -/
  owner : Option Key := none
  /-- Whether the model still holds the node. -/
  live : Bool := true
  deriving DecidableEq, Inhabited

/-- A document under edit: its nodes, those at top level in document order, and the text around
them. -/
structure Model where
  nodes : Array Node := #[]
  roots : List Key := []
  leading : String := ""
  trailing : String := ""
  /-- The fingerprint of the text the model was read from. -/
  sourceHash : Option String := none
  /-- What a stored model gave in place of the texts around it or the fingerprint. -/
  strays : Strays := []
  deriving DecidableEq, Inhabited

/-- The node's first field that can stand for it: its key, or else its value. -/
def Node.label (n : Node) : String :=
  let field (name : String) := (n.fields.get? name).getD ""
  if (field keyField).isEmpty then field valueName else field keyField

/-- A node in one short line: its kind, the start of its id, and its label. Only a text has a
start. -/
def Node.summary? (n : Node) : Option String :=
  match n.id with
  | .text id =>
    let label := if n.label.isEmpty then "" else ", " ++ n.label
    let start := Text.quoted (String.ofList (id.toList.take 8))
    some ("Node(" ++ n.kind.name ++ ", " ++ start ++ label ++ ")")
  | _ => none

/-- The link's target at a node. -/
def Node.target? (n : Node) : Edge → Option Key
  | .child => n.head
  | .next => n.next

/-- The name under which the link is known at a node. -/
def Node.edgeName (n : Node) : Edge → String
  | .child => n.kind.slot?.getD ""
  | .next => nextName

/-- The link of a name at a node, if the node has such a link. -/
def Node.edge? (n : Node) (name : String) : Option Edge :=
  if name = nextName then some .next
  else if n.kind.slot? = some name then some .child
  else none

/-- A node with a link led to another target. -/
def Node.retarget (n : Node) (edge : Edge) (target : Option Key) : Node :=
  match edge with
  | .child => { n with head := target }
  | .next => { n with next := target }

namespace Model

/-- The node of a key. -/
def node (m : Model) (k : Key) : Node := m.nodes.getD k default

/-- The number of nodes the model holds. -/
def size (m : Model) : Nat := m.nodes.foldl (fun n node => if node.live then n + 1 else n) 0

/-- The key of the node the model holds under a name. -/
def named? (m : Model) (name : Name) : Option Key :=
  m.nodes.findIdx? fun node => node.live && node.id.name == name

/-- The key of the node the model holds under an id, or another id of the same name. -/
def find? (m : Model) (id : NodeId) : Option Key := m.named? id.name

/-- The model with one node changed. -/
def update (m : Model) (k : Key) (change : Node → Node) : Model :=
  { m with nodes := m.nodes.modify k change }

/-- The nodes from one on along `next`; `fuel` bounds their number. -/
def chainFrom (m : Model) : Nat → Option Key → List Key
  | 0, _ => []
  | _, none => []
  | fuel + 1, some k => k :: m.chainFrom fuel (m.node k).next

/-- A node and its following siblings. -/
def chain (m : Model) (k : Key) : List Key := m.chainFrom m.nodes.size (some k)

/-- The chain in a node's slot. -/
def children (m : Model) (k : Key) : List Key := m.chainFrom m.nodes.size (m.node k).head

/-- The chain in the slot of a name; a node has no other slot than that of its kind. -/
def childrenAt (m : Model) (k : Key) (slot : String) : List Key :=
  if (m.node k).kind.slot? = some slot then m.children k else []

/-- The top-level node above a node, found by leaps from a chain to the node that owns it. -/
def topFrom (m : Model) : Nat → Key → Key
  | 0, k => k
  | fuel + 1, k =>
    match (m.node k).parent with
    | none => k
    | some (above, _) => m.topFrom fuel ((m.node k).owner.getD above)

/-- The top-level node above a node; a node at top level is its own. -/
def top (m : Model) (k : Key) : Key := m.topFrom m.nodes.size k

/-- The name of the slot that holds a node's chain, with its owner. -/
def container? (m : Model) (k : Key) : Option (Key × String) :=
  (m.node k).owner.map fun owner => (owner, (m.node owner).edgeName .child)

/-- The indent of the nearest slot around a node that has a frame stored, as it was given. -/
def contextIndentFrom (m : Model) : Nat → Key → Json
  | 0, _ => .str ""
  | fuel + 1, k =>
    match m.container? k with
    | none => .str ""
    | some (owner, slot) =>
      match (m.node owner).frames.get? slot with
      | some frame => frame.givenIndent
      | none => m.contextIndentFrom fuel owner

/-- The indent that generated text at a node continues, as it was given. -/
def contextIndent (m : Model) (k : Key) : Json := m.contextIndentFrom m.nodes.size k

/-- The frame of a slot: the stored one, or else one generated for the node's place. -/
def frame (m : Model) (config : Config) (k : Key) (slot : String) : Except Misfit Frame :=
  match (m.node k).frames.get? slot with
  | some frame => .ok frame
  | none => Frame.generatedUnder config (m.node k).kind (m.contextIndent k)

/-- The text before the top level, as it was given. -/
def givenLeading (m : Model) : Json := (m.strays.lookup "leading").getD (.str m.leading)

/-- The text after the top level, as it was given. -/
def givenTrailing (m : Model) : Json := (m.strays.lookup "trailing").getD (.str m.trailing)

/-- The model with something else around its top level. -/
def setEdges (m : Model) (leading trailing : Json) : Model :=
  let given := [("leading", leading), ("trailing", trailing)]
  { m with
    leading := leading.text?.getD ""
    trailing := trailing.text?.getD ""
    strays :=
      (m.strays.filter fun member => (given.lookup member.1).isNone) ++
        given.filter fun member => member.2.text?.isNone }

end Model

end DocSync
