import DocSync.Model.Edit
import DocSync.Model.Forest

/-!
Edits inside a host: something that keeps a model, hands out fresh ids, and hears of every change
while it happens. What a host does on hearing of a change may itself change the model or fail, so a
composite edit reads the model anew before each of its steps.
-/

namespace DocSync

/-- The fresh id that a count stands for. -/
def freshId (supply : Nat) : NodeId := .text ("n" ++ toString supply)

/-- What keeps a model, in a state `σ` where failures are `ε`. -/
structure Host (ε σ : Type) where
  model : σ → Model
  withModel : σ → Model → σ
  /-- How many fresh ids have been handed out. -/
  supply : σ → Nat
  withSupply : σ → Nat → σ
  refusal : EditError → ε
  notify : Event → EStateM ε σ Unit

namespace Host

variable {ε σ α : Type} (h : Host ε σ)

/-- The model as it stands. -/
def current : EStateM ε σ Model := fun s => .ok (h.model s) s

/-- An edit of the host's model. -/
def edit (change : Edit α) : EStateM ε σ α := fun s =>
  match change (h.model s) with
  | .ok a m => .ok a (h.withModel s m)
  | .error e m => .error (h.refusal e) (h.withModel s m)

/-- An id that the host has not handed out before. -/
def newId : EStateM ε σ NodeId := fun s =>
  let count := h.supply s + 1
  .ok (freshId count) (h.withSupply s count)

/-- A new top-level node; without an id, or with a void one, it is given a fresh id. -/
def createNode (id : Option NodeId) (kind : Kind) (content : Content) : EStateM ε σ Key := do
  let given := id.getD .null
  let id ← if given.isVoid then h.newId else pure given
  let (key, event) ← h.edit (Model.createNode id kind content)
  h.notify event
  return key

/-- A node that is linked nowhere taken out of the model. -/
def deleteNode (k : Key) : EStateM ε σ Unit := do
  h.notify (← h.edit (Model.deleteNode k))

/-- The refusal of a node that belongs to no model. -/
def deleteForeign (id : NodeId) : EStateM ε σ Unit := do
  h.notify (← h.edit (Model.deleteForeign id))

/-- A top-level node attached to a slot or behind a sibling. -/
def link (parent : Key) (slot : String) (child : Key) : EStateM ε σ Unit := do
  h.notify (← h.edit (Model.link parent slot child))

/-- The node at a link detached and put at the end of the top level. -/
def unlink (parent : Key) (slot : String) : EStateM ε σ Key := do
  let (child, event) ← h.edit (Model.unlink parent slot)
  h.notify event
  return child

/-- A field set or removed. -/
def setField (k : Key) (name : String) (value : Option String) : EStateM ε σ Unit := do
  h.notify (← h.edit (Model.setField k name value))

/-- A top-level node put into a chain right behind an anchor. -/
def insertAfter (anchor node : Key) : EStateM ε σ Unit := do
  if ((← h.current).node anchor).next.isSome then
    let rest ← h.unlink anchor nextName
    h.link anchor nextName node
    h.link node nextName rest
  else
    h.link anchor nextName node

/-- A top-level node put at the end of a slot's chain. -/
def appendChild (parent : Key) (slot : String) (node : Key) : EStateM ε σ Unit := do
  -- A name that is no slot of the parent is refused by the link itself.
  let m ← h.current
  match (m.childrenAt parent slot).getLast? with
  | none => h.link parent slot node
  | some last => h.link last nextName node

/-- A node taken out of its chain, the gap behind it closed; a top-level node stays as it is. -/
def detach (k : Key) : EStateM ε σ Unit := do
  let m ← h.current
  match (m.node k).parent with
  | none => return
  | some (parent, edge) =>
    -- The node leaves with its following siblings, and these are then led back.
    let slot := (m.node parent).edgeName edge
    discard (h.unlink parent slot)
    if ((← h.current).node k).next.isSome then
      let rest ← h.unlink k nextName
      h.link parent slot rest

/-- The links that leave a node cut: to its next sibling, then to its children. -/
def isolate (k : Key) : EStateM ε σ Unit := do
  if ((← h.current).node k).next.isSome then
    discard (h.unlink k nextName)
  match ((← h.current).node k).kind.slot? with
  | none => return
  | some slot =>
    if ((← h.current).node k).head.isSome then
      discard (h.unlink k slot)

/-- A node detached and destroyed with everything below it. -/
def remove (k : Key) : EStateM ε σ Unit := do
  -- The links are cut from the bottom up, so that every node is free when it is destroyed.
  h.detach k
  let members := (← h.current).subtree k
  members.reverse.forM h.isolate
  members.forM h.deleteNode

end Host

/-- A model on its own: fresh ids are counted up, and the events are kept, latest first. -/
structure Workspace where
  model : Model := {}
  /-- How many fresh ids have been handed out. -/
  supply : Nat := 0
  events : List Event := []
  deriving DecidableEq, Inhabited

namespace Workspace

/-- A workspace whose events are not kept. -/
def silent {ε : Type} (refusal : EditError → ε) : Host ε Workspace where
  model := Workspace.model
  withModel w m := { w with model := m }
  supply := Workspace.supply
  withSupply w count := { w with supply := count }
  refusal := refusal
  notify _ := pure ()

/-- A workspace that keeps its events. -/
def recording {ε : Type} (refusal : EditError → ε) : Host ε Workspace where
  model := Workspace.model
  withModel w m := { w with model := m }
  supply := Workspace.supply
  withSupply w count := { w with supply := count }
  refusal := refusal
  notify event := modify fun w => { w with events := event :: w.events }

end Workspace

end DocSync
