import DocSync.Change.Outline
import DocSync.Model.Host

/-!
The replay of entries on a live model. All of them are checked first; then each is one edit of the
model and leaves the entry that takes it back.
-/

namespace DocSync

/-- Entries that have been replayed, and those that take them back, in the same order. -/
structure Applied where
  entries : List Entry := []
  inverses : List Entry := []
  deriving DecidableEq, Inhabited

namespace Host

variable {σ : Type} (h : Host Error σ)

/-- The node of an id in the model as it stands. -/
def lookup (id : NodeId) : EStateM Error σ Key := do
  match (← h.current).find? id with
  | some k => return k
  | none => throw (.unknownId id)

/-- The replay of one entry. What a deletion needs to be taken back is read off the live node. -/
def applyEntry (entry : Entry) : EStateM Error σ Entry := do
  let inverse := entry.inverse?.getD entry
  match entry with
  | .create node =>
    discard (h.createNode (some node.id) node.kind node.content)
    return inverse
  | .delete id _ _ =>
    let k ← h.lookup id
    let node := (← h.current).node k
    h.deleteNode k
    return .create ⟨node.id, node.kind, node.toContent⟩
  | .addLink link =>
    let parent ← h.lookup link.parent
    let child ← h.lookup link.child
    h.link parent link.slot child
    return inverse
  | .removeLink link =>
    let parent ← h.lookup link.parent
    discard (h.unlink parent link.slot)
    return inverse
  | .changeField change =>
    let k ← h.lookup change.node
    h.setField k change.name change.new
    return inverse
  | .other _ => throw (.entry entry .unknownEntry)

/-- The replay of entries, in order, if all of them can be replayed. -/
def applyEntries (entries : List Entry) : EStateM Error σ Applied := do
  match (← h.current).outline.replay entries with
  -- Nothing has been changed yet.
  | .error e => throw e
  | .ok _ => return { entries := entries, inverses := ← entries.mapM h.applyEntry }

/-- What was replayed taken back, the last entry first. -/
def undo (applied : Applied) : EStateM Error σ Applied := h.applyEntries applied.inverses.reverse

end Host

end DocSync
