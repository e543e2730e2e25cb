import DocSync.Change.Diff
import DocSync.Digest.Fingerprint
import DocSync.Json.Alike
import DocSync.Patch.Draft
import DocSync.Render.Source

/-!
From an edit of the model to an edit of the text. Splices are derived from the spans of the model
that the text was read into: a changed field replaces its span, and in a chain that changed the
siblings that came or went are replaced gap by gap between those that stayed. Where that cannot be
done the whole document is written anew.
-/

namespace DocSync

/-- What a patch is planned from. -/
structure PatchTask where
  config : Config
  text : String
  /-- The model read from the text. -/
  read : Model
  /-- The edited model. -/
  live : Model
  /-- What turns the one into the other. -/
  changes : ChangeSet

/-- The outcome of patching a text. -/
structure Patch where
  text : String
  splices : List Splice
  /-- The drafts that the splices were settled from, where some bound is no position. -/
  drafts : List Draft := []
  fullRender : Bool := false
  /-- Why the whole document was written anew. -/
  reason : Option String := none
  deriving DecidableEq, Repr, Inhabited

namespace PatchTask

variable (t : PatchTask)

/-- The node of an id in a model. -/
def nodeIn (m : Model) (id : NodeId) : Except Error Key :=
  match m.find? id with
  | some k => .ok k
  | none => .error (.unknownId id)

/-- A node of the read model stayed. -/
def stayed (k : Key) : Bool := (t.changes.newId? (t.read.node k).id).isSome

/-- The node of the live model that a node of the read model became. -/
def becameOf (k : Key) : Except Error Key :=
  let id := (t.read.node k).id
  match t.changes.newId? id with
  | some newId => nodeIn t.live newId
  | none => .error (.unknownId id)

/-- Where a node was read, if its spans measure this very text. -/
def originOf (k : Key) : Except Error Origin :=
  let node := t.read.node k
  match node.origin with
  | none => .error (.stale node.id .noSpan)
  | some origin =>
    if origin.sourceHash = some (Digest.fingerprint t.text) then .ok origin
    else .error (.stale node.id .olderText)

/-- No node at top level came or went. -/
def checkTopLevel : Except Error Unit := do
  t.changes.deletions.forM fun node => do
    let k ← nodeIn t.read node.id
    if (t.read.node k).owner.isNone then throw (.conflict (.topLevelDeleted node.id))
  t.changes.creations.forM fun node => do
    let k ← nodeIn t.live node.id
    if (t.live.node k).owner.isNone then throw (.conflict (.topLevelCreated node.id))

/-- What a changed field asks for: a splice of its span, or else its node shown anew. -/
def fieldEdit (change : FieldChange) : Except Error (Draft ⊕ Key) := do
  -- Only a field that is there before and after, and whose span is known, can be spliced.
  let k ← nodeIn t.read change.node
  let origin ← t.originOf k
  match change.old, change.new, origin.fieldSpans.get? change.name with
  | some _, some value, some span => return .inl ⟨span.givenStart, span.givenStop, value⟩
  | _, _, _ => return .inr k

/-- The slot whose chain a link belongs to; a chain at top level has none. -/
def slotOf (m : Model) (parent : Key) (slot : String) : Except Error (Key × String) :=
  if slot = nextName then
    match m.container? parent with
    | some owner => .ok owner
    | none => .error (.conflict .topLevelChain)
  else .ok (parent, slot)

/-- The slot of the read model from which a link was removed, if its node stayed. -/
def slotRemovedFrom (link : Link) : Except Error (Option (Key × String)) := do
  let (owner, slot) ← slotOf t.read (← nodeIn t.read link.parent) link.slot
  return if t.stayed owner then some (owner, slot) else none

/-- The slot of the read model to which a link was added, if its node stayed. -/
def slotAddedTo (link : Link) : Except Error (Option (Key × String)) := do
  -- The change set names nodes that stayed by their old ids.
  let parent ← nodeIn t.live ((t.changes.newId? link.parent).getD link.parent)
  let (owner, slot) ← slotOf t.live parent link.slot
  match t.changes.oldId? (t.live.node owner).id with
  | none => return none
  | some id => return some (← nodeIn t.read id, slot)

/-- The slots of the read model whose chains changed. -/
def affectedSlots : Except Error (List (Key × String)) := do
  let removed ← t.changes.removedLinks.mapM t.slotRemovedFrom
  let added ← t.changes.addedLinks.mapM t.slotAddedTo
  return ((removed ++ added).filterMap id).eraseDups

/-- A chain split into the runs before, between and behind its anchors. -/
def gaps (isAnchor : Key → Bool) : List Key → List (List Key)
  | [] => [[]]
  | k :: rest =>
    match gaps isAnchor rest with
    | [] => [[]]
    | run :: runs => if isAnchor k then [] :: run :: runs else (k :: run) :: runs

/-- One gap of a chain: the siblings that stayed on either side of it, those that went, and those
that came. -/
structure Gap where
  before : Option Key
  after : Option Key
  deleted : List Key
  created : List Key

/-- The gaps of a chain, given its anchors and what went and came between them. -/
def gapsOf (before : Option Key) : List Key → List (List Key) → List (List Key) → List Gap
  | anchors, deleted :: deletedRuns, created :: createdRuns =>
    ⟨before, anchors.head?, deleted, created⟩ ::
      gapsOf anchors.head? anchors.tail deletedRuns createdRuns
  | _, _, _ => []

/-- A bound of a region of the text moved by the length of what stands in the region. -/
def moved (bound what : Json) (sign : Int) : Except Misfit Json :=
  match bound.number?, what.size? with
  | some position, some size => .ok (.ofNumeric (position.add (.whole (sign * size))))
  | _, _ => .error .noSum

/-- The splice of a gap, given the separator and the text of what came. -/
def gapSplice (owner : Key) (slot : String) (frame : Frame) (gap : Gap)
    (separator shown : String) : Except Error Draft := do
  -- The anchor before a gap is preferred, so what comes at the end keeps its separator in front.
  let come := !gap.created.isEmpty
  match gap.before, gap.after with
  | some before, _ =>
    let start := (← t.originOf before).span.givenStop
    let stop ← match gap.deleted.getLast? with
      | some last => do pure (← t.originOf last).span.givenStop
      | none => pure start
    return ⟨start, stop, if come then separator ++ shown else ""⟩
  | none, some after =>
    let stop := (← t.originOf after).span.givenStart
    let start ← match gap.deleted.head? with
      | some first => do pure (← t.originOf first).span.givenStart
      | none => pure stop
    return ⟨start, stop, if come then shown ++ separator else ""⟩
  | none, none =>
    match (← t.originOf owner).slotSpans.get? slot with
    | none => throw (.stale (t.read.node owner).id (.noSlotSpan slot))
    | some region =>
      -- A chain without anchors is replaced between the brackets.
      let fit {α : Type} (result : Except Misfit α) : Except Error α := result.mapError .misfit
      let stop ← fit (moved region.givenStop frame.givenClosing (-1))
      let opening ← if come then pure frame.givenOpening else fit frame.openingWhenEmpty
      let start ← fit (moved region.givenStart opening 1)
      return ⟨start, stop, if come && frame.trailing then shown ++ separator else shown⟩

/-- A node of the live model as text. -/
def liveText (k : Key) : Except Error String :=
  (t.live.renderSubtree t.config k).mapError .ofRender

/-- The splices of a slot whose chain changed. What stayed must have kept its order. -/
def slotSplices (owner : Key) (slot : String) : Except Error (List Draft) := do
  let liveOwner ← t.becameOf owner
  let oldChain := t.read.childrenAt owner slot
  let newChain := t.live.childrenAt liveOwner slot
  let oldId? (k : Key) := t.changes.oldId? (t.live.node k).id
  let anchors := oldChain.filter t.stayed
  let kept := (newChain.filterMap oldId?).map NodeId.name
  if anchors.map (fun k => (t.read.node k).id.name) ≠ kept then
    throw (.conflict (.siblingsMoved (t.read.node owner).id slot))
  let frame ← (t.read.frame t.config owner slot).mapError .misfit
  let all := gapsOf none anchors (gaps t.stayed oldChain)
    (gaps (fun k => (oldId? k).isSome) newChain)
  let changed := all.filter fun gap => !(gap.deleted.isEmpty && gap.created.isEmpty)
  changed.mapM fun gap => do
    let some separator := frame.givenSeparator.text? | throw (.misfit .noText)
    let shown ← gap.created.mapM t.liveText
    t.gapSplice owner slot frame gap separator (separator.intercalate shown)

/-- The splice of a node that is shown anew, and the span it covers. -/
def wholeNode (k : Key) : Except Error (Draft × Span) := do
  let span := (← t.originOf k).span
  return (⟨span.givenStart, span.givenStop, ← t.liveText (← t.becameOf k)⟩, span)

/-- The splice of a text beside the document, if the text differs. -/
def edgeSplice (read live : Json) (place : Nat → Int × Int) : Except Error (List Draft) :=
  if read.alike live then return []
  else
    match read.size?, live with
    | some size, .str text =>
      let (start, stop) := place size
      return [⟨.int start, .int stop, text⟩]
    | _, _ => throw (.misfit .noSum)

/-- The splices of the text around the document. -/
def edgeSplices : Except Error (List Draft) := do
  let stop : Int := t.text.length
  let leading ← edgeSplice t.read.givenLeading t.live.givenLeading fun size => (0, size)
  let trailing ← edgeSplice t.read.givenTrailing t.live.givenTrailing fun size =>
    (stop - size, stop)
  return leading ++ trailing

/-- The splices that carry the changes over to the text. -/
def plan : Except Error SplicePlan := do
  if t.read.sourceHash ≠ some (Digest.fingerprint t.text) then throw (.stale none .otherText)
  t.checkTopLevel
  -- The splices may come in any order, but the first thing that fails decides the reason.
  let edits ← t.changes.fieldChanges.mapM t.fieldEdit
  let slots ← (← t.affectedSlots).mapM fun (owner, slot) => t.slotSplices owner slot
  let renewed := (edits.filterMap fun edit => edit.getRight?).eraseDups
  let whole ← renewed.mapM t.wholeNode
  let edges ← t.edgeSplices
  Draft.settle t.text.length
    ((edits.filterMap fun edit => edit.getLeft?) ++ slots.flatten ++ whole.map Prod.fst ++ edges)
    (whole.map Prod.snd)

/-- The whole document written anew. -/
def renderWhole (reason : Error) : Except Error Patch := do
  let text ← (t.live.render t.config).mapError .ofRender
  return {
    text := text
    splices := [⟨0, t.text.length, text⟩]
    fullRender := true
    reason := some reason.message }

/-- The text with the changes carried over. Where no splices can be had the document is written
anew, if that is allowed. -/
def patch : Except Error Patch :=
  match t.plan with
  | .ok plan => .ok
      { text := Splice.applyAll t.text plan.splices, splices := plan.splices
        drafts := plan.drafts }
  | .error e =>
    match e with
    | .stale .. | .conflict _ => if t.config.allowFullRender then t.renderWhole e else .error e
    | _ => .error e

end PatchTask

end DocSync
