import DocSync.Model.Host
import DocSync.Payload.Record
import DocSync.Sorting

/-!
A model restored from JSON. The nodes come first, each checked as it is made, then the links in
order of their slots, and in the end the top level has to be the one that was stored.
-/

namespace DocSync

namespace Payload

/-- The nodes by the names their records give, latest first. -/
abbrev Known := List (Name × Key)

/-- A step of restoring, with the edits it makes. -/
abbrev Restore := EStateM PayloadError Workspace

/-- The workspace a model is restored in. -/
def host : Host PayloadError Workspace := Workspace.silent .ofEdit

/-- A failure lifted into a step. -/
def lift {α : Type} (result : Except PayloadError α) : Restore α :=
  match result with
  | .ok a => pure a
  | .error e => throw e

/-- The id that a node takes. A void id is replaced by a fresh one. -/
def takeId (value : Json) : Restore NodeId := do
  if value.isVoid then host.newId
  else
    match NodeId.ofJson? value with
    | some id => return id
    | none => throw .badRecord

/-- The nodes known with the node of one more record, without its links. -/
def restoreNode (known : Known) (record : Json) : Restore Known := do
  let idValue ← lift (required "id" record)
  let kind ← lift (readKind ((record.member? "type").getD .null))
  let frames ←
    match record.member? "tokens" with
    | some value => if value.isVoid then pure .empty else lift (dictOf readFrame value)
    | none => pure .empty
  let origin ←
    match optional "meta" record with
    | some value => pure (some (← lift (readOrigin value)))
    | none => pure none
  let id ← takeId idValue
  -- A taken id is refused before the fields are looked at, and shown as this record gives it.
  if ((← host.current).find? id).isSome then throw (.inconsistent id.shown .idExists)
  let fields ← lift (readFields ((record.member? "fields").getD .null))
  let key ← host.createNode (some id) kind { fields, frames, origin }
  match Name.of? idValue with
  | some name => return (name, key) :: known
  | none => throw .badRecord

/-- The nodes of several records. -/
def restoreNodes (known : Known) : List Json → Restore Known
  | [] => return known
  | record :: rest => do restoreNodes (← restoreNode known record) rest

/-- The node that a reference means. -/
def resolve (known : Known) (value : Json) : Except PayloadError Key :=
  match Name.of? value with
  | none => .error .badRecord
  | some name =>
    match known.lookup name with
    | some key => .ok key
    | none => .error (.absent value.shown)

/-- The links of a record: its slots in order of name, and then its sibling. -/
def restoreLinks (known : Known) (record : Json) : Restore Unit := do
  let parent ← lift (resolve known (← lift (required "id" record)))
  let slots ←
    match record.member? "slots" with
    | some value => if value.isVoid then pure [] else lift (membersOf value)
    | none => pure []
  (stableSort (fun a b => a.1 ≤ b.1) slots).forM fun (slot, child) => do
    match child with
    | .null => return
    | _ => host.link parent slot (← lift (resolve known child))
  match optional "next" record with
  | none => return
  | some next => host.link parent nextName (← lift (resolve known next))

/-- All nodes and all links. -/
def restoreAll (records : List Json) : Restore Unit := do
  -- A link may lead to a node whose record comes later.
  let known ← restoreNodes [] records
  records.forM (restoreLinks known)

end Payload

/-- A model restored from JSON. -/
structure Restored where
  model : Model
  /-- How many fresh ids have been handed out. -/
  supply : Nat

namespace Restored

/-- The names of the top-level nodes. -/
def rootNames (r : Restored) : List (Option Name) :=
  r.model.roots.map fun k => some (r.model.node k).id.name

/-- A part of a stored model beside its nodes is of the type it should be. -/
def isModelPart (name : String) (value : Json) : Bool :=
  match name with
  | "leading" | "trailing" => value.text?.isSome
  | "source_hash" => Payload.isTextOrNull value
  | _ => true

/-- How deep the values of a stored text may lie inside one another. -/
def maxDepth : Nat := 991

/-- The model stored in a JSON value, in a workspace that has handed out `supply` ids. -/
def ofJson (value : Json) (supply : Nat) : Except PayloadError Restored := do
  let members ← match value with
    | .obj members => pure members
    | _ => throw .badRoots
  let some nodes := members.lookup "nodes" | throw (.missingList "nodes")
  let some roots := members.lookup "roots" | throw (.missingList "roots")
  let some roots := roots.parts? | throw .badRoots
  let some records := nodes.parts? | throw .badRecord
  let blank : Model :=
    { leading := Payload.textOf "leading" value
      trailing := Payload.textOf "trailing" value
      sourceHash := (value.member? "source_hash").bind Json.text?
      strays := .of isModelPart members }
  match Payload.restoreAll records { model := blank, supply := supply } with
  | .error e _ => throw e
  | .ok _ w =>
    let restored : Restored := { model := w.model, supply := w.supply }
    if restored.rootNames ≠ roots.map Name.of? then throw .rootsDiffer
    -- What fields hold is looked at last.
    else if records.all Payload.hasTextFields then return restored
    else throw .badRecord

/-- The model stored in a text. -/
def ofText (text : String) (supply : Nat) : Except PayloadError Restored :=
  match Json.read maxDepth text with
  | .error fault => .error (.unreadable fault)
  | .ok (.obj members) => ofJson (.obj members) supply
  | .ok value => .error (.notObject value.typeName)

end Restored

end DocSync
