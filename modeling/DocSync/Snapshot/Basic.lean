import DocSync.Assoc
import DocSync.Digest.Sha256
import DocSync.Json.Writer
import DocSync.Model.Forest
import DocSync.Sorting
import DocSync.Text.Lines

/-!
Snapshots: a model as a list of records that two sides can compare. Formatting is left out, and
every node goes by a label, the line on which the snapshot's text first mentions it together with
its kind, so that two models of one shape have one snapshot whatever their ids.
-/

namespace DocSync

/-- One node as a snapshot shows it: with labels for ids, or first with names. -/
structure Record (ι : Type) where
  id : ι
  kind : Kind
  fields : Dict String := .empty
  /-- The head of the chain in the node's slot. -/
  head : Option ι := none
  next : Option ι := none
  deriving DecidableEq, Inhabited

/-- A renaming: each name with the one that replaces it. -/
abbrev Renaming := List (String × String)

/-- The name that replaces a name; a name that is not mentioned stays. -/
def Renaming.apply (names : Renaming) (name : String) : String :=
  (names.lookup name).getD name

namespace Record

variable {ι κ : Type}

/-- The node's slots, each with the node it leads to. -/
def slots (r : Record ι) : List (String × Option ι) :=
  match r.kind.slot? with
  | some slot => [(slot, r.head)]
  | none => []

/-- The record as JSON, its members in order of name. -/
def toJson (r : Record String) : Json :=
  .obj
    [("fields", .ofDict .str r.fields), ("id", .str r.id), ("next", .ofText? r.next),
     ("slots", .obj (r.slots.map fun slot => (slot.1, .ofText? slot.2))),
     ("type", .str r.kind.name)]

/-- The links that leave the node, the one to its sibling last. -/
def links (r : Record String) : List (String × String × String) :=
  (r.slots.filterMap fun slot => slot.2.map fun child => (r.id, slot.1, child)) ++
    (r.next.map fun next => (r.id, nextName, next)).toList

/-- The record with every id replaced. -/
def replaceIds (replace : ι → κ) (r : Record ι) : Record κ where
  id := replace r.id
  kind := r.kind
  fields := r.fields
  head := r.head.map replace
  next := r.next.map replace

/-- The record with labels replaced. -/
def rename (names : Renaming) (r : Record String) : Record String := r.replaceIds names.apply

/-- What stands in the place of an id where only positions count. -/
def mask : String := "#"

/-- The record with every id masked. -/
def masked (r : Record String) : Record String := r.replaceIds fun _ => mask

/-- How many lines an object of so many one-line members takes. -/
def linesOf (members : Nat) : Nat := if members = 0 then 1 else members + 2

/-- The ids a record mentions, each with its line, where the record starts on the given line:
its bracket comes first, then the fields, its id, its sibling, and its slots. -/
def mentions (start : Nat) (r : Record ι) : List (ι × Nat) :=
  let idLine := start + 1 + linesOf r.fields.entries.length
  (r.id, idLine) :: (r.next.map fun next => (next, idLine + 1)).toList ++
    (r.slots.filterMap fun slot => slot.2.map fun child => (child, idLine + 3))

/-- The number of lines a record takes. -/
def height (r : Record ι) : Nat := linesOf r.fields.entries.length + linesOf r.slots.length + 5

end Record

/-- The ids that records mention, each with its line, where the first record starts on the given
line. -/
def mentionsFrom {ι : Type} : Nat → List (Record ι) → List (ι × Nat)
  | _, [] => []
  | start, r :: rest => r.mentions start ++ mentionsFrom (start + r.height) rest

/-- A model's records, and the id behind each label. -/
structure Snapshot where
  records : List (Record String) := []
  ids : List (String × NodeId) := []
  deriving DecidableEq, Inhabited

namespace Snapshot

/-- The lines of the snapshot's text. -/
def lines (s : Snapshot) (indent : Option Json.Indent) : List String :=
  (Json.arr (s.records.map Record.toJson)).linesWith indent

/-- The snapshot's text. -/
def text (s : Snapshot) (indent : Option Json.Indent) : String := "\n".intercalate (s.lines indent)

/-- The digest of the snapshot's text. -/
def digest (s : Snapshot) (indent : Option Json.Indent) : String :=
  Digest.Sha256.digest (s.text indent)

/-- The lines of the snapshot's text with every id masked. An indentation by a text may bring in
ends of lines of its own. -/
def maskedLines (s : Snapshot) (indent : Option Json.Indent) : List String :=
  let value := Json.arr (s.records.map fun r => r.masked.toJson)
  match indent with
  | some (.text _) => (Text.lines (value.write indent).toList).map String.ofList
  | _ => value.linesWith indent

/-- Every link, in the order of the records. -/
def links (s : Snapshot) : List (String × String × String) := s.records.flatMap Record.links

/-- The record under a label; of two with one label the later counts. -/
def record? (s : Snapshot) (label : String) : Option (Record String) :=
  s.records.reverse.find? (·.id == label)

/-- The id behind a label. -/
def id? (s : Snapshot) (label : String) : Option NodeId := s.ids.lookup label

/-- The snapshot with labels replaced. -/
def rename (names : Renaming) (s : Snapshot) : Snapshot where
  records := s.records.map (Record.rename names)
  ids := s.ids.foldl (fun ids entry => Assoc.set (names.apply entry.1) entry.2 ids) []

/-- The label of each record, by its name. -/
def labelsOf (records : List (Record Name)) : List (Name × String) :=
  -- The first line is the bracket around all records.
  let mentioned := mentionsFrom 2 records
  let label (r : Record Name) : String :=
    toString ((mentioned.lookup r.id).getD 0) ++ "|" ++ r.kind.name
  -- Of two nodes with one name, which only a failed edit leaves behind, the later gives the kind.
  records.foldl (fun labels r => Assoc.set r.id (label r) labels) []

end Snapshot

namespace Model

/-- A node as a record that goes by the node's own name. -/
def record (m : Model) (k : Key) : Record Name :=
  let n := m.node k
  let nameOf (k : Key) : Name := (m.node k).id.name
  { id := n.id.name, kind := n.kind, fields := n.fields, head := n.head.map nameOf,
    next := n.next.map nameOf }

/-- The nodes in the order of a snapshot: the smaller trees at top level come first. -/
def canonicalOrder (m : Model) : List Key :=
  -- Trees of one size keep the order of the document.
  (stableSort (fun a b => m.descendantCount a ≤ m.descendantCount b) m.roots).flatMap
    m.subtreeAndNext

/-- The snapshot of a model. -/
def snapshot (m : Model) : Snapshot :=
  let order := m.canonicalOrder
  let raw := order.map m.record
  let labels := Snapshot.labelsOf raw
  -- Of two nodes with one name the earlier gives the spelling.
  let spelled := order.map fun k => ((m.node k).id.name, (m.node k).id)
  { records := raw.map (Record.replaceIds fun name => (labels.lookup name).getD "")
    ids := labels.filterMap fun (name, label) => (spelled.lookup name).map fun id => (label, id) }

/-- The snapshot of a model, provided that the settings let it be written. -/
def snapshotUnder (config : Config) (m : Model) : Except Misfit Snapshot :=
  config.givenSnapshotIndent.map fun _ => m.snapshot

end Model

end DocSync
