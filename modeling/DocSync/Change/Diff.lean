import DocSync.Change.Entry
import DocSync.Snapshot.Identity

/-!
The change set between two snapshots whose labels agree, and the whole pass from two models to the
change set that turns one into the other.
-/

namespace DocSync

namespace ChangeSet

/-- The id behind a label: the old side's where it knows the label. -/
def liveId (old new : Snapshot) (label : String) : NodeId :=
  ((old.id? label).orElse fun _ => new.id? label).getD .null

/-- The node of a label, with the frames and the origin it has in the model behind the snapshot. -/
def specimen (s : Snapshot) (model : Option Model) (label : String) : Specimen :=
  let record := (s.record? label).getD default
  let id := (s.id? label).getD .null
  let found := model.bind fun m => (m.find? id).map m.node
  { id := id
    kind := record.kind
    content :=
      { fields := record.fields
        frames := (found.map (·.frames)).getD .empty
        origin := found.bind (·.origin) } }

/-- A labelled link between nodes of the live model. -/
def liveLink (old new : Snapshot) (link : String × String × String) : Link where
  parent := liveId old new link.1
  slot := link.2.1
  child := liveId old new link.2.2

/-- The fields that differ, in order of name. -/
def fieldsChanged (id : NodeId) (old new : Dict String) : List FieldChange :=
  (Dict.ofList (old.entries ++ new.entries)).keys.filterMap fun name =>
    if old.get? name = new.get? name then none
    else some ⟨id, name, old.get? name, new.get? name⟩

/-- The difference of two snapshots that label what they share alike. With the models behind them,
nodes carry their frames and origins. -/
def between (old new : Snapshot) (oldModel newModel : Option Model) : ChangeSet :=
  -- Labels and links are compared as sets, and listed in the order of their own side.
  let oldLabels := old.records.map (·.id)
  let newLabels := new.records.map (·.id)
  let shared := newLabels.filter oldLabels.contains
  let fields (s : Snapshot) (label : String) := ((s.record? label).getD default).fields
  let id (s : Snapshot) (label : String) := (s.id? label).getD .null
  { removedLinks := (old.links.filter fun l => !new.links.contains l).map (liveLink old new)
    deletions := (oldLabels.filter fun l => !newLabels.contains l).map (specimen old oldModel)
    creations := (newLabels.filter fun l => !oldLabels.contains l).map (specimen new newModel)
    addedLinks := (new.links.filter fun l => !old.links.contains l).map (liveLink old new)
    fieldChanges := shared.flatMap fun l => fieldsChanged (id old l) (fields old l) (fields new l)
    idMap := shared.map fun l => (id new l, id old l) }

/-- The old model's id of a node of the new one, if they share it. -/
def oldId? (c : ChangeSet) (newId : NodeId) : Option NodeId := newId.lookup? c.idMap

/-- The new model's id of a node of the old one, if they share it. -/
def newId? (c : ChangeSet) (oldId : NodeId) : Option NodeId :=
  (c.idMap.find? (·.2.name == oldId.name)).map Prod.fst

end ChangeSet

/-- The change set that turns one model into another. Without `withModels` its nodes carry neither
frames nor origins. -/
def reconcile (config : Config) (old new : Model) (withModels : Bool := true) :
    Except Error ChangeSet := do
  let snapshot (m : Model) : Except Error Snapshot := (m.snapshotUnder config).mapError .misfit
  let target ← snapshot new
  let stable ← (← snapshot old).stabilize config target
  let behind (m : Model) := if withModels then some m else none
  return .between stable target (behind old) (behind new)

end DocSync
