import DocSync.Change.Replay
import DocSync.Json.Alike
import DocSync.Model.Adopt
import DocSync.Model.Build
import DocSync.Patch.Plan
import DocSync.Session.Guard

/-!
A session: a live model and a text kept in step. Passes carry changes across in either direction,
and every change of the live model is heard by the session's observers while it happens.
-/

namespace DocSync

/-- Who hears of the changes of a live model. -/
inductive Observer where
  /-- The session itself. It tells its own replays from edits, and may run a pass after an edit. -/
  | keeper
  /-- A record of every event. -/
  | journal
  /-- Someone who asks for a pass from the model after every event; the number tells several
  apart. -/
  | eager (number : Nat)
  deriving DecidableEq, Repr, Inhabited

/-- A live model, a text, and what is needed to keep them in step. -/
structure Session where
  config : Config := {}
  text : String
  /-- The model read from the text. -/
  read : Model
  /-- The model under edit. -/
  live : Model
  /-- How many fresh ids have been handed out. -/
  supply : Nat := 0
  guard : Guard := {}
  /-- What has been replayed and can be taken back, latest first. -/
  history : List Applied := []
  /-- The live model was edited since the last pass. -/
  dirty : Bool := false
  /-- The last pass that had something to do went through. -/
  synchronized : Bool := true
  /-- Every edit is followed by a pass from the model. -/
  autoSync : Bool := false
  /-- Those who hear of events, in the order in which they hear. -/
  observers : List Observer := [.keeper, .journal]
  /-- The events on record, latest first. -/
  journal : List Event := []
  deriving DecidableEq, Inhabited

/-- How a pass ended. -/
inductive PassStatus where
  | synced
  | unchanged
  | unsynchronized
  deriving DecidableEq, Repr, Inhabited

/-- The status in a word. -/
def PassStatus.name : PassStatus → String
  | synced => "synced"
  | unchanged => "unchanged"
  | unsynchronized => "unsynchronized"

/-- The outcome of a pass: how it ended, what it found to change, why it was given up, and what it
did to the text. -/
structure PassResult where
  status : PassStatus
  changes : Option ChangeSet := none
  error : Option Error := none
  patch : Option Patch := none
  deriving DecidableEq, Inhabited

/-- The pass was not given up. -/
def PassResult.succeeded (r : PassResult) : Bool := r.status ≠ .unsynchronized

/-- A step of a session. The state reached is kept also when the step fails. -/
abbrev SessionStep := EStateM Error Session

namespace Session

/-- A session on a text. The model read from the text is built first, the live one second. -/
def create (config : Config) (text : String) (autoSync : Bool) : Except Error Session := do
  let (read, supply) ← Model.build text config.sourceFile 0
  let (live, supply) ← Model.build text config.sourceFile supply
  return { config, text, read, live, supply, autoSync }

/-- Someone more hears of events, after all others. -/
def subscribe (observer : Observer) (s : Session) : Session :=
  { s with observers := s.observers ++ [observer] }

/-- Someone hears of events no more. -/
def unsubscribe (observer : Observer) (s : Session) : Session :=
  { s with observers := s.observers.erase observer }

/-- The session hears of its model's events no more. -/
def close (s : Session) : Session := s.unsubscribe .keeper

/-- A session as the host of its live model. -/
def hostWith (notify : Event → SessionStep Unit) : Host Error Session where
  model := Session.live
  withModel s m := { s with live := m }
  supply := Session.supply
  withSupply s count := { s with supply := count }
  refusal := .edit
  notify := notify

/-- The session hears of an event: an echo is counted off, anything else is an edit. -/
def keep : SessionStep Bool := fun s =>
  let (echo, guard) := s.guard.consume
  if echo then .ok false { s with guard := guard } else .ok true { s with dirty := true }

/-- An event goes on record. -/
def recordEvent (event : Event) : SessionStep Unit :=
  modify fun s => { s with journal := event :: s.journal }

/-- An event while a pass is running. No further pass can begin. -/
def notifyInPass (event : Event) : SessionStep Unit := do
  (← get).observers.forM fun
    | .keeper => discard keep
    | .journal => recordEvent event
    | .eager _ => throw .passRunning

/-- The host for the replays of a pass. -/
def quietHost : Host Error Session := hostWith notifyInPass

/-- A replay under guard: afterwards the count is what it was before, also if the replay fails. -/
def guarded {α : Type} (count : Nat) (replay : SessionStep α) : SessionStep α := fun s =>
  match replay { s with guard := s.guard.enter count } with
  | .ok a s => .ok a { s with guard := s.guard.leave }
  | .error e s => .error e { s with guard := s.guard.leave }

/-- A change set replayed on the live model, to be taken back later. -/
def replay (changes : ChangeSet) : SessionStep Unit := do
  if !changes.isEmpty then
    let applied ← guarded changes.size (quietHost.applyEntries changes.entries)
    modify fun s => { s with history := applied :: s.history }

/-- A result lifted into a step. -/
def lift {α : Type} : Except Error α → SessionStep α
  | .ok a => pure a
  | .error e => throw e

/-- The model of a text, its ids drawn from the session's. -/
def buildModel (text : String) : SessionStep (Except Error Model) := fun s =>
  match Model.build text s.config.sourceFile s.supply with
  | .ok (m, supply) => .ok (.ok m) { s with supply := supply }
  | .error e => .ok (.error e) s

/-- A pass given up. -/
def abandon (error : Error) (changes : Option ChangeSet) : SessionStep PassResult := do
  modify fun s => { s with synchronized := false }
  return { status := .unsynchronized, changes := changes, error := some error }

/-- A text and a fresh parse of it taken over, and the live model's spans with them. -/
def takeOver (text : String) (fresh : Model) (idMap : List (NodeId × NodeId)) :
    SessionStep Unit :=
  modify fun s =>
    { s with
      live := (s.live.adopt fresh idMap).1, text := text, read := fresh, synchronized := true }

/-- The change set from the live model to a fresh parse, replayed. -/
def replayToward (fresh : Model) : SessionStep ChangeSet := do
  let s ← get
  let changes ← lift (reconcile s.config s.live fresh)
  replay changes
  return changes

/-- A pass from the text: an edited text is carried over to the live model. -/
def syncFromText (text : String) : SessionStep PassResult := do
  let s ← get
  if text = s.text ∧ s.synchronized then return { status := .unchanged }
  match ← buildModel text with
  | .error e =>
    -- The text is followed also while it is no document.
    modify fun s => { s with text := text }
    abandon e none
  | .ok fresh =>
    let changes ← tryCatch (replayToward fresh) fun e => do
      if e.isFailure then modify fun s => { s with synchronized := false }
      throw e
    takeOver text fresh changes.idMap
    return { status := if changes.isEmpty then .unchanged else .synced, changes := some changes }

/-- The text with the live model's changes carried over, and a fresh parse of it. -/
def patched (changes : ChangeSet) : SessionStep (Except Error (Patch × Model)) := do
  let s ← get
  let task : PatchTask := ⟨s.config, s.text, s.read, s.live, changes⟩
  match task.patch with
  | .error e =>
    match e with
    | .render _ => return .error e
    | _ => throw e
  | .ok patch => return (← buildModel patch.text).map fun fresh => (patch, fresh)

/-- A pass from the model: edits of the live model are carried over to the text. -/
def syncFromModel : SessionStep PassResult := do
  let s ← get
  -- The text is compared as it was last read, so edits of the model are all that differs.
  let changes ← lift (reconcile s.config s.read s.live)
  let sameEdges :=
    s.live.givenLeading.alike s.read.givenLeading ∧
      s.live.givenTrailing.alike s.read.givenTrailing
  if changes.isEmpty ∧ sameEdges then
    set { s with dirty := false }
    return { status := .unchanged, changes := some changes }
  match ← patched changes with
  | .error e => abandon e (some changes)
  | .ok (patch, fresh) =>
    -- The fresh parse has to match the live model.
    let echo ← replayToward fresh
    takeOver patch.text fresh echo.idMap
    modify fun s => { s with dirty := false }
    return { status := .synced, changes := some changes, patch := some patch }

/-- The latest replay taken back, and the text brought in line. -/
def undo : SessionStep PassResult := do
  let s ← get
  match s.history with
  | [] => return { status := .unchanged }
  | applied :: earlier =>
    -- The replay leaves the history before it is taken back, whether or not that succeeds.
    set { s with history := earlier }
    discard (guarded applied.inverses.length (quietHost.undo applied))
    syncFromModel

/-- An event of an edit, heard outside any pass. -/
def notifyOfEdit (event : Event) : SessionStep Unit := do
  (← get).observers.forM fun
    | .keeper => do
      -- A pass that fails here fails the edit, and the observers after it hear nothing.
      if (← keep) && (← get).autoSync then discard syncFromModel
    | .journal => recordEvent event
    | .eager _ => discard syncFromModel

/-- The host for edits of the live model. -/
def host : Host Error Session := hostWith notifyOfEdit

end Session

end DocSync
