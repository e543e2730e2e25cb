import DocSync.Alignment
import DocSync.Error
import DocSync.Json.Order
import DocSync.Snapshot.Basic
import DocSync.Text.Numeral

/-!
Identity across two snapshots: the labels of the old one are replaced so that a node that is on both
sides goes by one label, and nodes on one side only share none.
-/

namespace DocSync

/-- What tells a record apart, wherever it stands. -/
def Record.contentKey {ι : Type} (r : Record ι) : Kind × Dict String := (r.kind, r.fields)

namespace Snapshot

/-- The positions of the records that belong together. -/
def recordPairs (old new : List (Record String)) : List (Nat × Nat) :=
  Alignment.pairs Prod.fst (old.map Record.contentKey) (new.map Record.contentKey)

/-- So many further numbers are more than a limit allows. What is no number sets no limit, and
fails. -/
def exceeds (limit : Json) (tried : Nat) : Except Misfit Bool :=
  match limit.below? (.int tried) with
  | some more => .ok more
  | none => .error .noSum

theorem exceeds_int (limit : Int) (tried : Nat) :
    exceeds (.int limit) tried = .ok (decide (limit < tried)) := by
  simp [exceeds]

/-- The first label among `line`, `line + 1`, … that is not in use; `fuel` bounds the labels tried
beyond those counted by `probes`. -/
def probe (id : String) (kind : String) (line : Int) (inUse : List String) (limit : Json) :
    Nat → Nat → Except Error String
  | fuel, probes =>
    match Text.writeInt? (line + probes) with
    | none => throw (.longNumber id)
    | some number =>
      let label := number ++ "|" ++ kind
      if inUse.contains label then
        match fuel with
        | 0 => throw (.collision id limit)
        | fuel + 1 => do
          if ← (exceeds limit (probes + 1)).mapError .misfit then throw (.collision id limit)
          else probe id kind line inUse limit fuel (probes + 1)
      else return label

/-- A new label for an old one: its line moved, and then the first number from there on that makes a
label not in use. After `limit` further numbers the search is given up. -/
def renumber (id : String) (move : Int → Int) (inUse : List String) (limit : Json) :
    Except Error String :=
  let text := id.toList
  let number := text.takeWhile (· != '|')
  match Text.readInt? number with
  | none => throw (.noNumber id)
  | some line =>
    -- One of so many labels is free, for there are fewer in use.
    probe id (String.ofList (text.drop (number.length + 1))) (move line) inUse limit inUse.length 0

/-- New labels for the records that have no partner, one record after the other. -/
def renumberAll (move : Int → Int) (limit : Json) :
    List (Record String) → List String → Except Error Renaming
  | [], _ => return []
  | r :: rest, inUse => do
    let label ← renumber r.id move inUse limit
    return (r.id, label) :: (← renumberAll move limit rest (label :: inUse))

/-- The old snapshot with its labels replaced: a record takes its partner's label, and one without a
partner keeps its line as the edit moved it. -/
def stabilize (config : Config) (old new : Snapshot) : Except Error Snapshot := do
  let pairs := recordPairs old.records new.records
  let paired : Renaming := pairs.filterMap fun (i, j) =>
    match old.records[i]?, new.records[j]? with
    | some a, some b => some (a.id, b.id)
    | _, _ => none
  -- Only records without a partner are renumbered, and only for them the lines are aligned.
  let single := (old.records.zipIdx.filter fun r => !pairs.any (·.1 == r.2)).map Prod.fst
  let moved ←
    if single.isEmpty then pure []
    else
      let lines (s : Snapshot) := s.maskedLines config.snapshotIndent
      let alignment := Alignment.segments (lines old) (lines new)
      renumberAll (fun line => Alignment.shift alignment (line - 1) + 1)
        config.givenProbeLimit single (new.ids.map Prod.fst ++ paired.map Prod.snd)
  -- Where several records go by one label, the last of them decides.
  return old.rename (paired ++ moved).reverse

end Snapshot

end DocSync
