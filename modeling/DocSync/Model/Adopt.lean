import DocSync.Model.Forest

/-! Spans and frames brought up to date from a fresh parse of the same document. -/

namespace DocSync.Model

/-- The live node that a fresh node stands for: the one an id map names, or else the one of its own
id. Nodes of different kinds do not stand for one another. -/
def counterpart? (live : Model) (idMap : List (NodeId × NodeId)) (fresh : Node) : Option Key :=
  match live.find? ((fresh.id.lookup? idMap).getD fresh.id) with
  | some k => if (live.node k).kind = fresh.kind then some k else none
  | none => none

/-- The live model with the frames, origins and edges of a fresh one, and the number of nodes
refreshed. -/
def adopt (live fresh : Model) (idMap : List (NodeId × NodeId)) : Model × Nat :=
  let refresh (state : Model × Nat) (k : Key) : Model × Nat :=
    let source := fresh.node k
    match state.1.counterpart? idMap source with
    | some target =>
      (state.1.update target fun n => { n with frames := source.frames, origin := source.origin },
        state.2 + 1)
    | none => state
  let (refreshed, count) := fresh.order.foldl refresh (live, 0)
  ({ refreshed with
      leading := fresh.leading, trailing := fresh.trailing, sourceHash := fresh.sourceHash
      strays := fresh.strays },
    count)

end DocSync.Model
