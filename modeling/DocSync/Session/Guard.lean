/-! The count of events that are a session's own doing. -/

namespace DocSync

/-- How many of the coming events are echoes of replays, and the counts to return to as replays
end. -/
structure Guard where
  pending : Int := 0
  enclosing : List Int := []
  deriving DecidableEq, Repr, Inhabited

namespace Guard

/-- A replay begins that will raise so many events. -/
def enter (g : Guard) (count : Int) : Guard :=
  { pending := g.pending + count, enclosing := g.pending :: g.enclosing }

/-- The innermost replay ends, whether it went through or not: the count is what it was before. -/
def leave (g : Guard) : Guard :=
  match g.enclosing with
  | [] => g
  | before :: rest => { pending := before, enclosing := rest }

/-- One event is taken in; it is an echo if one was expected. -/
def consume (g : Guard) : Bool × Guard :=
  if g.pending > 0 then (true, { g with pending := g.pending - 1 }) else (false, g)

/-- Taking events in leaves the enclosing replays alone. -/
theorem enclosing_consume (g : Guard) : g.consume.2.enclosing = g.enclosing := by
  unfold consume; split <;> rfl

end Guard

end DocSync
