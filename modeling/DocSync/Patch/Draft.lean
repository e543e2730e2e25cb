import DocSync.Json.Order
import DocSync.Model.Origin
import DocSync.Patch.Splice

/-!
Drafts of splices. The spans of a stored model may tell no position where one is needed: a bound
that is null leaves a splice open, and any other that is no number fails once bounds are compared.
Without such bounds drafts are settled as splices are merged.
-/

namespace DocSync

/-- The start of a span as it was given. -/
def Span.givenStart (s : Span) : Json := (s.strays.lookup "offset").getD (.int s.start)

/-- The end of a span as it was given. -/
def Span.givenStop (s : Span) : Json := (s.strays.lookup "end_offset").getD (.int s.stop)

/-- A splice as spans ask for it. -/
structure Draft where
  start : Json
  stop : Json
  replacement : String
  deriving DecidableEq, Repr, Inhabited

/-- Splices in order of position. -/
structure SplicePlan where
  splices : List Splice
  /-- The drafts they were settled from, if some bound is no position. An open start is taken for
  the end of the text, and an open end for its start. -/
  drafts : List Draft := []
  deriving DecidableEq, Inhabited

namespace Draft

/-- The splice that a draft is, if its bounds are positions. -/
def splice? (d : Draft) : Option Splice :=
  match d.start, d.stop with
  | .int start, .int stop => some ⟨start, stop, d.replacement⟩
  | _, _ => none

/-- A splice as a draft. -/
def ofSplice (s : Splice) : Draft := ⟨.int s.start, .int s.stop, s.replacement⟩

theorem splice?_ofSplice (s : Splice) : (ofSplice s).splice? = some s := rfl

/-- One bound lies below another. Positions compare with one another, and so do texts. -/
def below (a b : Json) : Except Misfit Bool :=
  match a.below? b with
  | some lies => .ok lies
  | none => .error .noSum

/-- One bound lies at another or below it. -/
def atMost (a b : Json) : Except Misfit Bool :=
  match a.atMost? b with
  | some lies => .ok lies
  | none => .error .noSum

/-- Two tests, the second made only if the first holds. -/
def both (first second : Except Misfit Bool) : Except Misfit Bool := do
  if ← first then second else return false

/-- A draft replaces all of a span. -/
def fills (d : Draft) (span : Span) : Bool :=
  d.start.alike span.givenStart && d.stop.alike span.givenStop

/-- A draft lies inside a span that is replaced as a whole. -/
def coveredBy (d : Draft) (span : Span) : Except Misfit Bool :=
  let start := span.givenStart
  let stop := span.givenStop
  if d.start.equal d.stop then both (below start d.start) (below d.start stop)
  else both (both (atMost start d.start) (atMost d.stop stop)) (.ok (!d.fills span))

/-- A draft lies inside one of several spans. -/
def coveredByAny (d : Draft) : List Span → Except Misfit Bool
  | [] => .ok false
  | span :: rest => do if ← coveredBy d span then return true else coveredByAny d rest

/-- One draft comes before another: bounds that agree are passed over. -/
def before (a b : Draft) : Except Misfit Bool :=
  if !a.start.alike b.start then below a.start b.start
  else if !a.stop.alike b.stop then below a.stop b.stop
  else .ok false

/-- A draft put among others in order of position. -/
def place (d : Draft) : List Draft → Except Misfit (List Draft)
  | [] => .ok [d]
  | other :: rest => do
    if ← before other d then return other :: (← place d rest) else return d :: other :: rest

/-- Two drafts in order of position that cannot both be carried out. -/
def clash (a b : Draft) : Except Misfit Bool := do
  if ← below b.start a.stop then return true
  else return b.start.equal a.start && a.start.equal a.stop && a.stop.equal b.stop

/-- Drafts in order of position are refused if two neighbours clash. -/
def checkClashes : List Draft → Except Error Unit
  | a :: b :: rest => do
    if ← (clash a b).mapError .misfit then
      throw (.conflict (.overlap a.start a.stop b.start b.stop))
    checkClashes (b :: rest)
  | _ => return

/-- The position that a bound is, or else the one that an open bound is taken for. -/
def positionOf (whenOpen : Int) (bound : Json) : Except Misfit Int :=
  match bound.count? with
  | some position => .ok position
  | none => if bound.isNull then .ok whenOpen else .error .noSum

/-- The splice of a draft in a text of the given length. -/
def spliceOf (length : Nat) (d : Draft) : Except Misfit Splice :=
  return ⟨← positionOf length d.start, ← positionOf 0 d.stop, d.replacement⟩

/-- Two drafts ask for the same. -/
def same (a b : Draft) : Bool :=
  a.start.alike b.start && a.stop.alike b.stop && a.replacement == b.replacement

/-- Drafts with one more; of drafts that ask for the same the last counts, at the place of the
first. -/
def join (drafts : List Draft) (d : Draft) : List Draft :=
  if drafts.any d.same then drafts.map fun other => if d.same other then d else other
  else drafts ++ [d]

/-- Drafts, each once. What is made of items or members cannot be told apart. -/
def distinct (drafts : List Draft) : Except Misfit (List Draft) :=
  if drafts.any fun d => d.start.isCompound || d.stop.isCompound then .error .noSum
  else .ok (drafts.foldl join [])

/-- The splices of drafts of which not all have positions for bounds, in a text of the given
length. -/
def settleOpen (length : Nat) (drafts : List Draft) (covering : List Span) :
    Except Error SplicePlan := do
  let fit {α : Type} (result : Except Misfit α) : Except Error α := result.mapError .misfit
  let uncovered ← fit (drafts.filterM fun d => return !(← coveredByAny d covering))
  let kept ← fit ((← fit (distinct uncovered)).foldrM place [])
  checkClashes kept
  return { splices := ← fit (kept.mapM (spliceOf length)), drafts := kept }

/-- The splices of drafts, in a text of the given length. -/
def settle (length : Nat) (drafts : List Draft) (covering : List Span) :
    Except Error SplicePlan := do
  match drafts.mapM splice? with
  | some splices =>
    if covering.all fun span => span.strays.isEmpty then
      return { splices := ← Splice.merge splices (covering.map Span.toLocation) }
    else settleOpen length drafts covering
  | none => settleOpen length drafts covering

end Draft

end DocSync
