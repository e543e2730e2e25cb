import DocSync.Error
import DocSync.Sorting

/-! Splices: stretches of a text, each with the text that takes its place. -/

namespace DocSync

/-- The characters from `start` up to `stop` replaced by another text. -/
structure Splice where
  start : Int
  stop : Int
  replacement : String
  deriving DecidableEq, Repr, Inhabited

namespace Splice

/-- A text from a position on with splices carried out, given in order of position. -/
def applyFrom (text : List Char) (cursor : Int) : List Splice → List Char
  | [] => Text.sliceFrom text cursor
  | s :: rest =>
    Text.slice text cursor s.start ++ s.replacement.toList ++ applyFrom text s.stop rest

/-- A text with splices carried out, given in order of position. -/
def applyAll (text : String) (splices : List Splice) : String :=
  String.ofList (applyFrom text.toList 0 splices)

/-- A splice lies inside a span that is replaced as a whole. The replacement of the span itself does
not, nor does an insertion at its edge. -/
def coveredBy (s : Splice) (span : Location) : Bool :=
  if s.start = s.stop then span.start < s.start && s.start < span.stop
  else
    span.start ≤ s.start && s.stop ≤ span.stop && !(span.start == s.start && span.stop == s.stop)

/-- The order of position. -/
def atOrBefore (a b : Splice) : Bool :=
  a.start < b.start || (a.start == b.start && a.stop ≤ b.stop)

/-- Two splices in order of position that cannot both be carried out: they overlap, or insert at one
point. -/
def clashes (a b : Splice) : Bool :=
  b.start < a.stop || (b.start == a.start && a.start == a.stop && a.stop == b.stop)

/-- The first two neighbours that clash. -/
def firstClash? : List Splice → Option (Splice × Splice)
  | a :: b :: rest => if a.clashes b then some (a, b) else firstClash? (b :: rest)
  | _ => none

/-- The splices that count, in order of position: each once, and none inside a span that is replaced
as a whole. -/
def merge (splices : List Splice) (covering : List Location) : Except Error (List Splice) :=
  -- Once they are sorted, splices that clash show it between neighbours.
  let kept := stableSort atOrBefore
    (splices.filter fun s => !covering.any s.coveredBy).eraseDups
  match firstClash? kept with
  | some (a, b) =>
    .error (.conflict (.overlap (.int a.start) (.int a.stop) (.int b.start) (.int b.stop)))
  | none => .ok kept

end Splice

end DocSync
