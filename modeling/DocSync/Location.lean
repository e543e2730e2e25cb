import DocSync.Json.View
import DocSync.Text.Slice

/-! Spans of a source text. -/

namespace DocSync

/--
A span of source text. Lines and columns count from one; `start` and `stop` are positions in the
text, `stop` being the first one outside. The end's line and column may be unknown. The file goes by
whatever the reader of the text calls it, mostly a name, and by null where it has none.
-/
structure Location where
  line : Int
  col : Int
  start : Int := 0
  stop : Int := 0
  endLine : Option Int := none
  endCol : Option Int := none
  file : Json := .null
  deriving DecidableEq, Repr, Inhabited

namespace Location

/-- The place of something no text was read for. -/
def unknown : Location := { line := 0, col := 0 }

/-- Where the span starts, for a message; a void file name counts as none. -/
def label (l : Location) : String :=
  let place := toString l.line ++ ":" ++ toString l.col
  if l.file.isVoid then place else l.file.asText ++ ":" ++ place

/-- The text the span covers. -/
def slice (l : Location) (source : List Char) : List Char := Text.slice source l.start l.stop

/-- The other span lies within this one. -/
def contains (l other : Location) : Bool := l.start ≤ other.start && other.stop ≤ l.stop

/-- A number, or another in place of zero. -/
def orElse (n fallback : Int) : Int := if n = 0 then fallback else n

/-- From the start of this span to the end of another. An end that is unknown or zero is taken to be
the other span's start. -/
def spanTo (l last : Location) : Location where
  line := l.line
  col := l.col
  start := l.start
  stop := orElse last.stop last.start
  endLine := some (orElse (last.endLine.getD 0) last.line)
  endCol := some (orElse (last.endCol.getD 0) last.col)
  file := l.file

/-- From the end of this span to the end of the span around it. -/
def restOf (first whole : Location) : Location where
  line := orElse (first.endLine.getD 0) first.line
  col := orElse (first.endCol.getD 0) first.col
  start := first.stop
  stop := whole.stop
  endLine := whole.endLine
  endCol := whole.endCol
  file := whole.file

end Location

end DocSync
