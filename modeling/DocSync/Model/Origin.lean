import DocSync.Dict
import DocSync.Json.Stray
import DocSync.Location

/-! Where a node was read, as its model keeps it. -/

namespace DocSync

/-- A span that a model keeps. -/
structure Span extends Location where
  /-- What a stored model gave in another type than a span's parts have. -/
  strays : Strays := []
  deriving DecidableEq, Inhabited

instance : Coe Location Span := ⟨fun l => { toLocation := l }⟩

/-- Where a node was read: its own span, those of its fields and slots, and the text that they
measure. -/
structure Origin where
  span : Span
  fieldSpans : Dict Span := .empty
  slotSpans : Dict Span := .empty
  sourceHash : Option String := none
  /-- What a stored model gave in place of a hash. -/
  strays : Strays := []
  deriving DecidableEq, Inhabited

end DocSync
