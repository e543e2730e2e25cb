import DocSync.Json.Writer
import DocSync.Model.Forest

/-!
A model as JSON, whole enough to be restored from it. The members of every object stand in order of
name.
-/

namespace DocSync

/-- A span as JSON. -/
def Location.toJson (l : Location) : Json :=
  .obj
    [("col_offset", .int l.col), ("end_col_offset", .ofInt? l.endCol),
     ("end_lineno", .ofInt? l.endLine), ("end_offset", .int l.stop), ("lineno", .int l.line),
     ("offset", .int l.start), ("source_file", l.file.sorted)]

/-- A span that a model keeps, as JSON. -/
def Span.toJson (s : Span) : Json := s.toLocation.toJson.withStrays s.strays

/-- A frame as JSON. -/
def Frame.toJson (f : Frame) : Json :=
  (Json.obj
    [("indent", .str f.indent), ("prefix", .str f.opening), ("separator", .str f.separator),
     ("suffix", .str f.closing), ("trailing_separator", .bool f.trailing)]).withStrays f.strays

/-- Where a node was read, as JSON. -/
def Origin.toJson (o : Origin) : Json :=
  (Json.obj
    [("field_spans", .ofDict Span.toJson o.fieldSpans),
     ("slot_spans", .ofDict Span.toJson o.slotSpans), ("source_hash", .ofText? o.sourceHash),
     ("span", o.span.toJson)]).withStrays o.strays

namespace Model

/-- The version of the form that models are stored in. -/
def payloadVersion : Int := 1

/-- A node as JSON, with its frames and its origin if they are asked for. -/
def nodeToJson (m : Model) (withOrigins : Bool) (k : Key) : Json :=
  let n := m.node k
  let idOf (target : Option Key) : Json := (target.map fun k => (m.node k).id.toJson).getD .null
  let slots := n.kind.slot?.toList.map fun slot => (slot, idOf n.head)
  let origin := [("meta", (n.origin.map Origin.toJson).getD .null)]
  let frames := [("tokens", Json.ofDict Frame.toJson n.frames)]
  .obj <|
    [("fields", .ofDict .str n.fields), ("id", n.id.toJson)] ++
      (if withOrigins then origin else []) ++ [("next", idOf n.next), ("slots", .obj slots)] ++
      (if withOrigins then frames else []) ++ [("type", .str n.kind.name)]

/-- A model as JSON, its nodes in document order. -/
def toJson (m : Model) (withOrigins : Bool) : Json :=
  (Json.obj
    [("leading", .str m.leading), ("nodes", .arr (m.order.map (m.nodeToJson withOrigins))),
     ("roots", .arr (m.roots.map fun k => (m.node k).id.toJson)),
     ("source_hash", .ofText? m.sourceHash), ("trailing", .str m.trailing),
     ("version", .int payloadVersion)]).withStrays m.strays

end Model

end DocSync
