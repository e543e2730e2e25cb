import DocSync.Config
import DocSync.Payload.Record

/-!
Settings as the members of an object. What an object leaves out keeps its default, members that are
no settings are passed over, and a setting of another type than it has is read as far as it goes,
any value as a truth value, and kept as it was given.
-/

namespace DocSync

namespace Payload

/-- A setting is of the type it should be; what is no setting always is. -/
def isSetting (name : String) (value : Json) : Bool :=
  match name with
  | "probe_limit" => value.int?.isSome
  | "snapshot_indent" =>
    (isIntOrNull value || value.text?.isSome) && (Json.Indent.asked value).isOk
  | "default_indent" => value.text?.isSome
  | "trailing_separator" | "allow_full_render_fallback" => value.bool?.isSome
  | _ => true

end Payload

namespace Config

/-- The settings that an object gives. -/
def ofJson (value : Json) : Config :=
  let base : Config := {}
  let flag (name : String) (default : Bool) : Bool :=
    ((value.member? name).map fun given => !given.isVoid).getD default
  { probeLimit := ((value.member? "probe_limit").bind Json.int?).getD base.probeLimit
    snapshotIndent :=
      match (value.member? "snapshot_indent").map Json.Indent.asked with
      | some (.ok indent) => indent
      | some (.error _) => none
      | none => base.snapshotIndent
    defaultIndent := ((value.member? "default_indent").bind Json.text?).getD base.defaultIndent
    trailingSeparator := flag "trailing_separator" base.trailingSeparator
    allowFullRender := flag "allow_full_render_fallback" base.allowFullRender
    sourceFile := (value.member? "source_file").getD .null
    strays := .of Payload.isSetting value.members }

/-- The settings as JSON, those of another type as they were given. -/
def toJson (c : Config) : Json :=
  (Json.obj
    [("probe_limit", .int c.probeLimit),
     ("snapshot_indent", (c.snapshotIndent.map Json.Indent.toJson).getD .null),
     ("default_indent", .str c.defaultIndent), ("trailing_separator", .bool c.trailingSeparator),
     ("allow_full_render_fallback", .bool c.allowFullRender),
     ("source_file", c.sourceFile)]).withStrays c.strays

end Config

end DocSync
