import DocSync.Json.Stray
import DocSync.Json.Writer

/-! The settings of a synchronization. -/

namespace DocSync

/-- What a synchronization may be told. A setting given in another type than it has is kept beside
the others, and works out, or fails, where it is used. -/
structure Config where
  /-- How many further numbers are tried when a renumbered node's label is taken. -/
  probeLimit : Int := 1000
  /-- Indentation of snapshots; without one they are written on a single line. -/
  snapshotIndent : Option Json.Indent := some (.blanks 2)
  /-- One more level of indentation in generated text. -/
  defaultIndent : String := "  "
  /-- Whether generated frames end their chains with a separator. -/
  trailingSeparator : Bool := false
  /-- Whether a patch may fall back to writing the whole document. -/
  allowFullRender : Bool := true
  /-- What faults and spans call the text's file; null where it has no name. -/
  sourceFile : Json := .null
  /-- What was given in another type than the settings have. -/
  strays : Strays := []
  deriving DecidableEq, Repr, Inhabited

namespace Config

/-- One more level of indentation as it was given. -/
def givenIndent (c : Config) : Json :=
  (c.strays.lookup "default_indent").getD (.str c.defaultIndent)

/-- How many further numbers are tried as it was given. -/
def givenProbeLimit (c : Config) : Json :=
  (c.strays.lookup "probe_limit").getD (.int c.probeLimit)

/-- The indentation of snapshots, if what was given in its place is one. -/
def givenSnapshotIndent (c : Config) : Except Misfit (Option Json.Indent) :=
  match c.strays.lookup "snapshot_indent" with
  | some given => Json.Indent.asked given
  | none => .ok c.snapshotIndent

end Config

/-- The settings in force, and those to return to as scopes close. -/
structure ConfigScope where
  current : Config := {}
  enclosing : List Config := []
  deriving DecidableEq, Repr, Inhabited

namespace ConfigScope

/-- Other settings from here on, within the innermost scope. -/
def set (s : ConfigScope) (config : Config) : ConfigScope := { s with current := config }

/-- The default settings from here on, within the innermost scope. -/
def reset (s : ConfigScope) : ConfigScope := s.set {}

/-- Opens a scope with its own settings. -/
def enter (s : ConfigScope) (config : Config) : ConfigScope :=
  { current := config, enclosing := s.current :: s.enclosing }

/-- Closes the innermost scope and returns to the settings before it. -/
def exit (s : ConfigScope) : ConfigScope :=
  match s.enclosing with
  | [] => s
  | outer :: rest => { current := outer, enclosing := rest }

/-- Whatever is set inside a scope, closing it brings back what was in force before. -/
theorem exit_set_enter (s : ConfigScope) (inner later : Config) :
    ((s.enter inner).set later).exit = s := rfl

end ConfigScope

end DocSync
