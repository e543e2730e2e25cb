import DocSync.Alignment
import DocSync.Assoc
import DocSync.Change.Diff
import DocSync.Change.Entry
import DocSync.Change.Outline
import DocSync.Change.Replay
import DocSync.Channel
import DocSync.Config
import DocSync.Dict
import DocSync.Digest.Bytes
import DocSync.Digest.Fingerprint
import DocSync.Digest.Md5
import DocSync.Digest.Sha256
import DocSync.Error
import DocSync.Grammar.Lexer
import DocSync.Grammar.ParseError
import DocSync.Grammar.ParseTree
import DocSync.Grammar.Parser
import DocSync.Grammar.Token
import DocSync.Json.Alike
import DocSync.Json.Misfit
import DocSync.Json.Order
import DocSync.Json.Reader
import DocSync.Json.Stray
import DocSync.Json.Value
import DocSync.Json.View
import DocSync.Json.Writer
import DocSync.Location
import DocSync.Model.Adopt
import DocSync.Model.Basic
import DocSync.Model.Build
import DocSync.Model.Edit
import DocSync.Model.Forest
import DocSync.Model.Frame
import DocSync.Model.Host
import DocSync.Model.Kind
import DocSync.Model.NodeId
import DocSync.Model.Origin
import DocSync.Number.Binary64
import DocSync.Number.Numeric
import DocSync.Number.Shortest
import DocSync.Patch.Draft
import DocSync.Patch.Plan
import DocSync.Patch.Splice
import DocSync.Payload.Error
import DocSync.Payload.Reader
import DocSync.Payload.Record
import DocSync.Payload.Settings
import DocSync.Payload.Writer
import DocSync.Proofs.Alignment
import DocSync.Proofs.Alignment.Inserted
import DocSync.Proofs.Assoc
import DocSync.Proofs.Change.Acceptance
import DocSync.Proofs.Change.Adoption
import DocSync.Proofs.Change.Convergence
import DocSync.Proofs.Change.Copied
import DocSync.Proofs.Change.Diff
import DocSync.Proofs.Change.Effects
import DocSync.Proofs.Change.Framed
import DocSync.Proofs.Change.Idle
import DocSync.Proofs.Change.Inserted
import DocSync.Proofs.Change.Joints
import DocSync.Proofs.Change.Linking
import DocSync.Proofs.Change.Outline
import DocSync.Proofs.Change.Performance
import DocSync.Proofs.Change.Rebuilt
import DocSync.Proofs.Change.Reconcile
import DocSync.Proofs.Change.Replay
import DocSync.Proofs.Change.Reversal
import DocSync.Proofs.Change.SameText
import DocSync.Proofs.Change.Unchanged
import DocSync.Proofs.Change.Undo
import DocSync.Proofs.Change.Wholeness
import DocSync.Proofs.Dict
import DocSync.Proofs.Grammar.Derivation
import DocSync.Proofs.Grammar.Layout
import DocSync.Proofs.Grammar.Lexeme
import DocSync.Proofs.Grammar.Machine
import DocSync.Proofs.Grammar.Phrase
import DocSync.Proofs.Grammar.Scanning
import DocSync.Proofs.Grammar.Tiling
import DocSync.Proofs.Grammar.Tokens
import DocSync.Proofs.Grammar.Viable
import DocSync.Proofs.Model.Blueprint
import DocSync.Proofs.Model.Built
import DocSync.Proofs.Model.Coherence
import DocSync.Proofs.Model.Edit
import DocSync.Proofs.Model.Forest
import DocSync.Proofs.Model.Hearing
import DocSync.Proofs.Model.Insertion
import DocSync.Proofs.Model.Linked
import DocSync.Proofs.Model.Reachable
import DocSync.Proofs.Model.Relink
import DocSync.Proofs.Model.Removal
import DocSync.Proofs.Model.Runs
import DocSync.Proofs.Model.Shadowing
import DocSync.Proofs.Model.Sound
import DocSync.Proofs.Model.Twins
import DocSync.Proofs.Outcome
import DocSync.Proofs.Patch.Asked
import DocSync.Proofs.Patch.Carried
import DocSync.Proofs.Patch.Exact
import DocSync.Proofs.Patch.Gaps
import DocSync.Proofs.Patch.Hollow
import DocSync.Proofs.Patch.Merged
import DocSync.Proofs.Patch.Nested
import DocSync.Proofs.Patch.Patched
import DocSync.Proofs.Patch.Planned
import DocSync.Proofs.Patch.Retold
import DocSync.Proofs.Patch.Rewritten
import DocSync.Proofs.Patch.Seats
import DocSync.Proofs.Patch.Shaped
import DocSync.Proofs.Patch.Slots
import DocSync.Proofs.Patch.TopLevel
import DocSync.Proofs.Patch.Untouched
import DocSync.Proofs.Payload.Accepted
import DocSync.Proofs.Payload.Records
import DocSync.Proofs.Payload.Restored
import DocSync.Proofs.Payload.Restoring
import DocSync.Proofs.Payload.Stored
import DocSync.Proofs.Render.BlockStyle
import DocSync.Proofs.Render.Composition
import DocSync.Proofs.Render.Copied
import DocSync.Proofs.Render.Document
import DocSync.Proofs.Render.Emit
import DocSync.Proofs.Render.Fidelity
import DocSync.Proofs.Render.Fields
import DocSync.Proofs.Render.Flanked
import DocSync.Proofs.Render.Indentation
import DocSync.Proofs.Render.Joined
import DocSync.Proofs.Render.Lacking
import DocSync.Proofs.Render.Layout
import DocSync.Proofs.Render.Loop
import DocSync.Proofs.Render.Nesting
import DocSync.Proofs.Render.Reads
import DocSync.Proofs.Render.Recursion
import DocSync.Proofs.Render.Respelled
import DocSync.Proofs.Render.Shown
import DocSync.Proofs.Render.ShownAlike
import DocSync.Proofs.Render.SourceFields
import DocSync.Proofs.Render.Typed
import DocSync.Proofs.Render.YamlFields
import DocSync.Proofs.Session.Dirty
import DocSync.Proofs.Session.Endings
import DocSync.Proofs.Session.Failed
import DocSync.Proofs.Session.Hosts
import DocSync.Proofs.Session.InStep
import DocSync.Proofs.Session.Passes
import DocSync.Proofs.Session.Runs
import DocSync.Proofs.Session.Shaped
import DocSync.Proofs.Session.Spent
import DocSync.Proofs.Session.Undisturbed
import DocSync.Proofs.Session.Undone
import DocSync.Proofs.Session.UpToDate
import DocSync.Proofs.Snapshot.Canonical
import DocSync.Proofs.Snapshot.Collision
import DocSync.Proofs.Snapshot.Depiction
import DocSync.Proofs.Snapshot.Identity
import DocSync.Proofs.Snapshot.Labels
import DocSync.Proofs.Snapshot.Mentioned
import DocSync.Proofs.Snapshot.Pairing
import DocSync.Proofs.Snapshot.Probing
import DocSync.Proofs.Snapshot.Rows
import DocSync.Proofs.Snapshot.Shape
import DocSync.Proofs.Snapshot.Stabilized
import DocSync.Proofs.Sorting
import DocSync.Proofs.Text.Legible
import DocSync.Proofs.Text.Numeral
import DocSync.Proofs.Text.Readback
import DocSync.Proofs.Text.Spacing
import DocSync.Proofs.Text.Unbroken
import DocSync.Render.Source
import DocSync.Render.Yaml
import DocSync.Session.Basic
import DocSync.Session.Guard
import DocSync.Snapshot.Basic
import DocSync.Snapshot.Identity
import DocSync.Sorting
import DocSync.Text.CharRange
import DocSync.Text.Hex
import DocSync.Text.Letter
import DocSync.Text.Lines
import DocSync.Text.Numeral
import DocSync.Text.Printable
import DocSync.Text.Quoted
import DocSync.Text.Slice
