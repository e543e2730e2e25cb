import DocSync.Payload.Reader
import DocSync.Payload.Writer
import DocSync.Proofs.Dict
import DocSync.Proofs.Outcome
import DocSync.Proofs.Text.Readback

/-!
The parts of a stored node that have parts of their own: its frames and where it was read. What has the types
that it should have is read as it was, and its JSON can be read from a text.
-/

namespace DocSync

open Json (Readable)

variable {α : Type} {room : Nat}

/-! ### What has the types that it should have -/

/-- A span whose parts are of the types they should be. -/
structure Span.Proper (s : Span) : Prop where
  file : Payload.isTextOrNull s.file = true
  strays : s.strays = []

instance (s : Span) : Decidable s.Proper :=
  decidable_of_iff (Payload.isTextOrNull s.file = true ∧ s.strays = [])
    ⟨fun ⟨a, b⟩ => ⟨a, b⟩, fun ⟨a, b⟩ => ⟨a, b⟩⟩

/-- All spans of an origin. -/
def Origin.spans (o : Origin) : List Span :=
  o.span :: (o.fieldSpans.entries ++ o.slotSpans.entries).map Prod.snd

/-- What holds of all spans of an origin holds of its own and of those of its fields and slots. -/
theorem Origin.forall_spans {o : Origin} {p : Span → Prop} : (∀ s ∈ o.spans, p s) ↔ p o.span ∧
    (∀ entry ∈ o.fieldSpans.entries, p entry.2) ∧ ∀ entry ∈ o.slotSpans.entries, p entry.2 := by
  simp only [spans, List.forall_mem_cons, List.forall_mem_map, List.forall_mem_append]

/-- An origin whose parts are of the types they should be. -/
structure Origin.Proper (o : Origin) : Prop where
  spans : ∀ s ∈ o.spans, s.Proper
  strays : o.strays = []

instance (o : Origin) : Decidable o.Proper :=
  decidable_of_iff ((∀ s ∈ o.spans, s.Proper) ∧ o.strays = [])
    ⟨fun ⟨a, b⟩ => ⟨a, b⟩, fun ⟨a, b⟩ => ⟨a, b⟩⟩

/-- The numbers of a span. -/
def Location.numbers (l : Location) : List Int :=
  [l.line, l.col, l.start, l.stop] ++ l.endLine.toList ++ l.endCol.toList

/-- The numbers of a span have no more digits than numerals may have. -/
def Location.Short (l : Location) : Prop := ∀ n ∈ l.numbers, (Text.writeInt? n).isSome = true

instance (l : Location) : Decidable l.Short := inferInstanceAs (Decidable (∀ _ ∈ _, _))

namespace Span.Proper

variable {s : Span}

theorem toJson_eq (proper : s.Proper) : s.toJson = s.toLocation.toJson := by
  rw [Span.toJson, proper.strays, Json.withStrays_nil]

theorem sorted_file (proper : s.Proper) : s.file.sorted = s.file := by
  have file := proper.file
  cases found : s.file <;> rw [found] at file
  case arr | obj => cases file
  all_goals rfl

/-- A span is read back. -/
theorem read (proper : s.Proper) : Payload.readSpan s.toJson = .ok s := by
  have starts : Payload.readSpan s.toLocation.toJson = .ok (Payload.spanOf s.toLocation.toJson) := rfl
  have parts : Payload.spanOf s.toLocation.toJson = { s with strays := [], file := s.file.sorted } := by
    obtain ⟨⟨line, col, start, stop, endLine, endCol, file⟩, strays⟩ := s
    cases endLine <;> cases endCol <;> rfl
  rw [proper.toJson_eq, starts, parts, proper.sorted_file, ← proper.strays]

/-- A span's JSON can be read from a text, if its numbers can. -/
theorem readable (proper : s.Proper) (short : s.Short) : Readable (room + 1) s.toJson := by
  -- A file is a text or nothing, and every number is one of the span's.
  have number : ∀ n ∈ s.numbers, Readable room (.int n) := fun n member => .int room (short n member)
  have optional : ∀ n : Option Int, (∀ k ∈ n, k ∈ s.numbers) → Readable room (.ofInt? n) := by
    intro n inside
    cases n with
    | none => exact .null room
    | some k => exact number k (inside k rfl)
  have file : Readable room s.file := by
    have file := proper.file
    cases found : s.file <;> rw [found] at file
    case null => exact .null room
    case str text => exact .str room text
    all_goals cases file
  rw [proper.toJson_eq, Location.toJson, proper.sorted_file]
  refine .obj (by simp) ?_
  simp only [List.forall_mem_cons]
  refine ⟨number _ ?_, optional _ ?_, optional _ ?_, number _ ?_, number _ ?_, number _ ?_, file, nofun⟩ <;>
    simp +contextual [Location.numbers]

end Span.Proper

/-- A frame without strays is read back. -/
theorem Frame.read {f : Frame} (proper : f.strays = []) : Payload.readFrame f.toJson = .ok f := by
  obtain ⟨opening, closing, separator, indent, trailing, strays⟩ := f
  subst proper
  cases trailing <;> rfl

theorem Frame.readable {f : Frame} (proper : f.strays = []) : Readable (room + 1) f.toJson := by
  rw [Frame.toJson, proper, Json.withStrays_nil]
  refine .obj (by simp) ?_
  simp only [List.forall_mem_cons]
  exact ⟨.str _ _, .str _ _, .str _ _, .str _ _, .bool _ _, nofun⟩

namespace Json

theorem readable_ofText? (text : Option String) : Readable room (.ofText? text) := by
  cases text with
  | none => exact .null room
  | some text => exact .str room text

/-- A map can be read from a text if its values can. -/
theorem readable_ofDict {write : α → Json} {d : Dict α}
    (each : ∀ entry ∈ d.entries, Readable room (write entry.2)) :
    Readable (room + 1) (.ofDict write d) := by
  -- No two entries of a map have one name.
  refine .obj ?_ fun member inside => ?_
  · rw [List.map_map]
    exact d.nodup_keys
  · obtain ⟨entry, listed, rfl⟩ := List.mem_map.1 inside
    exact each entry listed

end Json

namespace Origin.Proper

variable {o : Origin}

theorem toJson_eq (proper : o.Proper) : o.toJson = .obj
    [("field_spans", .ofDict Span.toJson o.fieldSpans), ("slot_spans", .ofDict Span.toJson o.slotSpans),
      ("source_hash", .ofText? o.sourceHash), ("span", o.span.toJson)] := by
  rw [Origin.toJson, proper.strays, Json.withStrays_nil]

/-- The JSON of an origin can be read from a text, if the numbers of its spans can. -/
theorem readable (proper : o.Proper) (short : ∀ s ∈ o.spans, s.Short) : Readable (room + 3) o.toJson := by
  obtain ⟨own, ofFields, ofSlots⟩ := Origin.forall_spans.1 proper.spans
  obtain ⟨ownShort, fieldsShort, slotsShort⟩ := Origin.forall_spans.1 short
  rw [proper.toJson_eq]
  refine .obj (by simp) ?_
  simp only [List.forall_mem_cons]
  exact ⟨Json.readable_ofDict fun entry member => (ofFields entry member).readable (fieldsShort entry member),
    Json.readable_ofDict fun entry member => (ofSlots entry member).readable (slotsShort entry member),
    Json.readable_ofText? _, own.readable ownShort, nofun⟩

end Origin.Proper

/-! ### Records -/

/-- Of what a node holds its fields are stored, and the rest if it is asked for. -/
def Content.kept (withOrigins : Bool) (c : Content) : Content :=
  if withOrigins then c else { fields := c.fields }

/-- What a node holds is of the types it should be. -/
structure Content.Proper (c : Content) : Prop where
  frames : ∀ entry ∈ c.frames.entries, entry.2.strays = []
  origin : ∀ o ∈ c.origin, o.Proper

instance (c : Content) : Decidable c.Proper :=
  decidable_of_iff ((∀ entry ∈ c.frames.entries, entry.2.strays = []) ∧ ∀ o ∈ c.origin, o.Proper)
    ⟨fun ⟨a, b⟩ => ⟨a, b⟩, fun ⟨a, b⟩ => ⟨a, b⟩⟩

end DocSync
