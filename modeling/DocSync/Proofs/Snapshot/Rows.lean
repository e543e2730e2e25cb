import DocSync.Snapshot.Basic

/-!
The text of a snapshot row by row. A row mentions a node at one of three spots of a record, or none; so
the rows tell which line mentions what, and which lines differ once the ids are masked.
-/

namespace DocSync

open Json (quote joinBlocks closeLines openLines bracketed memberLines itemLines)

variable {step tail : String} {r : Record String} {rs : List (Record String)}

/-! ### Rows -/

/-- A spot at which a record mentions a node. -/
inductive Spot where
  | id
  | next
  | slot (name : String)
  deriving DecidableEq, Repr

/-- How deep the line at a spot is indented. -/
def Spot.depth : Spot → Nat
  | id | next => 2
  | slot _ => 3

/-- The line at a spot that mentions a label, without its indentation. -/
def Spot.text (label : String) : Spot → String
  | id => quote "id" ++ ": " ++ quote label ++ ","
  | next => quote "next" ++ ": " ++ quote label ++ ","
  | slot name => quote name ++ ": " ++ quote label

/-- A text behind so many steps of indentation. -/
def indented (step text : String) : Nat → String
  | 0 => text
  | depth + 1 => step ++ indented step text depth

/-- A line of a snapshot without its indentation. -/
inductive TextRow where
  /-- No node is mentioned. -/
  | inert (depth : Nat) (text : String)
  /-- A node is mentioned at a spot of a record. -/
  | mention (spot : Spot) (label : String)
  deriving DecidableEq, Repr

namespace TextRow

def depth : TextRow → Nat
  | inert depth _ => depth
  | mention spot _ => spot.depth

def text : TextRow → String
  | inert _ text => text
  | mention spot label => spot.text label

/-- The row as a line. -/
def line (step : String) (row : TextRow) : String := indented step row.text row.depth

@[simp] theorem line_inert (step : String) (depth : Nat) (text : String) :
    (inert depth text).line step = indented step text depth := rfl

@[simp] theorem line_mention (step : String) (spot : Spot) (label : String) :
    (mention spot label).line step = indented step (spot.text label) spot.depth := rfl

/-- The row with the node masked. -/
def masked : TextRow → TextRow
  | inert depth text => inert depth text
  | mention spot _ => mention spot Record.mask

/-- The row above the slots of a record. -/
def slotsAbove : TextRow := inert 2 (quote "slots" ++ ": \x7b")

end TextRow

/-- The rows of a record's fields, each but the last closed by a comma. -/
def fieldRows : List (String × String) → List TextRow
  | [] => []
  | [(name, value)] => [.inert 3 (quote name ++ ": " ++ quote value)]
  | (name, value) :: rest => .inert 3 (quote name ++ ": " ++ quote value ++ ",") :: fieldRows rest

namespace Record

/-- The rows of the member with the fields. -/
def fieldsRows (r : Record String) : List TextRow :=
  if r.fields.entries.isEmpty then [.inert 2 (quote "fields" ++ ": \x7b\x7d,")]
  else .inert 2 (quote "fields" ++ ": \x7b") :: fieldRows r.fields.entries ++ [.inert 2 "\x7d,"]

/-- The rows of the member with the slots. -/
def slotsRows (r : Record String) : List TextRow :=
  match r.kind.slot? with
  | none => [.inert 2 (quote "slots" ++ ": \x7b\x7d,")]
  | some slot =>
    [.slotsAbove, r.head.elim (.inert 3 (quote slot ++ ": null")) (.mention (.slot slot)),
      .inert 2 "\x7d,"]

/-- The row of the member with the next sibling. -/
def nextRow (r : Record String) : TextRow :=
  r.next.elim (.inert 2 (quote "next" ++ ": null,")) (.mention .next)

/-- The rows between the brackets of a record. -/
def memberRows (r : Record String) : List TextRow :=
  r.fieldsRows ++ .mention .id r.id :: r.nextRow :: r.slotsRows ++
    [.inert 2 (quote "type" ++ ": " ++ quote r.kind.name)]

/-- The rows of a record, with a text behind its last bracket. -/
def rows (tail : String) (r : Record String) : List TextRow :=
  .inert 1 "\x7b" :: r.memberRows ++ [.inert 1 ("\x7d" ++ tail)]

end Record

/-- The rows of several records. -/
def rowsOf : List (Record String) → List TextRow
  | [] => []
  | [last] => last.rows ""
  | r :: rest => r.rows "," ++ rowsOf rest

/-- The rows of a snapshot. -/
def Snapshot.rows (s : Snapshot) : List TextRow :=
  if s.records.isEmpty then [.inert 0 "[]"] else .inert 0 "[" :: rowsOf s.records ++ [.inert 0 "]"]

/-! ### Rows are lines -/

theorem closeLines_append (tail : String) (lines : List String) (last : String) :
    closeLines tail (lines ++ [last]) = lines ++ [last ++ tail] := by
  induction lines with
  | nil => rfl
  | cons line rest ih =>
    rw [List.cons_append, closeLines, ih, List.cons_append]
    simp

/-- What stands between two brackets, with a text before the first and one behind the last. -/
theorem closeLines_bracketed (lead tail left right : String) (blocks : List (List String)) :
    closeLines tail (openLines lead (bracketed step left right blocks)) =
      if blocks.isEmpty then [lead ++ (left ++ right) ++ tail]
      else (lead ++ left) :: (joinBlocks blocks).map (step ++ ·) ++ [right ++ tail] := by
  unfold bracketed
  split
  · -- Both brackets stand on one line.
    rfl
  · exact closeLines_append tail ((lead ++ left) :: (joinBlocks blocks).map (step ++ ·)) right

theorem memberLines_isEmpty (members : List (String × Json)) :
    (memberLines step members).isEmpty = members.isEmpty := by
  cases members <;> rfl

theorem joinBlocks_fields (entries : List (String × String)) :
    (joinBlocks (memberLines step (entries.map fun entry => (entry.1, .str entry.2)))).map
      (fun line => step ++ (step ++ (step ++ line))) = (fieldRows entries).map (TextRow.line step) := by
  induction entries with
  | nil => rfl
  | cons entry rest ih =>
    -- A comma closes each field but the last.
    cases rest with
    | nil => rfl
    | cons next rest =>
      simp only [List.map_cons, memberLines, joinBlocks, List.map_append] at ih ⊢
      rw [ih]
      rfl

/-- The member with the fields. -/
theorem lines_fields (r : Record String) :
    (closeLines "," (openLines (quote "fields" ++ ": ") ((Json.ofDict .str r.fields).lines step))).map
      (fun line => step ++ (step ++ line)) = r.fieldsRows.map (TextRow.line step) := by
  rw [Json.ofDict, Json.lines, closeLines_bracketed, memberLines_isEmpty, List.isEmpty_map,
    Record.fieldsRows]
  cases r.fields.entries.isEmpty with
  | true => simp [indented, String.append_assoc]
  | false =>
    have inner := @joinBlocks_fields step r.fields.entries
    simp only [Bool.false_eq_true, if_false, List.cons_append, List.map_cons, List.map_append, List.map_map,
      Function.comp_def, List.map_nil, inner]
    simp [indented, String.append_assoc]

/-- The member with the slots. -/
theorem lines_slots (r : Record String) :
    (closeLines "," (openLines (quote "slots" ++ ": ")
      ((Json.obj (r.slots.map fun slot => (slot.1, .ofText? slot.2))).lines step))).map
        (fun line => step ++ (step ++ line)) = r.slotsRows.map (TextRow.line step) := by
  rw [Json.lines, closeLines_bracketed, memberLines_isEmpty, List.isEmpty_map, Record.slots,
    Record.slotsRows]
  cases r.kind.slot? with
  | none => simp [indented, String.append_assoc]
  | some slot =>
    -- The slot is there whether or not it leads anywhere.
    cases r.head <;>
      simp [indented, String.append_assoc, memberLines, joinBlocks, openLines, Json.lines, Json.compact,
        Json.ofText?, TextRow.slotsAbove, Spot.text, Spot.depth]

/-- The member with the next sibling. -/
theorem lines_next (r : Record String) :
    (closeLines "," (openLines (quote "next" ++ ": ") ((Json.ofText? r.next).lines step))).map
      (fun line => step ++ (step ++ line)) = [r.nextRow].map (TextRow.line step) := by
  rw [Record.nextRow]
  cases r.next <;>
    simp [indented, String.append_assoc, openLines, closeLines, Json.lines, Json.compact, Json.ofText?,
      Spot.text, Spot.depth]

theorem lines_members (r : Record String) :
    (joinBlocks (memberLines step r.toJson.members)).map (fun line => step ++ (step ++ line)) =
      r.memberRows.map (TextRow.line step) := by
  have id : (closeLines "," (openLines (quote "id" ++ ": ") ((Json.str r.id).lines step))).map
      (fun line => step ++ (step ++ line)) = [TextRow.mention .id r.id].map (TextRow.line step) := rfl
  simp only [Record.toJson, Json.members, memberLines, joinBlocks, List.map_append, lines_fields, lines_next,
    lines_slots, id, Record.memberRows]
  simp [indented, Json.lines, Json.compact, openLines]

/-- A record in a list takes the lines of its rows. -/
theorem lines_record (tail : String) (r : Record String) :
    (closeLines tail (r.toJson.lines step)).map (step ++ ·) = (r.rows tail).map (TextRow.line step) := by
  have closed := closeLines_append tail ("\x7b" :: (joinBlocks (memberLines step r.toJson.members)).map
    (step ++ ·)) "\x7d"
  change (closeLines tail ("\x7b" :: (joinBlocks (memberLines step r.toJson.members)).map (step ++ ·) ++
    ["\x7d"])).map (step ++ ·) = _
  rw [closed, List.map_append, List.map_cons, List.map_map]
  simp only [Function.comp_def, lines_members, Record.rows]
  simp [indented]

theorem lines_records (records : List (Record String)) :
    (joinBlocks (itemLines step (records.map Record.toJson))).map (step ++ ·) =
      (rowsOf records).map (TextRow.line step) := by
  -- What stands last is closed by nothing.
  have plain : ∀ lines : List String, closeLines "" lines = lines := fun lines => by
    rcases List.eq_nil_or_concat lines with rfl | ⟨front, last, rfl⟩
    · rfl
    · rw [List.concat_eq_append, closeLines_append, String.append_empty]
  induction records with
  | nil => rfl
  | cons r rest ih =>
    cases rest with
    | nil =>
      have last := @lines_record step "" r
      rw [plain] at last
      exact last
    | cons next rest =>
      simp only [List.map_cons, itemLines, joinBlocks, rowsOf, List.map_append, lines_record] at ih ⊢
      rw [ih]

/-- The lines of a snapshot are its rows. -/
theorem Snapshot.lines_eq (s : Snapshot) (indent : Json.Indent) :
    s.lines (some indent) = s.rows.map (TextRow.line indent.step) := by
  have inner := @lines_records indent.step s.records
  have none_ : (itemLines indent.step (s.records.map Record.toJson)).isEmpty = s.records.isEmpty := by
    cases s.records <;> rfl
  rw [Snapshot.lines, Json.linesWith, Json.lines, Snapshot.rows, bracketed, none_, inner]
  cases s.records.isEmpty <;> simp [indented]

/-! ### Masked rows -/

theorem Record.rows_masked (tail : String) (r : Record String) :
    r.masked.rows tail = (r.rows tail).map TextRow.masked := by
  -- Fields are left alone, even where their text looks like a mention.
  have fields : ∀ entries, (fieldRows entries).map TextRow.masked = fieldRows entries := fun entries => by
    induction entries with
    | nil => rfl
    | cons entry rest ih =>
      cases rest with
      | nil => rfl
      | cons next rest => rw [fieldRows, List.map_cons, ih, TextRow.masked]; simp
  have first : r.masked.fieldsRows = r.fieldsRows.map TextRow.masked := by
    change r.fieldsRows = _
    unfold fieldsRows
    split <;> simp [fields, TextRow.masked]
  have slots : r.masked.slotsRows = r.slotsRows.map TextRow.masked := by
    unfold slotsRows
    simp only [masked, replaceIds]
    cases r.kind.slot? with
    | none => rfl
    | some slot => cases r.head <;> rfl
  have next : r.masked.nextRow = r.nextRow.masked := by
    unfold nextRow
    simp only [masked, replaceIds]
    cases r.next <;> rfl
  rw [rows, rows, memberRows, memberRows, first, slots, next]
  simp [TextRow.masked, masked, replaceIds]

theorem rowsOf_masked (records : List (Record String)) :
    rowsOf (records.map Record.masked) = (rowsOf records).map TextRow.masked := by
  induction records with
  | nil => rfl
  | cons r rest ih =>
    cases rest with
    | nil => exact r.rows_masked ""
    | cons next rest =>
      simp only [List.map_cons, rowsOf, List.map_append, Record.rows_masked] at ih ⊢
      rw [ih]

/-- The masked lines of a snapshot are its masked rows, where it is indented by blanks. -/
theorem Snapshot.maskedLines_eq (s : Snapshot) (width : Int) :
    s.maskedLines (some (.blanks width)) =
      (s.rows.map TextRow.masked).map (TextRow.line (Json.Indent.blanks width).step) := by
  have lines := lines_eq ⟨s.records.map Record.masked, s.ids⟩ (.blanks width)
  rw [Snapshot.lines, List.map_map] at lines
  -- The mask of a snapshot is the snapshot of the masked records.
  refine Eq.trans lines (congrArg _ ?_)
  rw [rows, rows, rowsOf_masked, List.isEmpty_map]
  split <;> simp [TextRow.masked]

/-! ### Where labels are mentioned -/

/-- What rows mention, each label with the number of its row, where the first row has the given number. -/
def mentionsIn : Nat → List TextRow → List (String × Nat)
  | _, [] => []
  | start, .inert .. :: rest => mentionsIn (start + 1) rest
  | start, .mention _ label :: rest => (label, start) :: mentionsIn (start + 1) rest

theorem mentionsIn_append (start : Nat) (rows rows' : List TextRow) :
    mentionsIn start (rows ++ rows') = mentionsIn start rows ++ mentionsIn (start + rows.length) rows' := by
  induction rows generalizing start with
  | nil => rfl
  | cons row rest ih =>
    have later : start + 1 + rest.length = start + (rest.length + 1) := by omega
    cases row <;> simp [mentionsIn, ih, later]

/-- A label is mentioned in a row just if the row of that number is a mention of it. -/
theorem mem_mentionsIn {start line : Nat} {label : String} {rows : List TextRow} :
    (label, line) ∈ mentionsIn start rows ↔
      ∃ n spot, line = start + n ∧ rows[n]? = some (.mention spot label) := by
  induction rows generalizing start with
  | nil => simp [mentionsIn]
  | cons row rest ih =>
    -- A row is the first one, or one of the rest with a number less by one.
    have split : (∃ n spot, line = start + n ∧ (row :: rest)[n]? = some (.mention spot label)) ↔
        (∃ spot, line = start ∧ row = .mention spot label) ∨
          ∃ n spot, line = start + 1 + n ∧ rest[n]? = some (.mention spot label) := by
      constructor
      · rintro ⟨n, spot, same, at_⟩
        cases n with
        | zero => exact .inl ⟨spot, same, by simpa using at_⟩
        | succ n => exact .inr ⟨n, spot, by omega, by simpa using at_⟩
      · rintro (⟨spot, same, at_⟩ | ⟨n, spot, same, at_⟩)
        · exact ⟨0, spot, same, by simpa using at_⟩
        · exact ⟨n + 1, spot, by omega, by simpa using at_⟩
    rw [split]
    cases row with
    | inert => simp [mentionsIn, ih]
    | mention spot' label' =>
      rw [mentionsIn, List.mem_cons, ih]
      refine or_congr_left ⟨?_, ?_⟩
      · rintro ⟨rfl, rfl⟩
        exact ⟨spot', rfl, rfl⟩
      · rintro ⟨spot, rfl, same⟩
        cases same
        rfl

/-- The fields of a record mention nothing. -/
theorem fieldRows_spec (start : Nat) (entries : List (String × String)) :
    mentionsIn start (fieldRows entries) = [] ∧ (fieldRows entries).length = entries.length := by
  induction entries generalizing start with
  | nil => exact ⟨rfl, rfl⟩
  | cons entry rest ih =>
    cases rest with
    | nil => exact ⟨rfl, rfl⟩
    | cons next rest =>
      obtain ⟨none_, length⟩ := ih (start + 1)
      rw [fieldRows, mentionsIn, List.length_cons, length]
      · exact ⟨none_, rfl⟩
      · simp

/-- The rows of a record mention labels where the record does, and they are as many as its lines. -/
theorem Record.rows_spec (start : Nat) (tail : String) (r : Record String) :
    mentionsIn start (r.rows tail) = r.mentions start ∧ (r.rows tail).length = r.height := by
  obtain ⟨none_, length⟩ := fieldRows_spec (start + 1 + 1) r.fields.entries
  have fields : mentionsIn (start + 1) r.fieldsRows = [] ∧
      r.fieldsRows.length = linesOf r.fields.entries.length := by
    unfold fieldsRows linesOf
    cases entries : r.fields.entries with
    | nil => exact ⟨rfl, rfl⟩
    | cons entry rest =>
      rw [entries] at none_ length
      simp only [List.isEmpty_cons, Bool.false_eq_true, if_false, List.cons_append, mentionsIn,
        mentionsIn_append, none_, List.length_cons, List.length_append, length]
      simp
  rw [rows, memberRows]
  simp only [List.cons_append, List.append_assoc, mentionsIn, mentionsIn_append, fields.1, fields.2,
    List.length_cons, List.length_append]
  -- What is left are the id, the next sibling and the slot, each with a line of its own.
  unfold mentions height slots nextRow slotsRows
  cases r.next <;> cases r.kind.slot? <;> cases r.head <;>
    simp [mentionsIn, TextRow.slotsAbove, linesOf]

theorem mentionsIn_rowsOf (start : Nat) (records : List (Record String)) :
    mentionsIn start (rowsOf records) = mentionsFrom start records := by
  induction records generalizing start with
  | nil => rfl
  | cons r rest ih =>
    cases rest with
    | nil =>
      rw [rowsOf, (r.rows_spec start "").1]
      simp [mentionsFrom]
    | cons next rest =>
      -- The next record begins right behind the lines of this one.
      obtain ⟨here, length⟩ := r.rows_spec start ","
      rw [rowsOf, mentionsIn_append, here, length, ih]
      · rfl
      · simp

/-- The rows of a snapshot, counted from one, mention labels on the lines on which its records do. -/
theorem Snapshot.mentionsIn_rows (s : Snapshot) : mentionsIn 1 s.rows = mentionsFrom 2 s.records := by
  unfold rows
  cases s.records with
  | nil => rfl
  | cons r rest =>
    simp only [List.isEmpty_cons, Bool.false_eq_true, if_false, List.cons_append, mentionsIn,
      mentionsIn_append, mentionsIn_rowsOf]
    simp

end DocSync
