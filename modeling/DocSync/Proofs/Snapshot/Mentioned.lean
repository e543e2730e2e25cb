import DocSync.Proofs.Model.Reachable
import DocSync.Proofs.Snapshot.Rows
import DocSync.Proofs.Snapshot.Shape
import DocSync.Proofs.Text.Unbroken

/-!
Labels and the text they stand in. A line of a snapshot's text shows by itself whether it mentions a node
and which one, and the number in a label is that of the first line that mentions it.
-/

namespace DocSync

open Json (isUnbroken_quote quote quote_cancel quote_start)
open Text (isUnbroken)

variable {step : String} {rows rows' : List TextRow} {row : TextRow} {spot : Spot} {label : String} {n : Nat}

/-! ### Mentions in a text -/

/-- The line with a number, counted from zero, mentions a label: as the id of a record, as its next sibling,
or as what its slot leads to, right below the line that opens the slots. -/
def Mentions (step : String) (lines : List String) (n : Nat) (spot : Spot) (label : String) : Prop :=
  lines[n]? = some (indented step (spot.text label) spot.depth) ∧
    ∀ name, spot = .slot name →
      ∃ above, n = above + 1 ∧ lines[above]? = some (TextRow.slotsAbove.line step)

/-! ### Solid texts -/

/-- A text does not begin with a blank, and it is no more than a line. -/
def isSolid (text : String) : Bool :=
  text.toList.head?.any (· ≠ ' ') && isUnbroken text.toList

/-- A quoted text with something behind it is solid if what is behind has no end of line. -/
theorem isSolid_quote (text : String) {tail : String} (unbroken : isUnbroken tail.toList = true) :
    isSolid (quote text ++ tail) = true := by
  obtain ⟨rest, written⟩ := quote_start text
  rw [isSolid, String.toList_append, Text.isUnbroken_append, isUnbroken_quote, unbroken, written]
  rfl

/-- A member whose value is in quotes is solid. -/
theorem isSolid_member (name value : String) {tail : String} (unbroken : isUnbroken tail.toList = true) :
    isSolid (quote name ++ ": " ++ quote value ++ tail) = true := by
  rw [String.append_assoc, String.append_assoc]
  refine isSolid_quote name ?_
  simp only [String.toList_append, Text.isUnbroken_append, isUnbroken_quote, unbroken]
  rfl

theorem isSolid_last (name value : String) : isSolid (quote name ++ ": " ++ quote value) = true := by
  rw [← String.append_empty (s := quote name ++ ": " ++ quote value)]
  exact isSolid_member name value rfl

/-- The line of a mention is solid. -/
theorem isSolid_text (label : String) (spot : Spot) : isSolid (spot.text label) = true := by
  cases spot with
  | id => exact isSolid_member "id" label (by decide)
  | next => exact isSolid_member "next" label (by decide)
  | slot name => exact isSolid_last name label

/-! ### How rows are arranged -/

/-- A text is no mention of an id or of a next sibling. -/
def Silent (text : String) : Prop := ∀ label, text ≠ Spot.id.text label ∧ text ≠ Spot.next.text label

theorem silent_of_start {text : String} (id : ¬ "\"id\": ".toList <+: text.toList)
    (next : ¬ "\"next\": \"".toList <+: text.toList) : Silent text := by
  intro label
  constructor
  · rintro rfl
    rw [Spot.text, String.append_assoc, String.toList_append] at id
    exact id (List.prefix_append _ _)
  · rintro rfl
    obtain ⟨rest, written⟩ := quote_start label
    have name : (quote "next").toList = "\"next\"".toList := by decide
    rw [Spot.text, String.toList_append, String.toList_append, String.toList_append, written, name] at next
    exact next ⟨rest ++ [','], by simp⟩

/-- A row is neither the one above the slots of a record nor the one of a slot. -/
def TextRow.Plain : TextRow → Prop
  | .inert depth text => isSolid text = true ∧ (depth = 2 → Silent text ∧ .inert 2 text ≠ slotsAbove)
  | .mention spot _ => spot.depth = 2

/-- The row of a slot. -/
inductive TextRow.IsSlot : TextRow → Prop
  | leads (name label : String) : IsSlot (.mention (.slot name) label)
  | empty (name : String) : IsSlot (.inert 3 (quote name ++ ": null"))

/-- A slot that leads nowhere shows no label. -/
theorem TextRow.IsSlot.text_ne {depth : Nat} {text name : String} (isSlot : (inert depth text).IsSlot) :
    text ≠ (Spot.slot name).text label := by
  rintro rfl
  generalize same : inert depth ((Spot.slot name).text label) = row at isSlot
  cases isSlot with
  | leads => cases same
  | empty name' =>
    obtain ⟨rest, written⟩ := quote_start label
    have texts := congrArg (fun row => (TextRow.text row).toList) same
    simp only [TextRow.text, Spot.text, String.toList_append, List.append_assoc, written] at texts
    obtain ⟨-, behind⟩ := quote_cancel texts
    have values : '"' :: rest = "null".toList := List.append_cancel_left behind
    cases values

/-- The rows of slots stand below those that open the slots, and nowhere else. -/
inductive Arranged : List TextRow → Prop
  | nil : Arranged []
  | plain {row : TextRow} {rest : List TextRow} : row.Plain → Arranged rest → Arranged (row :: rest)
  | slot {row : TextRow} {rest : List TextRow} : row.IsSlot → Arranged rest →
    Arranged (.slotsAbove :: row :: rest)

namespace Arranged

theorem append (first : Arranged rows) (second : Arranged rows') : Arranged (rows ++ rows') := by
  induction first with
  | nil => exact second
  | plain row _ ih => exact .plain row ih
  | slot row _ ih => exact .slot row ih

theorem of_forall (plain : ∀ row ∈ rows, row.Plain) : Arranged rows := by
  induction rows with
  | nil => exact .nil
  | cons row rest ih =>
    rw [List.forall_mem_cons] at plain
    exact .plain plain.1 (ih plain.2)

/-- A row of a slot stands below the row that opens the slots. -/
theorem exists_above (arranged : Arranged rows) {name : String}
    (at_ : rows[n]? = some (.mention (.slot name) label)) :
    ∃ above, n = above + 1 ∧ rows[above]? = some .slotsAbove := by
  induction arranged generalizing n with
  | nil => cases at_
  | plain plain _ ih =>
    cases n with
    | zero =>
      -- A plain row mentions nothing in a slot.
      obtain rfl := Option.some.inj at_
      cases plain
    | succ n =>
      obtain ⟨above, rfl, found⟩ := ih at_
      exact ⟨above + 1, rfl, found⟩
  | slot _ _ ih =>
    -- The two rows come together, and the row of the slot is the second.
    match n with
    | 0 => cases at_
    | 1 => exact ⟨0, rfl, rfl⟩
    | n + 2 =>
      obtain ⟨above, rfl, found⟩ := ih at_
      exact ⟨above + 2, rfl, found⟩

/-- Below the row that opens the slots stands the row of a slot. -/
theorem exists_below (arranged : Arranged rows) (at_ : rows[n]? = some .slotsAbove) :
    ∃ row, rows[n + 1]? = some row ∧ row.IsSlot := by
  induction arranged generalizing n with
  | nil => cases at_
  | plain plain _ ih =>
    cases n with
    | zero =>
      -- A plain row does not open the slots.
      obtain rfl := Option.some.inj at_
      exact absurd rfl (plain.2 rfl).2
    | succ n => exact ih at_
  | slot isSlot _ ih =>
    match n with
    | 0 => exact ⟨_, rfl, isSlot⟩
    | 1 =>
      obtain rfl := Option.some.inj at_
      cases isSlot
    | n + 2 => exact ih at_

theorem plain_or (arranged : Arranged rows) (inside : row ∈ rows) :
    row.Plain ∨ row = .slotsAbove ∨ row.IsSlot := by
  induction arranged with
  | nil => cases inside
  | plain plain _ ih =>
    rcases List.mem_cons.1 inside with rfl | later
    · exact .inl plain
    · exact ih later
  | slot isSlot _ ih =>
    rcases List.mem_cons.1 inside with rfl | inside
    · exact .inr (.inl rfl)
    rcases List.mem_cons.1 inside with rfl | later
    · exact .inr (.inr isSlot)
    · exact ih later

/-- No row begins with a blank or has an end of line in it. -/
theorem isSolid (arranged : Arranged rows) (inside : row ∈ rows) : isSolid row.text = true := by
  rcases arranged.plain_or inside with plain | rfl | isSlot
  · cases row with
    | inert => exact plain.1
    | mention => exact isSolid_text _ _
  · decide
  · cases isSlot with
    | leads => exact isSolid_text _ _
    | empty name => exact isSolid_quote name (by decide)

end Arranged

/-! ### The rows of a snapshot are arranged -/

/-- The id of a record and its next sibling have a depth of their own. -/
theorem plain_of_depth {depth : Nat} {text : String} (solid : isSolid text = true) (other : depth ≠ 2) :
    (TextRow.inert depth text).Plain :=
  ⟨solid, fun same => absurd same other⟩

theorem plain_of_start {text : String} (solid : isSolid text = true)
    (id : ¬ "\"id\": ".toList <+: text.toList) (next : ¬ "\"next\": \"".toList <+: text.toList)
    (other : .inert 2 text ≠ TextRow.slotsAbove) : (TextRow.inert 2 text).Plain :=
  ⟨solid, fun _ => ⟨silent_of_start id next, other⟩⟩

theorem plain_fieldRows (entries : List (String × String)) : ∀ row ∈ fieldRows entries, row.Plain := by
  induction entries with
  | nil => simp [fieldRows]
  | cons entry rest ih =>
    obtain ⟨name, value⟩ := entry
    cases rest with
    | nil => exact List.forall_mem_singleton.2 (plain_of_depth (isSolid_last name value) (by decide))
    | cons next rest =>
      rw [fieldRows]
      · have first : (TextRow.inert 3 (quote name ++ ": " ++ quote value ++ ",")).Plain :=
          plain_of_depth (isSolid_member name value rfl) (by decide)
        exact List.forall_mem_cons.2 ⟨first, ih⟩
      · simp

theorem Record.arranged_rows {tail : String} (solid : isSolid ("\x7d" ++ tail) = true) (r : Record String) :
    Arranged (r.rows tail) := by
  have fields : Arranged r.fieldsRows := by
    unfold fieldsRows
    split
    · exact .plain (plain_of_start (by decide) (by decide) (by decide) (by decide)) .nil
    · refine .of_forall (List.forall_mem_cons.2
        ⟨?_, List.forall_mem_append.2 ⟨plain_fieldRows _, ?_⟩⟩)
      · exact plain_of_start (by decide) (by decide) (by decide) (by decide)
      · exact List.forall_mem_singleton.2
          (plain_of_start (by decide) (by decide) (by decide) (by decide))
  -- A node without next sibling has a null there, which is no mention.
  have next : r.nextRow.Plain := by
    unfold nextRow
    cases r.next with
    | none => exact plain_of_start (by decide) (by decide) (by decide) (by decide)
    | some label => exact rfl
  have slots : Arranged r.slotsRows := by
    have close : (TextRow.inert 2 "\x7d,").Plain :=
      plain_of_start (by decide) (by decide) (by decide) (by decide)
    unfold slotsRows
    cases r.kind.slot? with
    | none => exact .plain (plain_of_start (by decide) (by decide) (by decide) (by decide)) .nil
    | some slot =>
      cases r.head with
      | none => exact .slot (.empty slot) (.plain close .nil)
      | some label => exact .slot (.leads slot label) (.plain close .nil)
  have kind : (TextRow.inert 2 (quote "type" ++ ": " ++ quote r.kind.name)).Plain := by
    cases r.kind <;> exact plain_of_start (by decide) (by decide) (by decide) (by decide)
  have members : Arranged r.memberRows := by
    rw [memberRows]
    have id_ : TextRow.Plain (.mention .id r.id) := rfl
    exact (fields.append (.plain id_ (.plain next slots))).append (.plain kind .nil)
  exact .append (.plain (plain_of_depth (by decide) (by decide)) members)
    (.plain (plain_of_depth solid (by decide)) .nil)

theorem arranged_rowsOf (records : List (Record String)) : Arranged (rowsOf records) := by
  induction records with
  | nil => exact .nil
  | cons r rest ih =>
    cases rest with
    | nil => exact r.arranged_rows (by decide)
    | cons next rest =>
      rw [rowsOf]
      · exact (r.arranged_rows (by decide)).append ih
      · simp

theorem Snapshot.arranged_rows (s : Snapshot) : Arranged s.rows := by
  have outer : ∀ {text : String}, isSolid text = true → (TextRow.inert 0 text).Plain := fun solid =>
    plain_of_depth solid (by decide)
  unfold rows
  split
  · exact .plain (outer (by decide)) .nil
  · exact .append (.plain (outer (by decide)) (arranged_rowsOf _)) (.plain (outer (by decide)) .nil)

/-! ### Reading rows off their lines -/

/-- Behind an indentation by blanks a text shows how deep it is indented. -/
theorem indented_cancel {text text' : String} {width depth depth' : Nat}
    (blanks : step.toList = List.replicate (width + 1) ' ') (solid : isSolid text = true)
    (solid' : isSolid text' = true) (same : indented step text depth = indented step text' depth') :
    text = text' ∧ depth = depth' := by
  -- What is indented begins with a blank, and no solid text does.
  have apart : ∀ {text text' : String} {depth : Nat}, isSolid text = true →
      text ≠ indented step text' (depth + 1) := by
    rintro text text' depth solid rfl
    rw [isSolid, indented, String.toList_append, blanks] at solid
    simp [List.replicate_succ] at solid
  induction depth generalizing depth' with
  | zero =>
    cases depth' with
    | zero => exact ⟨same, rfl⟩
    | succ depth' => exact absurd same (apart solid)
  | succ depth ih =>
    cases depth' with
    | zero => exact absurd same.symm (apart solid')
    | succ depth' =>
      obtain ⟨text, depth⟩ := ih ((String.append_right_inj step).1 same)
      exact ⟨text, congrArg (· + 1) depth⟩

/-- What is mentioned, and at which spot, is known from the line. -/
theorem Spot.text_cancel {spot spot' : Spot} {label label' : String} (depth : spot.depth = spot'.depth)
    (same : spot.text label = spot'.text label') : spot = spot' ∧ label = label' := by
  replace same := congrArg String.toList same
  -- Two members have one name and one value.
  have cancel : ∀ {name name' : String} {tail tail' : List Char},
      (quote name).toList ++ (": ".toList ++ ((quote label).toList ++ tail)) =
        (quote name').toList ++ (": ".toList ++ ((quote label').toList ++ tail')) →
      name = name' ∧ label = label' := by
    intro name name' tail tail' same
    obtain ⟨names, same⟩ := quote_cancel same
    exact ⟨names, (quote_cancel (List.append_cancel_left same)).1⟩
  cases spot <;> cases spot' <;> simp only [Spot.text, String.toList_append, List.append_assoc] at same
  case id.id | next.next => exact ⟨rfl, (cancel same).2⟩
  case id.next | next.id => exact absurd (cancel same).1 (by decide)
  case slot.slot name name' =>
    obtain ⟨names, labels⟩ := @cancel name name' [] [] (by simpa using same)
    exact ⟨congrArg Spot.slot names, labels⟩
  all_goals cases depth

theorem silent_slotsAbove : Silent TextRow.slotsAbove.text :=
  silent_of_start (by decide) (by decide)

section Reading

variable {width : Nat} (arranged : Arranged rows) (blanks : step.toList = List.replicate (width + 1) ' ')
include arranged blanks

/-- The row that opens the slots is known from its line. -/
theorem eq_slotsAbove (inside : row ∈ rows) (same : row.line step = TextRow.slotsAbove.line step) :
    row = .slotsAbove := by
  obtain ⟨text, depth⟩ := indented_cancel blanks (arranged.isSolid inside) (by decide) same
  cases row with
  | inert depth' text' =>
    cases text
    cases depth
    rfl
  | mention spot label =>
    -- The name of the member is another one, and slots are mentioned further in.
    cases spot with
    | id => exact absurd text.symm (silent_slotsAbove label).1
    | next => exact absurd text.symm (silent_slotsAbove label).2
    | slot => cases depth

/-- The lines of a snapshot mention what its rows mention. -/
theorem mentions_iff : Mentions step (rows.map (TextRow.line step)) n spot label ↔
    rows[n]? = some (.mention spot label) := by
  have at_line : ∀ {k : Nat} {line : String}, (rows.map (TextRow.line step))[k]? = some line ↔
      ∃ row, rows[k]? = some row ∧ row.line step = line := by
    intro k line
    rw [List.getElem?_map, Option.map_eq_some_iff]
  constructor
  · rintro ⟨at_, opened⟩
    obtain ⟨row, found, same⟩ := at_line.1 at_
    have inside := List.mem_of_getElem? found
    obtain ⟨text, depth⟩ :=
      indented_cancel blanks (arranged.isSolid inside) (isSolid_text label spot) same
    cases row with
    | mention spot' label' =>
      obtain ⟨rfl, rfl⟩ := Spot.text_cancel depth text
      exact found
    | inert depth' text' =>
      obtain rfl : text' = spot.text label := text
      obtain rfl : depth' = spot.depth := depth
      -- The row of a slot is the only one that its line could be mistaken for.
      have silent : spot.depth = 2 → Silent (spot.text label) := by
        intro shallow
        rw [shallow] at inside
        rcases arranged.plain_or inside with plain | other | isSlot
        · exact (plain.2 rfl).1
        · rw [show spot.text label = TextRow.slotsAbove.text from congrArg TextRow.text other]
          exact silent_slotsAbove
        · cases isSlot
      cases spot with
      | id => exact absurd rfl (silent rfl label).1
      | next => exact absurd rfl (silent rfl label).2
      | slot name =>
        -- A field may be written like a slot, but not below the line that opens the slots.
        obtain ⟨above, rfl, atAbove⟩ := opened name rfl
        obtain ⟨row, foundAbove, same'⟩ := at_line.1 atAbove
        obtain rfl := eq_slotsAbove arranged blanks (List.mem_of_getElem? foundAbove) same'
        obtain ⟨row, foundBelow, isSlot⟩ := arranged.exists_below foundAbove
        obtain rfl := Option.some.inj (found.symm.trans foundBelow)
        exact absurd rfl isSlot.text_ne
  · intro found
    refine ⟨at_line.2 ⟨_, found, rfl⟩, ?_⟩
    rintro name rfl
    obtain ⟨above, rfl, foundAbove⟩ := arranged.exists_above found
    exact ⟨above, rfl, at_line.2 ⟨_, foundAbove, rfl⟩⟩

end Reading

/-! ### The lines of a snapshot -/

/-- A label is first mentioned on the line that is found for it. -/
theorem lineOf_le {ι : Type} [DecidableEq ι] {records : List (Record ι)} {id : ι} {line : Nat}
    (inside : (id, line) ∈ mentionsFrom 2 records) : lineOf records id ≤ line := by
  obtain ⟨ascending, -⟩ := mentionsFrom_ascending 2 records
  unfold lineOf
  cases first : (mentionsFrom 2 records).lookup id with
  | none => exact absurd rfl (Assoc.lookup_eq_none_iff.1 first _ inside)
  | some line' =>
    obtain ⟨before, behind, split, other⟩ := List.lookup_eq_some_iff.1 first
    rw [split] at inside ascending
    rcases List.mem_append.1 inside with early | late
    · -- What stands before the first mention is of other labels.
      exact absurd rfl (bne_iff_ne.1 (other _ early))
    · -- What is mentioned later is mentioned on later lines.
      rw [List.map_append, List.map_cons, List.pairwise_append, List.pairwise_cons] at ascending
      rcases List.mem_cons.1 late with same | later
      · cases same
        exact Nat.le_refl _
      · exact Nat.le_of_lt (ascending.2.1.1 _ (List.mem_map_of_mem later))

namespace Snapshot

/-- The snapshot's text cut into lines. -/
def textLines (s : Snapshot) (indent : Option Json.Indent) : List String :=
  (Text.lines (s.text indent).toList).map String.ofList

variable (s : Snapshot) {width : Int} (positive : 0 < width)
include positive

theorem toList_blanks : (Json.Indent.blanks width).step.toList =
    List.replicate ((width.toNat - 1) + 1) ' ' := by
  rw [Json.Indent.step, String.toList_ofList]
  congr 1
  omega

/-- The lines of the text are the lines that the text was put together from. -/
theorem textLines_eq : s.textLines (some (.blanks width)) = s.lines (some (.blanks width)) := by
  have arranged := s.arranged_rows
  have blank : isUnbroken (Json.Indent.blanks width).step.toList = true := by
    rw [toList_blanks positive]
    exact Text.isUnbroken_replicate (by decide) _
  -- No row has an end of line in it, and none is empty.
  have each : ∀ (text : String) (depth : Nat), isSolid text = true →
      isUnbroken (indented (Json.Indent.blanks width).step text depth).toList = true ∧
        (indented (Json.Indent.blanks width).step text depth).toList ≠ [] := by
    intro text depth solid
    induction depth with
    | zero =>
      rw [isSolid, Bool.and_eq_true] at solid
      refine ⟨solid.2, fun empty => ?_⟩
      rw [indented] at empty
      rw [empty] at solid
      exact absurd solid.1 (by decide)
    | succ depth ih =>
      rw [indented, String.toList_append, Text.isUnbroken_append, blank, ih.1]
      exact ⟨rfl, by simp [ih.2]⟩
  have whole : ∀ line ∈ (s.lines (some (.blanks width))).map String.toList,
      isUnbroken line = true ∧ line ≠ [] := by
    rw [s.lines_eq, List.map_map]
    intro line inside
    obtain ⟨row, member, rfl⟩ := List.mem_map.1 inside
    exact each row.text row.depth (arranged.isSolid member)
  rw [textLines, text, String.toList_intercalate]
  change (Text.lines (['\n'].intercalate _)).map String.ofList = _
  rw [Text.lines_intercalate (fun line inside => (whole line inside).1)
    fun line inside => (whole line inside).2, List.map_map]
  simp [Function.comp_def]

/-- The lines of the text mention what the rows of the snapshot mention. -/
theorem mentions_textLines_iff {n : Nat} {spot : Spot} {label : String} :
    Mentions (Json.Indent.blanks width).step (s.textLines (some (.blanks width))) n spot label ↔
      s.rows[n]? = some (.mention spot label) := by
  rw [s.textLines_eq positive, s.lines_eq]
  exact mentions_iff s.arranged_rows (toList_blanks positive)

/-- A label is mentioned on a line just if the records mention it there. -/
theorem exists_mentions_iff {n : Nat} {label : String} :
    (∃ spot, Mentions (Json.Indent.blanks width).step (s.textLines (some (.blanks width))) n spot label) ↔
      (label, n + 1) ∈ mentionsFrom 2 s.records := by
  rw [← s.mentionsIn_rows, mem_mentionsIn]
  simp only [s.mentions_textLines_iff positive]
  constructor
  · rintro ⟨spot, found⟩
    exact ⟨n, spot, Nat.add_comm n 1, found⟩
  · rintro ⟨k, spot, same, found⟩
    obtain rfl : n = k := by omega
    exact ⟨spot, found⟩

omit positive in
/-- The masked lines are those of the masked rows. -/
theorem getElem?_maskedLines {n : Nat} : (s.maskedLines (some (.blanks width)))[n]? =
    (s.rows[n]?.map TextRow.masked).map (TextRow.line (Json.Indent.blanks width).step) := by
  rw [s.maskedLines_eq, List.getElem?_map, List.getElem?_map]

end Snapshot

/-- The labels of a snapshot of what the editor can reach, under an indentation by one blank or more. There is
one record for each node of the model, and the labels differ. The number in a label is that of the line of
the text, counted from one, that mentions it first, where only the id of a record, its next sibling and
what its slot leads to count as mentions, and no field. The masked lines are as many as those of the text
and differ from them in the mentions alone. -/
theorem firstMentioned_of_snapshot {config : Config} {width : Int}
    (given : config.givenSnapshotIndent = .ok (some (.blanks width))) (positive : 0 < width)
    {w : Workspace} (reached : Reachable w) :
    ∃ s step lines masked, w.model.snapshotUnder config = .ok s ∧
      step = (Json.Indent.blanks width).step ∧ lines = s.textLines (some (.blanks width)) ∧
      masked = s.maskedLines (some (.blanks width)) ∧
      (s.records.map Record.id).Nodup ∧ (∃ label, s.Depicts w.model w.model.canonicalOrder label) ∧
      (∀ r ∈ s.records, ∃ n, r.id = labelText (n + 1) r.kind ∧ (∃ spot, Mentions step lines n spot r.id) ∧
        ∀ n' spot, Mentions step lines n' spot r.id → n ≤ n') ∧
      masked.length = lines.length ∧
      (∀ n spot label, Mentions step lines n spot label →
        masked[n]? = some (indented step (spot.text Record.mask) spot.depth)) ∧
      ∀ n, (∀ spot label, ¬ Mentions step lines n spot label) → masked[n]? = lines[n]? := by
  obtain ⟨s, same⟩ : ∃ s, s = w.model.snapshot := ⟨_, rfl⟩
  have sound := reached.sound
  have depicts := sound.depicts_snapshot
  rw [← same] at depicts
  refine ⟨s, _, _, _, ?_, rfl, rfl, rfl, ?_, ⟨_, depicts⟩, ?_, ?_, ?_, ?_⟩
  · rw [Model.snapshotUnder, given, same]
    rfl
  · rw [depicts.map_id_records]
    exact depicts.nodup_labels
  · intro r inside
    rw [depicts.records] at inside
    obtain ⟨k, place, rfl⟩ := List.mem_map.1 inside
    have held := depicts.complete.1 place
    -- The line is found for the name of the node, and it is the one found for its label.
    have byName := sound.lineOf_shown (fun k => (w.model.node k).id.name) sound.named held
    have byLabel := sound.lineOf_shown w.model.labelOf sound.labelOf_injective held
    have number : w.model.labelOf k =
        labelText (lineOf s.records (w.model.labelOf k)) (w.model.node k).kind := by
      rw [depicts.records, byLabel, ← byName]
      rfl
    have member : w.model.shown w.model.labelOf k ∈ s.records :=
      depicts.records ▸ List.mem_map_of_mem place
    have bound := (lineOf_bounds member).1
    obtain ⟨n, line⟩ : ∃ n, lineOf s.records (w.model.labelOf k) = n + 1 :=
      ⟨_, (Nat.sub_add_cancel bound).symm⟩
    -- It mentions the label, and no line before it does.
    refine ⟨n, line ▸ number, (s.exists_mentions_iff positive).2 ?_, fun n' spot mentions => ?_⟩
    · rw [← line]
      exact lineOf_mem member
    · have first := lineOf_le ((s.exists_mentions_iff positive).1 ⟨spot, mentions⟩)
      rw [show (w.model.shown w.model.labelOf k).id = w.model.labelOf k from rfl, line] at first
      exact Nat.le_of_succ_le_succ first
  · rw [s.maskedLines_eq, s.textLines_eq positive, s.lines_eq]
    simp only [List.length_map]
  · intro n spot label mentions
    rw [s.getElem?_maskedLines, (s.mentions_textLines_iff positive).1 mentions]
    rfl
  · intro n silent
    rw [s.getElem?_maskedLines, s.textLines_eq positive, s.lines_eq, List.getElem?_map]
    cases at_ : s.rows[n]? with
    | none => rfl
    | some row =>
      -- A row that is no mention is not masked.
      cases row with
      | inert => rfl
      | mention spot label => exact absurd ((s.mentions_textLines_iff positive).2 at_) (silent spot label)

/-- The labels of an array with one item. The item is first mentioned as what the slot of the array leads
to. -/
theorem firstMentioned_of_snapshot_item : ∃ s lines, (readIn "[1]" 0).model.snapshotUnder {} = .ok s ∧
    lines = s.textLines (some (.blanks 2)) ∧ s.records.map Record.id = ["4|array", "7|scalar"] ∧
    ∀ r ∈ s.records, ∃ n, r.id = labelText (n + 1) r.kind ∧ (∃ spot, Mentions "  " lines n spot r.id) ∧
      ∀ n' spot, Mentions "  " lines n' spot r.id → n ≤ n' := by
  have labels : (readIn "[1]" 0).model.snapshot.records.map Record.id = ["4|array", "7|scalar"] := by
    decide +kernel
  obtain ⟨s, step, lines, masked, taken, rfl, cut, -, -, -, first, -⟩ :=
    @firstMentioned_of_snapshot {} 2 rfl (by decide) _ (reachable_readIn "[1]" 0)
  have same : (readIn "[1]" 0).model.snapshot = s := Except.ok.inj taken
  exact ⟨s, lines, taken, cut, same ▸ labels, first⟩

end DocSync
