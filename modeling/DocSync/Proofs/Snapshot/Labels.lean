import DocSync.Snapshot.Basic
import DocSync.Proofs.Assoc
import DocSync.Proofs.Text.Numeral

/-!
Labels: every record is mentioned on a line of its own, so its line and its kind tell it apart from
all others.
-/

namespace DocSync

variable {ι κ : Type}

/-! ### Lines -/

/-- What a record mentions stands on lines of its own, one after the other. -/
theorem Record.mentions_spec (start : Nat) (r : Record ι) :
    ((r.mentions start).map Prod.snd).Pairwise (· < ·) ∧
      ∀ p ∈ r.mentions start, start ≤ p.2 ∧ p.2 < start + r.height := by
  unfold Record.mentions Record.height Record.slots
  have one : ∀ n, 1 ≤ Record.linesOf n := fun n => by unfold Record.linesOf; split <;> omega
  have fields := one r.fields.entries.length
  have slots := one (r.slots.length)
  unfold Record.slots at slots
  cases r.kind.slot? <;> cases r.next <;> cases r.head <;>
    simp at slots ⊢ <;> omega

/-- The number of lines that records take. -/
def heightOf (records : List (Record ι)) : Nat := (records.map Record.height).sum

/-- What records mention stands within the lines they take. -/
theorem mentionsFrom_lt (start : Nat) (records : List (Record ι)) :
    ∀ p ∈ mentionsFrom start records, p.2 < start + heightOf records := by
  induction records generalizing start with
  | nil => simp [mentionsFrom]
  | cons r rest ih =>
    intro p member
    have total : heightOf (r :: rest) = r.height + heightOf rest := by simp [heightOf]
    rw [mentionsFrom] at member
    rcases List.mem_append.1 member with inside | behind
    · have := ((r.mentions_spec start).2 p inside).2
      omega
    · have := ih (start + r.height) p behind
      omega

/-- Records mention names on ascending lines. -/
theorem mentionsFrom_ascending (start : Nat) (records : List (Record ι)) :
    ((mentionsFrom start records).map Prod.snd).Pairwise (· < ·) ∧
      ∀ p ∈ mentionsFrom start records, start ≤ p.2 := by
  induction records generalizing start with
  | nil => simp [mentionsFrom]
  | cons r rest ih =>
    obtain ⟨here, within⟩ := r.mentions_spec start
    obtain ⟨later, above⟩ := ih (start + r.height)
    -- What a record mentions lies within its own lines, and the next ones start behind them.
    rw [mentionsFrom, List.map_append, List.pairwise_append]
    refine ⟨⟨here, later, fun a left b right => ?_⟩, fun p member => ?_⟩
    · obtain ⟨p, inside, rfl⟩ := List.mem_map.1 left
      obtain ⟨q, behind, rfl⟩ := List.mem_map.1 right
      have := within p inside
      have := above q behind
      omega
    · rcases List.mem_append.1 member with inside | behind
      · exact (within p inside).1
      · have := above p behind
        omega

/-- Every record is mentioned. -/
theorem mem_mentionsFrom (start : Nat) {records : List (Record ι)} {r : Record ι}
    (member : r ∈ records) : ∃ line, (r.id, line) ∈ mentionsFrom start records := by
  induction records generalizing start with
  | nil => cases member
  | cons first rest ih =>
    rw [mentionsFrom]
    rcases List.mem_cons.1 member with same | later
    · subst same
      exact ⟨_, List.mem_append_left _ List.mem_cons_self⟩
    · obtain ⟨line, inside⟩ := ih (start + first.height) later
      exact ⟨line, List.mem_append_right _ inside⟩

/-- The line on which records first mention a name. -/
def lineOf [DecidableEq ι] (records : List (Record ι)) (id : ι) : Nat :=
  ((mentionsFrom 2 records).lookup id).getD 0

/-- The line found for a name is one of its own lines. -/
theorem lineOf_mem [DecidableEq ι] {records : List (Record ι)} {r : Record ι}
    (member : r ∈ records) : (r.id, lineOf records r.id) ∈ mentionsFrom 2 records := by
  obtain ⟨line, inside⟩ := mem_mentionsFrom 2 member
  unfold lineOf
  cases first : (mentionsFrom 2 records).lookup r.id with
  | none => exact absurd rfl (Assoc.lookup_eq_none_iff.1 first _ inside)
  | some first' =>
    obtain ⟨before, behind, split, _⟩ := List.lookup_eq_some_iff.1 first
    rw [split]
    simp

/-- A record is first mentioned within the lines that all of them take. -/
theorem lineOf_bounds [DecidableEq ι] {records : List (Record ι)} {r : Record ι}
    (member : r ∈ records) :
    1 ≤ lineOf records r.id ∧ lineOf records r.id ≤ heightOf records + 1 := by
  have low := (mentionsFrom_ascending 2 records).2 _ (lineOf_mem member)
  have high := mentionsFrom_lt 2 records _ (lineOf_mem member)
  omega

/-- Different names are first mentioned on different lines. -/
theorem lineOf_injective [DecidableEq ι] {records : List (Record ι)} {r r' : Record ι}
    (member : r ∈ records) (member' : r' ∈ records)
    (same : lineOf records r.id = lineOf records r'.id) : r.id = r'.id := by
  obtain ⟨ascending, _⟩ := mentionsFrom_ascending 2 records
  have nodup : ((mentionsFrom 2 records).map Prod.snd).Nodup :=
    ascending.imp fun less => Nat.ne_of_lt less
  have pair := List.inj_on_of_nodup_map nodup (lineOf_mem member) (lineOf_mem member') same
  exact congrArg Prod.fst pair

/-! ### Labels -/

/-- The label of a line and a kind. -/
def labelText (line : Nat) (kind : Kind) : String := toString line ++ "|" ++ kind.name

/-- A label begins with the digits of its line. -/
theorem takeWhile_labelText (line : Nat) (kind : Kind) :
    (labelText line kind).toList.takeWhile (· != '|') = Nat.toDigits 10 line := by
  have digits : ∀ c ∈ Nat.toDigits 10 line, (c != '|') = true := fun c member =>
    bne_iff_ne.2 (Text.ne_of_isDigit (Nat.isDigit_of_mem_toDigits (by decide) (by decide) member)
      (by decide))
  have split : (labelText line kind).toList = Nat.toDigits 10 line ++ '|' :: kind.name.toList := by
    simp [labelText, Nat.toString_eq_repr]
  rw [split, List.takeWhile_append_of_pos digits]
  simp

theorem labelText_injective {line line' : Nat} {kind kind' : Kind}
    (same : labelText line kind = labelText line' kind') : line = line' := by
  have digits : Nat.toDigits 10 line = Nat.toDigits 10 line' := by
    rw [← takeWhile_labelText line kind, ← takeWhile_labelText line' kind', same]
  have read := congrArg (fun cs => Nat.ofDigitChars 10 cs 0) digits
  simpa using read

/-- Records of different names are labelled in turn. -/
theorem Snapshot.labelsOf_eq {records : List (Record Name)}
    (nodup : (records.map Record.id).Nodup) :
    labelsOf records = records.map fun r => (r.id, labelText (lineOf records r.id) r.kind) := by
  have names : ((records.map fun r => (r.id, labelText (lineOf records r.id) r.kind)).map
      Prod.fst).Nodup := by
    rw [List.map_map]
    exact nodup
  rw [← Assoc.foldl_set names, List.foldl_map]
  rfl

end DocSync
