import DocSync.Proofs.Model.Reachable
import DocSync.Proofs.Snapshot.Collision

/-!
The search for a label that is not in use. It ends at the first free label, and is given up only when all that
the limit allows are in use. Each label tried is another one, so where the limit allows as many labels as there
are records on both sides, each record finds its own.
-/

namespace DocSync

namespace Snapshot

variable {id kind label : String} {line limit : Int} {move : Int → Int} {inUse used : List String}
  {records : List (Record String)} {fuel probes n n' : Nat} {config : Config}

/-! ### The labels that are tried -/

/-- The number that a label begins with, up to its first bar. -/
def lineIn? (id : String) : Option Int := Text.readInt? (id.toList.takeWhile (· != '|'))

/-- What stands in a label behind its first bar. -/
def kindIn (id : String) : String :=
  String.ofList (id.toList.drop ((id.toList.takeWhile (· != '|')).length + 1))

/-- The label for the `n`th line behind a line, if its number is not too long. -/
def label? (kind : String) (line : Int) (n : Nat) : Option String :=
  (Text.writeInt? (line + n)).map fun number => number ++ "|" ++ kind

/-- The label for the `n`th line behind a line is in use. -/
def Taken (inUse : List String) (kind : String) (line : Int) (n : Nat) : Prop :=
  ∃ label ∈ inUse, label? kind line n = some label

theorem label?_injective (first : label? kind line n = some label)
    (second : label? kind line n' = some label) : n = n' := by
  obtain ⟨number, written, rfl⟩ := Option.map_eq_some_iff.1 first
  obtain ⟨number', written', same⟩ := Option.map_eq_some_iff.1 second
  rw [String.append_left_inj, String.append_left_inj] at same
  have lines := Text.eq_of_writeInt? written (same ▸ written')
  omega

/-- So many labels in use are so many different ones. -/
theorem le_length_of_taken (taken : ∀ n < fuel, Taken inUse kind line n) (among : inUse ⊆ used) :
    fuel ≤ used.length := by
  have found : ∀ n ∈ List.range fuel, ((label? kind line n).getD "") ∈ used ∧
      label? kind line n = some ((label? kind line n).getD "") := by
    intro n inside
    obtain ⟨label, member, is⟩ := taken n (List.mem_range.1 inside)
    rw [is]
    exact ⟨among member, rfl⟩
  have nodup : ((List.range fuel).map fun n => (label? kind line n).getD "").Nodup := by
    refine List.nodup_range.map_on fun n inside n' inside' same => ?_
    exact label?_injective (found n inside).2 (same ▸ (found n' inside').2)
  have fewer := (nodup.subperm fun label member => by
    obtain ⟨n, inside, rfl⟩ := List.mem_map.1 member
    exact (found n inside).1).length_le
  simpa using fewer

/-! ### The search -/

/-- How the search for a label ends: at the first free one, or when all that the limit allows are in use, or at
a number that is too long to be written. -/
inductive Probed (id kind : String) (line limit : Int) (inUse : List String) : Except Error String → Prop
  | free {n : Nat} {label : String} : n ≤ limit.toNat → (∀ n' < n, Taken inUse kind line n') →
    label? kind line n = some label → label ∉ inUse → Probed id kind line limit inUse (.ok label)
  | spent : (∀ n ≤ limit.toNat, Taken inUse kind line n) →
    Probed id kind line limit inUse (.error (.collision id (.int limit)))
  | long {n : Nat} : n ≤ limit.toNat → (∀ n' < n, Taken inUse kind line n') →
    label? kind line n = none → Probed id kind line limit inUse (.error (.longNumber id))

/-- One more label has been tried. -/
theorem taken_succ (taken : ∀ n < probes, Taken inUse kind line n)
    (here : Taken inUse kind line probes) : ∀ n < probes + 1, Taken inUse kind line n := by
  intro n inside
  rcases Nat.lt_succ_iff_lt_or_eq.1 inside with before | rfl
  · exact taken n before
  · exact here

theorem probed_probe (tried : ∀ n < probes, Taken inUse kind line n) (within : probes ≤ limit.toNat)
    (enough : inUse.length ≤ probes + fuel) :
    Probed id kind line limit inUse (probe id kind line inUse (.int limit) fuel probes) := by
  induction fuel generalizing probes with
  | zero =>
    unfold probe
    split
    · next none => exact .long within tried (by rw [label?, none]; rfl)
    · next number written =>
      have here : label? kind line probes = some (number ++ "|" ++ kind) := by rw [label?, written]; rfl
      simp only
      split
      · next used =>
        -- There are not so many labels in use.
        have all := taken_succ tried ⟨_, List.contains_iff_mem.1 used, here⟩
        have few := le_length_of_taken all (List.Subset.refl inUse)
        omega
      · next unused => exact .free within tried here (by simpa using unused)
  | succ fuel ih =>
    unfold probe
    split
    · next none => exact .long within tried (by rw [label?, none]; rfl)
    · next number written =>
      have here : label? kind line probes = some (number ++ "|" ++ kind) := by rw [label?, written]; rfl
      simp only [exceeds_int]
      split
      · next used =>
        have all := taken_succ tried ⟨_, List.contains_iff_mem.1 used, here⟩
        by_cases reached : limit < (probes + 1 : Nat)
        · simp only [reached, decide_true]
          exact .spent fun n inside => all n (by omega)
        · simp only [reached, decide_false]
          exact ih all (by omega) (by omega)
      · next unused => exact .free within tried here (by simpa using unused)

theorem probed_renumber (numbered : lineIn? id = some line) (move : Int → Int) (inUse : List String)
    (limit : Int) :
    Probed id (kindIn id) (move line) limit inUse (renumber id move inUse (.int limit)) := by
  unfold lineIn? at numbered
  unfold renumber
  simp only [numbered]
  exact probed_probe (fun n none => absurd none (Nat.not_lt_zero n)) (Nat.zero_le _) (Nat.zero_add _).ge

/-- A label that is not in use is not taken. -/
theorem not_taken_of_free (here : label? kind line n = some label) (free : label ∉ inUse) :
    ¬ Taken inUse kind line n := by
  rintro ⟨label', member, here'⟩
  rw [here, Option.some.injEq] at here'
  exact free (here' ▸ member)

theorem not_taken_of_none (none : label? kind line n = none) : ¬ Taken inUse kind line n := by
  rintro ⟨label, _, here⟩
  simp [none] at here

/-- The first label that is not taken is one. -/
theorem place_unique (before : ∀ n' < n, Taken inUse kind line n') (here : ¬ Taken inUse kind line n)
    (before' : ∀ k < n', Taken inUse kind line k) (here' : ¬ Taken inUse kind line n') : n = n' := by
  rcases Nat.lt_trichotomy n n' with less | same | more
  · exact absurd (before' n less) here
  · exact same
  · exact absurd (before n' more) here'

/-- The search ends in one way. -/
theorem Probed.unique {a b : Except Error String} (first : Probed id kind line limit inUse a)
    (second : Probed id kind line limit inUse b) : a = b := by
  cases first with
  | free within before here free =>
    cases second with
    | free _ before' here' free' =>
      obtain rfl := place_unique before (not_taken_of_free here free) before' (not_taken_of_free here' free')
      rw [here, Option.some.injEq] at here'
      rw [here']
    | spent all => exact absurd (all _ within) (not_taken_of_free here free)
    | long _ before' none =>
      obtain rfl := place_unique before (not_taken_of_free here free) before' (not_taken_of_none none)
      simp [here] at none
  | spent all =>
    cases second with
    | free within _ here free => exact absurd (all _ within) (not_taken_of_free here free)
    | spent _ => rfl
    | long within _ none => exact absurd (all _ within) (not_taken_of_none none)
  | long within before none =>
    cases second with
    | free _ before' here free =>
      obtain rfl := place_unique before (not_taken_of_none none) before' (not_taken_of_free here free)
      simp [here] at none
    | spent all => exact absurd (all _ within) (not_taken_of_none none)
    | long _ _ _ => rfl

/-- The first free label is found. -/
theorem renumber_eq_ok_iff (numbered : lineIn? id = some line) :
    renumber id move inUse (.int limit) = .ok label ↔ ∃ n ≤ limit.toNat,
      (∀ n' < n, Taken inUse (kindIn id) (move line) n') ∧ label? (kindIn id) (move line) n = some label ∧
        label ∉ inUse := by
  have probed := probed_renumber numbered move inUse limit
  constructor
  · intro found
    rw [found] at probed
    cases probed with
    | free within before here free => exact ⟨_, within, before, here, free⟩
  · rintro ⟨n, within, before, here, free⟩
    exact probed.unique (.free within before here free)

/-- The search is given up just if all that the limit allows are in use. -/
theorem renumber_eq_collision_iff (numbered : lineIn? id = some line) :
    renumber id move inUse (.int limit) = .error (.collision id (.int limit)) ↔
      ∀ n ≤ limit.toNat, Taken inUse (kindIn id) (move line) n := by
  have probed := probed_renumber numbered move inUse limit
  constructor
  · intro found
    rw [found] at probed
    cases probed with
    | spent all => exact all
  · exact fun all => probed.unique (.spent all)

/-! ### All records -/

theorem renumber_of_none (none : lineIn? id = none) (move : Int → Int) (inUse : List String) (limit : Json) :
    renumber id move inUse limit = .error (.noNumber id) := by
  unfold lineIn? at none
  unfold renumber
  simp only [none]
  rfl

/-- What is told of a record that gets no label, for all that the limit allows: that its label begins with no
number, or with one so high that with some more it may be too long to be written. -/
inductive Illegible (more : Nat) (r : Record String) : Error → Prop
  | unnumbered : lineIn? r.id = none → Illegible more r (.noNumber r.id)
  | overlong {line : Int} : lineIn? r.id = some line → 10 ^ Text.maxDigits ≤ line.natAbs + more →
    Illegible more r (.longNumber r.id)

theorem Illegible.mono {more more' : Nat} {r : Record String} {e : Error} (illegible : Illegible more r e)
    (le : more ≤ more') : Illegible more' r e := by
  cases illegible with
  | unnumbered none => exact .unnumbered none
  | overlong here long => exact .overlong here (by omega)

/-- Where the limit allows more labels than are in use, each record finds its own, or has a label that cannot
be moved. -/
theorem renumberAll_settles {reach : Nat} (near : ∀ line, (move line).natAbs ≤ line.natAbs + reach)
    (among : inUse ⊆ used) (room : used.length + records.length ≤ limit) :
    (∃ moved, renumberAll move (.int limit) records inUse = .ok moved) ∨
      ∃ r ∈ records, ∃ e, Illegible (reach + (used.length + records.length)) r e ∧
        renumberAll move (.int limit) records inUse = .error e := by
  induction records generalizing inUse used with
  | nil => exact .inl ⟨_, rfl⟩
  | cons r rest ih =>
    rw [List.length_cons] at room
    have step : renumberAll move (.int limit) (r :: rest) inUse =
        renumber r.id move inUse (.int limit) >>= fun label =>
          renumberAll move (.int limit) rest (label :: inUse) >>= fun moved => .ok ((r.id, label) :: moved) := rfl
    rw [step]
    cases here : lineIn? r.id with
    | none =>
      rw [renumber_of_none here]
      exact .inr ⟨r, List.mem_cons_self, _, .unnumbered here, rfl⟩
    | some line =>
      have probed := probed_renumber here move inUse limit
      generalize renumber r.id move inUse (.int limit) = found at probed
      cases probed with
      | @free _ label _ _ _ _ =>
        -- A label that was given counts as used for the records that follow.
        have among' : label :: inUse ⊆ label :: used := List.cons_subset_cons label among
        rcases ih among' (by rw [List.length_cons]; omega) with
          ⟨moved, rested⟩ | ⟨r', later, e, illegible, failed⟩
        · exact .inl ⟨(r.id, label) :: moved, by simp [bind, Except.bind, rested]⟩
        · exact .inr ⟨r', List.mem_cons_of_mem r later, e,
            illegible.mono (by simp only [List.length_cons]; omega), by simp [bind, Except.bind, failed]⟩
      | spent all =>
        have few := le_length_of_taken (fun n inside => all n (Nat.le_of_lt_succ inside)) among
        omega
      | @long n within before none =>
        have few := le_length_of_taken before among
        have long := Text.le_of_writeInt? (by simpa [label?] using none)
        have moved := near line
        exact .inr ⟨r, List.mem_cons_self, _, .overlong here (by omega), rfl⟩

end Snapshot

namespace Alignment

/-- A position before the first stays. -/
theorem shiftFrom_of_neg {position : Int} (negative : position < 0) (i j : Nat) (runs : List Segment) :
    shiftFrom i j position runs = position := by
  induction runs generalizing i j with
  | nil => rfl
  | cons run rest ih =>
    have outside : ¬ (i : Int) ≤ position := by omega
    cases run <;> simp [shiftFrom, outside, ih]

/-- A position moves by no more than what the new sequence has. -/
theorem natAbs_shift_le {α : Type} [DecidableEq α] (old new : List α) (line : Int) :
    (shift (segments old new) (line - 1) + 1).natAbs ≤ line.natAbs + new.length := by
  rcases Int.lt_or_le (line - 1) 0 with before | inside
  · rw [shift, shiftFrom_of_neg before]
    omega
  · obtain ⟨position, place⟩ := Int.eq_ofNat_of_zero_le inside
    obtain ⟨moved, same, bound⟩ := exists_shift old new position
    rw [place, same]
    omega

end Alignment

namespace Snapshot

variable {config : Config} {limit : Int} {old new : Snapshot}

/-- The labels with an id behind them are labels of records. -/
def Keyed (s : Snapshot) : Prop := s.ids.map Prod.fst ⊆ s.records.map Record.id

/-- What may be added to the numbers of lines: the lines of the new side, and a further number for each
record. -/
def room (config : Config) (old new : Snapshot) : Nat :=
  (new.maskedLines config.snapshotIndent).length + (old.records.length + new.records.length)

theorem pairedLabels_subset (old new : Snapshot) :
    (pairedLabels old new).map Prod.snd ⊆ new.records.map Record.id := by
  intro label member
  obtain ⟨⟨x, y⟩, paired, rfl⟩ := List.mem_map.1 member
  obtain ⟨⟨i, j⟩, _, found⟩ := List.mem_filterMap.1 paired
  simp only at found
  split at found
  · next a b atI atJ =>
    cases found
    exact List.mem_map_of_mem (List.mem_of_getElem? atJ)
  · cases found

/-- Where the limit is no less than the number of records on both sides, a stabilization does not fail, unless
a label of the old side cannot be moved. -/
theorem stabilize_settles (given : config.givenProbeLimit = .int limit)
    (enough : old.records.length + new.records.length ≤ limit) (keyed : new.Keyed) :
    (∃ s, old.stabilize config new = .ok s) ∨
      ∃ r ∈ old.records, ∃ e, Illegible (room config old new) r e ∧ old.stabilize config new = .error e := by
  have fewer := singles_sublist old new
  have short := fewer.length_le
  have search : old.stabilize config new = if (singles old new).isEmpty then .ok _
    else renumberAll _ _ (singles old new) (new.ids.map Prod.fst ++ (pairedLabels old new).map Prod.snd) >>=
      fun moved => .ok _ := rfl
  rw [search]
  split
  · exact .inl ⟨_, rfl⟩
  · rw [given]
    have near := Alignment.natAbs_shift_le (old.maskedLines config.snapshotIndent)
      (new.maskedLines config.snapshotIndent)
    have among := List.append_subset.2 ⟨keyed, pairedLabels_subset old new⟩
    have few : ((new.records.map Record.id).length : Int) + (singles old new).length ≤ limit := by
      rw [List.length_map]
      omega
    rcases renumberAll_settles near among few with ⟨moved, found⟩ | ⟨r, member, e, illegible, failed⟩
    · exact .inl ⟨_, by rw [found]; rfl⟩
    · refine .inr ⟨r, fewer.subset member, e, illegible.mono ?_, by rw [failed]; rfl⟩
      rw [List.length_map, room]
      omega

end Snapshot

section Pictures

variable {old new : Model}

/-- The label of a node begins with the number of its line. -/
theorem lineIn?_labelOf (sound : old.Sound) {r : Record String} (shown : r ∈ old.snapshot.records)
    (short : heightOf (old.canonicalOrder.map old.record) + 1 < 10 ^ Text.maxDigits) :
    ∃ line : Nat, Snapshot.lineIn? r.id = some (line : Int) ∧
      line ≤ heightOf (old.canonicalOrder.map old.record) + 1 := by
  rw [sound.depicts_snapshot.records] at shown
  obtain ⟨k, listed, rfl⟩ := List.mem_map.1 shown
  obtain ⟨-, high⟩ := lineOf_bounds (List.mem_map_of_mem (f := old.record) listed)
  refine ⟨_, ?_, high⟩
  change Text.readInt? ((labelText _ _).toList.takeWhile _) = _
  rw [takeWhile_labelText]
  exact Text.readInt?_toDigits (Nat.lt_of_le_of_lt high short)

theorem keyed_snapshot (sound : new.Sound) : new.snapshot.Keyed := by
  rw [Snapshot.Keyed, sound.depicts_snapshot.map_id_records, sound.depicts_snapshot.ids, List.map_map]
  exact List.Subset.refl _

/-- Where the limit is no less than the number of nodes on both sides, the snapshots of two models are
stabilized. -/
theorem stabilize_snapshot_settles {config : Config} {limit : Int} (soundOld : old.Sound)
    (soundNew : new.Sound) (given : config.givenProbeLimit = .int limit)
    (enough : old.snapshot.records.length + new.snapshot.records.length ≤ limit) :
    (∃ s, old.snapshot.stabilize config new.snapshot = .ok s) ∨
      10 ^ Text.maxDigits ≤ labelRoom config old new := by
  refine or_iff_not_imp_right.2 fun short => ?_
  rw [labelRoom, Nat.not_le] at short
  have line := fun {r} (shown : r ∈ old.snapshot.records) => lineIn?_labelOf soundOld shown (by omega)
  refine (Snapshot.stabilize_settles given enough (keyed_snapshot soundNew)).resolve_right ?_
  rintro ⟨r, shown, e, illegible, -⟩
  obtain ⟨n, number, high⟩ := line shown
  cases illegible with
  | unnumbered none => simp [number] at none
  | @overlong n' number' long =>
    rw [number, Option.some.injEq] at number'
    have records : old.snapshot.records.length = old.canonicalOrder.length ∧
        new.snapshot.records.length = new.canonicalOrder.length := by
      rw [soundOld.depicts_snapshot.records, soundNew.depicts_snapshot.records, List.length_map,
        List.length_map]
      exact ⟨rfl, rfl⟩
    rw [Snapshot.room] at long
    omega

end Pictures

namespace Snapshot

/-- The search for a label behind a line finds the first one that is free, and is given up just if all that
the limit allows are in use, and otherwise comes to a number that is too long to be written. Where the limit
is no less than the number of records on both sides a stabilization does not fail, unless a label of the old
side begins with no number or with one that gets too long; labels of a model's nodes begin with their lines. -/
theorem renumber_settles (limit : Int) :
    (∀ id line move inUse, lineIn? id = some line →
      (∀ label, renumber id move inUse (.int limit) = .ok label ↔ ∃ n ≤ limit.toNat,
        (∀ n' < n, Taken inUse (kindIn id) (move line) n') ∧
          label? (kindIn id) (move line) n = some label ∧ label ∉ inUse) ∧
      (renumber id move inUse (.int limit) = .error (.collision id (.int limit)) ↔
        ∀ n ≤ limit.toNat, Taken inUse (kindIn id) (move line) n) ∧
      ∀ e, renumber id move inUse (.int limit) = .error e → e = .collision id (.int limit) ∨
        ∃ n ≤ limit.toNat, (∀ n' < n, Taken inUse (kindIn id) (move line) n') ∧
          label? (kindIn id) (move line) n = none) ∧
    (∀ config old new, config.givenProbeLimit = .int limit →
      old.records.length + new.records.length ≤ limit → Keyed new →
        (∃ s, stabilize config old new = .ok s) ∨
          ∃ r ∈ old.records, ∃ e, Illegible (room config old new) r e ∧ stabilize config old new = .error e) ∧
    (∀ w, Reachable w → Keyed w.model.snapshot) ∧
    ∀ config old new, config.givenProbeLimit = .int limit → Reachable old → Reachable new →
      old.model.snapshot.records.length + new.model.snapshot.records.length ≤ limit →
        (∃ s, stabilize config old.model.snapshot new.model.snapshot = .ok s) ∨
          10 ^ Text.maxDigits ≤ labelRoom config old.model new.model := by
  refine ⟨fun id line move inUse numbered => ⟨fun label => renumber_eq_ok_iff numbered,
    renumber_eq_collision_iff numbered, fun e failed => ?_⟩,
    fun config old new given enough keyed => stabilize_settles given enough keyed,
    fun w reached => keyed_snapshot reached.sound,
    fun config old new given reachedOld reachedNew enough =>
      stabilize_snapshot_settles reachedOld.sound reachedNew.sound given enough⟩
  have probed := probed_renumber numbered move inUse limit
  rw [failed] at probed
  cases probed with
  | spent all => exact .inl rfl
  | long within before none => exact .inr ⟨_, within, before, none⟩

/-- A node of a kind at top level, and nothing else. -/
def alone (kind : Kind) : Workspace := endOf ((Call.create (some "n") kind {}).run Build.host) {}

/-- With two labels in use two more lines are enough, and one more is not; a node on either side is relabelled
where the limit is two. -/
theorem renumber_settles_two_used :
    renumber "7|scalar" (fun line => line) ["7|scalar", "8|scalar"] (.int 2) = .ok "9|scalar" ∧
      renumber "7|scalar" (fun line => line) ["7|scalar", "8|scalar"] (.int 1) =
        .error (.collision "7|scalar" (.int 1)) ∧
      ∃ s, stabilize { probeLimit := 2 } (alone .array).model.snapshot (alone .scalar).model.snapshot = .ok s := by
  have number : lineIn? "7|scalar" = some 7 := by decide +kernel
  have taken : ∀ n < 2, Taken ["7|scalar", "8|scalar"] (kindIn "7|scalar") 7 n := by
    intro n inside
    obtain rfl | rfl : n = 0 ∨ n = 1 := by omega
    · exact ⟨"7|scalar", by simp, by decide +kernel⟩
    · exact ⟨"8|scalar", by simp, by decide +kernel⟩
  obtain ⟨search, -, -, models⟩ := renumber_settles 2
  refine ⟨((search _ _ _ _ number).1 _).2 ⟨2, Nat.le_refl _, taken, by decide +kernel, by decide⟩,
    ((renumber_settles 1).1 _ _ _ _ number).2.1.2 fun n inside => taken n (Nat.lt_succ_of_le inside), ?_⟩
  have reached : ∀ kind, Reachable (alone kind) := fun kind => .edited _ (.blank "" "" 0)
  exact (models _ _ _ rfl (reached .array) (reached .scalar) (by decide +kernel)).resolve_right
    (by decide +kernel)

end Snapshot

end DocSync
