import DocSync.Change.Diff
import DocSync.Proofs.Snapshot.Identity
import DocSync.Proofs.Snapshot.Pairing

/-!
How a reconciliation can fail: only by the search for a new label being given up, unless the numbers
of the lines have more digits than a numeral may have.
-/

namespace DocSync

variable {old new : Model} {config : Config}

namespace Alignment

/-- A position moves by no more than what the new sequence has before it. -/
theorem exists_shiftFrom (i j : Nat) (position : Nat) (segments : List Segment) :
    ∃ moved : Nat, shiftFrom i j position segments = moved ∧
      moved ≤ position + j + (segments.map Segment.newSize).sum := by
  induction segments generalizing i j with
  | nil => exact ⟨position, rfl, by simp⟩
  | cons segment rest ih =>
    cases segment with
    | same n =>
      obtain ⟨moved, same, bound⟩ := ih (i + n) (j + n)
      simp only [shiftFrom, List.map_cons, List.sum_cons, Segment.newSize]
      -- The position lies in the segment, or in one behind it.
      split
      · next inside =>
        simp only [Bool.and_eq_true, decide_eq_true_eq] at inside
        exact ⟨position + j - i, by omega, by omega⟩
      · exact ⟨moved, same, by omega⟩
    | differ m n =>
      obtain ⟨moved, same, bound⟩ := ih (i + m) (j + n)
      simp only [shiftFrom, List.map_cons, List.sum_cons, Segment.newSize]
      split
      · next inside =>
        simp only [Bool.and_eq_true, decide_eq_true_eq] at inside
        exact ⟨position + j - i, by omega, by omega⟩
      · exact ⟨moved, same, by omega⟩

theorem exists_shift {α : Type} [DecidableEq α] (old new : List α) (position : Nat) :
    ∃ moved : Nat, shift (segments old new) position = moved ∧
      moved ≤ position + new.length := by
  obtain ⟨moved, same, bound⟩ := exists_shiftFrom 0 0 position (segments old new)
  rw [(aligned_segments old new).sum_newSize] at bound
  exact ⟨moved, same, by simpa using bound⟩

end Alignment

namespace Snapshot

/-- A step that yields something, unless the search for a new label is given up. -/
def OrCollides {α : Type} (x : Except Error α) : Prop :=
  (∃ a, x = .ok a) ∨ ∃ id limit, x = .error (.collision id limit)

theorem OrCollides.bind {α β : Type} {x : Except Error α} {f : α → Except Error β}
    (first : OrCollides x) (next : ∀ a, x = .ok a → OrCollides (f a)) : OrCollides (x >>= f) := by
  rcases first with ⟨a, rfl⟩ | ⟨id, limit, rfl⟩
  · exact next a rfl
  · exact .inr ⟨id, limit, rfl⟩

theorem OrCollides.ok {α : Type} (a : α) : OrCollides (.ok a : Except Error α) := .inl ⟨a, rfl⟩

theorem orCollides_probe (id kind : String) (line : Nat) (inUse : List String) (limit : Int)
    (fuel probes : Nat) (short : line + probes + fuel < 10 ^ Text.maxDigits) :
    OrCollides (probe id kind line inUse (.int limit) fuel probes) := by
  have number : ∀ probes, line + probes < 10 ^ Text.maxDigits →
      Text.writeInt? ((line : Int) + (probes : Nat)) = some (toString (line + probes : Int)) := by
    intro probes few
    exact_mod_cast Text.writeInt?_ofNat few
  -- Each probe is the next number, up to the limit.
  induction fuel generalizing probes with
  | zero =>
    rw [probe, number probes (by omega)]
    simp only
    split
    · exact .inr ⟨id, _, rfl⟩
    · exact .ok _
  | succ fuel ih =>
    rw [probe, number probes (by omega)]
    simp only [exceeds_int]
    split
    · by_cases spent : limit < (probes + 1 : Nat)
      · simp only [spent, decide_true]
        exact .inr ⟨id, _, rfl⟩
      · simp only [spent, decide_false]
        exact ih (probes + 1) (by omega)
    · exact .ok _

/-- How labels' lines move is bounded as shifts are: by so many lines, and never below the first. -/
def Bounded (move : Int → Int) (room : Nat) : Prop :=
  ∀ line : Nat, 1 ≤ line → ∃ moved : Nat, move line = moved ∧ moved ≤ line + room

theorem orCollides_renumber {move : Int → Int} {room line : Nat} (kind : Kind)
    (bounded : Bounded move room) (positive : 1 ≤ line) (inUse : List String) (limit : Int)
    (short : line + room + inUse.length < 10 ^ Text.maxDigits) :
    OrCollides (renumber (labelText line kind) move inUse (.int limit)) := by
  unfold renumber
  simp only [takeWhile_labelText]
  rw [Text.readInt?_toDigits (by omega)]
  obtain ⟨moved, same, bound⟩ := bounded line positive
  simp only [same]
  exact orCollides_probe _ _ _ _ _ _ _ (by omega)

theorem orCollides_renumberAll {move : Int → Int} (room height : Nat) {limit : Int}
    {records : List (Record String)} {inUse : List String} (bounded : Bounded move room)
    (labels : ∀ r ∈ records, ∃ line kind, r.id = labelText line kind ∧ 1 ≤ line ∧ line ≤ height)
    (short : height + room + inUse.length + records.length < 10 ^ Text.maxDigits) :
    OrCollides (renumberAll move (.int limit) records inUse) := by
  induction records generalizing inUse with
  | nil => exact .ok _
  | cons r rest ih =>
    obtain ⟨line, kind, id, positive, bound⟩ := labels r List.mem_cons_self
    simp only [List.length_cons] at short
    refine OrCollides.bind ?_ fun label _ => ?_
    · rw [id]
      exact orCollides_renumber kind bounded positive inUse limit (by omega)
    · refine OrCollides.bind (ih (fun r' later => labels r' (List.mem_cons_of_mem _ later)) ?_)
        fun moved _ => .ok _
      simp only [List.length_cons]
      omega

end Snapshot

/-- A bound on the numbers that a reconciliation writes into labels: the lines of both snapshots and
as many further numbers as there are records. -/
def labelRoom (config : Config) (old new : Model) : Nat :=
  2 + heightOf (old.canonicalOrder.map old.record) +
    (new.snapshot.maskedLines config.snapshotIndent).length +
    2 * old.canonicalOrder.length + new.canonicalOrder.length

section Pictures

variable (soundOld : old.Sound) (soundNew : new.Sound)
include soundOld soundNew

theorem length_pairedLabels_le :
    (Snapshot.pairedLabels old.snapshot new.snapshot).length ≤ old.canonicalOrder.length := by
  have pairing := pairing_contentPairs old new
  have within : (contentPairs old new).map Prod.fst ⊆ List.range old.canonicalOrder.length := by
    intro i member
    obtain ⟨p, inside, rfl⟩ := List.mem_map.1 member
    obtain ⟨_, _, left, -⟩ := pairing.exists_of_mem inside
    obtain ⟨bound, _⟩ := List.getElem?_eq_some_iff.1 left
    rw [List.mem_range]
    simpa using bound
  have fewer := (pairing.firsts.subperm within).length_le
  rw [List.length_map, List.length_range] at fewer
  unfold Snapshot.pairedLabels
  rw [recordPairs_snapshot soundOld soundNew]
  exact (List.length_filterMap_le _ _).trans fewer

/-- Unless the numbers of the lines are too long, a stabilization fails only by a collision. -/
theorem orCollides_stabilize (plain : config.strays = [])
    (short : labelRoom config old new < 10 ^ Text.maxDigits) :
    Snapshot.OrCollides (old.snapshot.stabilize config new.snapshot) := by
  have limit : config.givenProbeLimit = .int config.probeLimit := by
    simp [Config.givenProbeLimit, plain]
  unfold labelRoom at short
  unfold Snapshot.stabilize
  change Snapshot.OrCollides (if (Snapshot.singles old.snapshot new.snapshot).isEmpty then .ok _
    else Snapshot.renumberAll _ _ (Snapshot.singles old.snapshot new.snapshot)
        (new.snapshot.ids.map Prod.fst ++
          (Snapshot.pairedLabels old.snapshot new.snapshot).map Prod.snd) >>= fun moved => .ok _)
  -- A record that goes by itself is looked for no further than the room for labels goes.
  split
  · exact .ok _
  · rw [limit]
    refine Snapshot.OrCollides.bind ?_ fun moved _ => .ok _
    refine Snapshot.orCollides_renumberAll
      (new.snapshot.maskedLines config.snapshotIndent).length
      (heightOf (old.canonicalOrder.map old.record) + 1) (fun line positive => ?_) (fun r member => ?_) ?_
    · obtain ⟨moved, same, bound⟩ := Alignment.exists_shift
        (old.snapshot.maskedLines config.snapshotIndent)
        (new.snapshot.maskedLines config.snapshotIndent) (line - 1)
      refine ⟨moved + 1, ?_, by omega⟩
      have before : ((line - 1 : Nat) : Int) = (line : Int) - 1 := by omega
      rw [← before, same]
      rfl
    · obtain ⟨p, inside, rfl⟩ := List.mem_map.1 member
      have place := List.mem_zipIdx_iff_getElem?.1 (List.mem_of_mem_filter inside)
      have shown := List.mem_of_getElem? place
      rw [soundOld.depicts_snapshot.records] at shown
      obtain ⟨k, listed, same⟩ := List.mem_map.1 shown
      obtain ⟨low, high⟩ := lineOf_bounds (List.mem_map_of_mem (f := old.record) listed)
      rw [← same]
      exact ⟨_, _, rfl, low, high⟩
    · have paired := length_pairedLabels_le soundOld soundNew
      have ids : new.snapshot.ids.length = new.canonicalOrder.length := by
        rw [soundNew.depicts_snapshot.ids, List.length_map]
      have records : old.snapshot.records.length = old.canonicalOrder.length := by
        rw [soundOld.depicts_snapshot.records, List.length_map]
      have singles : (Snapshot.singles old.snapshot new.snapshot).length ≤
          old.canonicalOrder.length :=
        records ▸ (Snapshot.singles_sublist _ _).length_le
      rw [List.length_append, List.length_map, List.length_map, ids]
      omega

/-- Unless the numbers of the lines are too long, a reconciliation fails only by a collision. -/
theorem orCollides_reconcile (plain : config.strays = [])
    (short : labelRoom config old new < 10 ^ Text.maxDigits) (withModels : Bool) :
    Snapshot.OrCollides (reconcile config old new withModels) := by
  have indent : config.givenSnapshotIndent = .ok config.snapshotIndent := by
    simp [Config.givenSnapshotIndent, plain]
  have snapshot : ∀ m : Model, (m.snapshotUnder config).mapError Error.misfit = .ok m.snapshot := by
    intro m
    simp [Model.snapshotUnder, indent, Except.map, Except.mapError]
  unfold reconcile
  simp only [snapshot]
  exact (orCollides_stabilize soundOld soundNew plain short).bind fun s _ => .ok _

/-- A reconciliation fails by a collision, or because the numbers of the lines are too long. -/
theorem collision_of_reconcile {e : Error} (plain : config.strays = []) {withModels : Bool}
    (failed : reconcile config old new withModels = .error e) :
    (∃ id limit, e = .collision id limit) ∨ 10 ^ Text.maxDigits ≤ labelRoom config old new := by
  refine or_iff_not_imp_right.2 fun short => ?_
  rcases orCollides_reconcile soundOld soundNew plain (Nat.lt_of_not_le short) withModels with
    ⟨changes, made⟩ | ⟨id, limit, collided⟩
  · cases failed.symm.trans made
  · exact ⟨id, limit, Except.error.inj (failed.symm.trans collided)⟩

end Pictures

end DocSync
