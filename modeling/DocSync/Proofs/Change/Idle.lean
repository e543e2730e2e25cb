import DocSync.Proofs.Change.Copied

/-!
Reconciliations with nothing to do. Between a model and the same model carried over, with the nodes in
the same order, the alignment pairs every node with its image; no label is looked for, so nothing can
fail, and the change set has no entries.
-/

namespace DocSync

variable {m new : Model} {carry : NodeId → NodeId} {image : Key → Key} {a b : Key}

/-- Where every record has a partner, no new label is needed. -/
theorem Snapshot.stabilize_of_singles {old new : Snapshot} (config : Config)
    (none : singles old new = []) :
    old.stabilize config new = .ok (old.rename (pairedLabels old new ++ []).reverse) := by
  have empty : (singles old new).isEmpty = true := List.isEmpty_iff.2 none
  unfold stabilize
  change (if (singles old new).isEmpty then
      .ok (old.rename (pairedLabels old new ++ []).reverse)
    else renumberAll _ _ (singles old new)
        (new.ids.map Prod.fst ++ (pairedLabels old new).map Prod.snd) >>= fun moved =>
      .ok (old.rename (pairedLabels old new ++ moved).reverse)) = Except.ok _
  rw [if_pos empty]

/-- Settings under which a reconciliation has come to an end let snapshots be written. -/
theorem exists_givenSnapshotIndent {config : Config} {old : Model} {withModels : Bool} {c : ChangeSet}
    (made : reconcile config old new withModels = .ok c) :
    ∃ indent, config.givenSnapshotIndent = .ok indent := by
  cases given : config.givenSnapshotIndent with
  | ok indent => exact ⟨indent, rfl⟩
  | error e =>
    simp only [reconcile, Model.snapshotUnder, given, Except.map, Except.mapError, bind, Except.bind,
      reduceCtorEq] at made

/-- Where every old node has a partner, a reconciliation comes to an end. -/
theorem exists_reconcile_of_paired {config : Config} {indent : Option Json.Indent} {old new : Model}
    (soundOld : old.Sound) (soundNew : new.Sound) (given : config.givenSnapshotIndent = .ok indent)
    (paired : ∀ {a}, old.Holds a → ∃ b, Partners old new a b) (withModels : Bool) :
    ∃ c, reconcile config old new withModels = .ok c := by
  -- The search for new labels is all that can fail here, and no node asks for one.
  have none : Snapshot.singles old.snapshot new.snapshot = [] := by
    rw [← List.map_eq_nil_iff (f := Record.id), List.eq_nil_iff_forall_not_mem]
    intro label member
    obtain ⟨a, held, alone, -⟩ := (mem_singles_id soundOld soundNew).1 member
    obtain ⟨b, partners⟩ := paired held
    exact alone b partners
  simp only [reconcile, Model.snapshotUnder, given, Except.map, Except.mapError, bind, Except.bind,
    Snapshot.stabilize_of_singles config none]
  exact ⟨_, rfl⟩

namespace CarriedOver

variable (carried : CarriedOver m new carry image) (sound : m.Sound) (soundNew : new.Sound)
  (order : m.canonicalOrder = new.canonicalOrder.map image)
include carried soundNew order

/-- Each node is the partner of its image. -/
theorem partners_iff : Partners new m a b ↔ new.Holds a ∧ b = image a := by
  -- The records have the same content in the same order: a sequence is aligned with itself.
  have contents : m.canonicalOrder.map m.contentOf = new.canonicalOrder.map new.contentOf := by
    rw [order, List.map_map]
    refine List.map_congr_left fun k member => ?_
    have held := soundNew.mem_canonicalOrder.1 member
    simp only [Function.comp_apply, Model.contentOf, carried.kind held, carried.fields held]
  have pairs : contentPairs new m = (List.range new.canonicalOrder.length).map fun k => (k, k) := by
    rw [contentPairs, contents, Alignment.pairs_self, List.length_map]
  constructor
  · rintro ⟨i, j, paired, atI, atJ⟩
    rw [pairs] at paired
    obtain ⟨k, -, same⟩ := List.mem_map.1 paired
    cases same
    rw [order, List.getElem?_map, atI] at atJ
    exact ⟨soundNew.mem_canonicalOrder.1 (List.mem_of_getElem? atI), (Option.some.inj atJ).symm⟩
  · rintro ⟨held, rfl⟩
    obtain ⟨i, atI⟩ := List.getElem?_of_mem (soundNew.mem_canonicalOrder.2 held)
    refine ⟨i, i, ?_, atI, by rw [order, List.getElem?_map, atI]; rfl⟩
    rw [pairs]
    exact List.mem_map.2 ⟨i, List.mem_range.2 (List.getElem?_eq_some_iff.1 atI).1, rfl⟩

/-- A link and its image are partners. -/
theorem jointPartners {j : Joint} (joins : new.Joins j) :
    JointPartners new m j (j.map image) :=
  have partner := fun {k} (held : new.Holds k) =>
    (carried.partners_iff soundNew order).2 ⟨held, rfl (a := image k)⟩
  ⟨partner joins.1, rfl, partner (soundNew.holds_child joins)⟩

/-- The change set has no entries. -/
theorem entries_eq_nil {c : ChangeSet} (tells : c.Tells new m) : c.entries = [] := by
  have partners := fun {a b} => carried.partners_iff (a := a) (b := b) soundNew order
  have joins : ∀ {j}, new.Joins j → m.Joins (j.map image) := fun {j} joins =>
    ⟨carried.holds joins.1, by
      rw [Joint.map, carried.target joins.1, show (new.node j.parent).target? j.edge = _ from joins.2]
      rfl⟩
  obtain ⟨ps, -, changed, fields⟩ := tells.changed
  obtain ⟨cut, -, memCut, removed⟩ := tells.removed
  obtain ⟨rise, -, memRise, added⟩ := tells.added
  have noField : c.fieldChanges = [] := by
    rw [fields, List.flatMap_eq_nil_iff]
    rintro ⟨a, b⟩ member
    obtain ⟨held, rfl⟩ := partners.1 ((changed a b).1 member)
    rw [carried.fields held, ChangeSet.fieldsChanged, List.filterMap_eq_nil_iff]
    exact fun name _ => if_pos rfl
  have noCut : cut = [] := List.eq_nil_iff_forall_not_mem.2 fun j member => by
    obtain ⟨here, alone⟩ := (memCut j).1 member
    exact alone ⟨_, joins here, carried.jointPartners soundNew order here⟩
  have noRise : rise = [] := List.eq_nil_iff_forall_not_mem.2 fun j member => by
    -- A link of the image comes from a link.
    obtain ⟨⟨heldQ, leads⟩, alone⟩ := (memRise j).1 member
    obtain ⟨q, edge, d⟩ := j
    obtain ⟨p, heldP, rfl⟩ := carried.onto heldQ
    rw [carried.target heldP] at leads
    obtain ⟨c, target, rfl⟩ := Option.map_eq_some_iff.1 leads
    exact alone ⟨⟨p, edge, c⟩, ⟨heldP, target⟩, carried.jointPartners soundNew order ⟨heldP, target⟩⟩
  have noGone : c.deletions = [] :=
    tells.deletions_eq_nil_iff.2 fun _ held => ⟨_, partners.2 ⟨held, rfl⟩⟩
  have noCome : c.creations = [] := tells.creations_eq_nil_iff.2 fun k held => by
    obtain ⟨b, heldB, rfl⟩ := carried.onto held
    exact ⟨b, partners.2 ⟨heldB, rfl⟩⟩
  rw [noCut, List.map_nil] at removed
  rw [noRise, List.map_nil] at added
  rw [ChangeSet.entries, removed, added, noGone, noCome, noField]
  rfl

include sound

/-- A model reconciled with itself carried over leaves nothing to change. -/
theorem exists_reconcile {config : Config} {indent : Option Json.Indent}
    (given : config.givenSnapshotIndent = .ok indent) :
    ∃ c, reconcile config new m = .ok c ∧ c.isEmpty = true := by
  obtain ⟨c, made⟩ := exists_reconcile_of_paired soundNew sound given
    (fun held => ⟨_, (carried.partners_iff soundNew order).2 ⟨held, rfl⟩⟩) true
  refine ⟨c, made, ?_⟩
  rw [ChangeSet.isEmpty, carried.entries_eq_nil soundNew order
    (tells_of_reconcile soundNew sound made)]
  rfl

end CarriedOver

end DocSync
