import DocSync.Proofs.Model.Reachable
import DocSync.Proofs.Outcome
import DocSync.Proofs.Snapshot.Identity

/-!
What stabilization leaves of a snapshot: the same records under new labels that differ from one another. A
record goes by its partner's label if it has a partner on the new side, and by a label that the new side
does not know if it has none.
-/

namespace DocSync

/-- A snapshot is an old one under new labels, which show what its records have to do with a new one. -/
structure Stabilized (old new s : Snapshot) (names : String → String) : Prop where
  /-- Labels are replaced wherever they stand, and nothing else is. -/
  records : s.records = old.records.map (Record.replaceIds names)
  ids : s.ids = old.ids.map fun entry => (names entry.1, entry.2)
  injective : ∀ {r r'}, r ∈ old.records → r' ∈ old.records → names r.id = names r'.id → r.id = r'.id
  distinct : (s.records.map Record.id).Nodup
  /-- Behind a new label is what was behind the old one. -/
  behind : ∀ {r}, r ∈ old.records → ∃ id, old.id? r.id = some id ∧ s.id? (names r.id) = some id
  /-- A record with a partner has its partner's label. -/
  paired : ∀ {i j}, (i, j) ∈ Snapshot.recordPairs old.records new.records →
    ∃ r r', s.records[i]? = some r ∧ new.records[j]? = some r' ∧ r.id = r'.id
  /-- Both sides have just the labels of records with a partner. -/
  shared : ∀ {label}, label ∈ s.records.map Record.id ∧ label ∈ new.records.map Record.id ↔
    ∃ i j r, (i, j) ∈ Snapshot.recordPairs old.records new.records ∧ s.records[i]? = some r ∧
      r.id = label
  /-- The label of a record without partner occurs nowhere on the new side. -/
  fresh : ∀ {i r}, s.records[i]? = some r →
    (∀ j, (i, j) ∉ Snapshot.recordPairs old.records new.records) →
      ∀ r' ∈ new.records, r'.id ≠ r.id ∧ r'.head ≠ some r.id ∧ r'.next ≠ some r.id

variable {old new : Model} {order : List Key} {s : Snapshot} {label : Key → String} {i j : Nat}

namespace Snapshot.Depicts

/-- What a picture shows at a place is the node that stands there in the order. -/
theorem getElem?_records (depicts : s.Depicts old order label) :
    s.records[i]? = order[i]?.map (old.shown label) := by
  rw [depicts.records, List.getElem?_map]

/-- Every label in a picture is that of a node. -/
theorem not_mentions (depicts : s.Depicts old order label) (linked : old.Linked) {name : String}
    (unused : ∀ k, old.Holds k → label k ≠ name) :
    ∀ r ∈ s.records, r.id ≠ name ∧ r.head ≠ some name ∧ r.next ≠ some name := by
  intro r member
  rw [depicts.records] at member
  obtain ⟨k, place, rfl⟩ := List.mem_map.1 member
  have held := depicts.complete.1 place
  -- A link leads to a node, and goes by the label of that one.
  have target : ∀ e, ((old.node k).target? e).map label ≠ some name := by
    intro e same
    obtain ⟨c, leads, isName⟩ := Option.map_eq_some_iff.1 same
    exact unused c (linked.back held leads).1 isName
  exact ⟨unused k held, target .child, target .next⟩

end Snapshot.Depicts

/-- A stabilized picture has the labels that replace those of the old one. -/
theorem exists_names_of_stabilize {config : Config} (sound : old.Sound)
    (stable : old.snapshot.stabilize config new.snapshot = .ok s)
    (depicts : s.Depicts old old.canonicalOrder label) : ∃ names : String → String,
      s.records = old.snapshot.records.map (Record.replaceIds names) ∧
        ∀ k, old.Holds k → label k = names (old.labelOf k) := by
  obtain ⟨moved, renamed, -⟩ := Snapshot.exists_moved_of_stabilize stable
  have records : s.records = old.snapshot.records.map (Record.replaceIds
      (Renaming.apply (Snapshot.pairedLabels old.snapshot new.snapshot ++ moved).reverse)) := by
    rw [renamed]
    rfl
  refine ⟨_, records, fun k held => ?_⟩
  -- Both show the same nodes in the same order, so the labels agree place by place.
  rw [depicts.records, sound.depicts_snapshot.records, List.map_map] at records
  have shown := List.map_inj_left.1 records k (sound.mem_canonicalOrder.2 held)
  exact congrArg Record.id shown

/-- The pairs of records in two snapshots are the places of partners. -/
theorem mem_recordPairs_iff (sound : old.Sound) (sound' : new.Sound) :
    (i, j) ∈ Snapshot.recordPairs old.snapshot.records new.snapshot.records ↔
      ∃ a b, Partners old new a b ∧ old.canonicalOrder[i]? = some a ∧ new.canonicalOrder[j]? = some b := by
  rw [recordPairs_snapshot sound sound']
  constructor
  · intro paired
    obtain ⟨_, _, left, right, -⟩ := (pairing_contentPairs old new).exists_of_mem paired
    rw [List.getElem?_map, Option.map_eq_some_iff] at left right
    obtain ⟨a, atI, -⟩ := left
    obtain ⟨b, atJ, -⟩ := right
    exact ⟨a, b, ⟨i, j, paired, atI, atJ⟩, atI, atJ⟩
  · rintro ⟨a, b, ⟨i', j', paired, atI', atJ'⟩, atI, atJ⟩
    -- Each node stands at one place only.
    rwa [getElem?_unique sound.nodup_canonicalOrder atI atI',
      getElem?_unique sound'.nodup_canonicalOrder atJ atJ']

section

variable (sound : old.Sound) (sound' : new.Sound) (depicts : s.Depicts old old.canonicalOrder label)
  (partners_iff : ∀ {a b}, old.Holds a → new.Holds b → (label a = new.labelOf b ↔ Partners old new a b))
include sound sound' depicts partners_iff

/-- At the places of a pair stand partners, under one label. -/
theorem exists_records_of_paired
    (paired : (i, j) ∈ Snapshot.recordPairs old.snapshot.records new.snapshot.records) :
    ∃ r r', s.records[i]? = some r ∧ new.snapshot.records[j]? = some r' ∧ r.id = r'.id := by
  obtain ⟨a, b, one, atI, atJ⟩ := (mem_recordPairs_iff sound sound').1 paired
  refine ⟨old.shown label a, new.shown new.labelOf b, ?_, ?_,
    (partners_iff (one.holds_left sound) (one.holds_right sound')).2 one⟩
  · rw [depicts.getElem?_records, atI]
    rfl
  · rw [sound'.depicts_snapshot.getElem?_records, atJ]
    rfl

/-- A label is on both sides just if a record with a partner goes by it. -/
theorem label_shared_iff {name : String} :
    name ∈ s.records.map Record.id ∧ name ∈ new.snapshot.records.map Record.id ↔
      ∃ i j r, (i, j) ∈ Snapshot.recordPairs old.snapshot.records new.snapshot.records ∧
        s.records[i]? = some r ∧ r.id = name := by
  constructor
  · rintro ⟨here, also⟩
    rw [depicts.map_id_records] at here
    rw [sound'.depicts_snapshot.map_id_records] at also
    obtain ⟨a, listed, isName⟩ := List.mem_map.1 here
    obtain ⟨b, listed', isName'⟩ := List.mem_map.1 also
    -- A label on both sides belongs to partners, and these are paired at the places where they stand.
    have one := (partners_iff (sound.mem_canonicalOrder.1 listed) (sound'.mem_canonicalOrder.1 listed')).1
      (isName.trans isName'.symm)
    obtain ⟨i, j, paired, atI, atJ⟩ := id one
    exact ⟨i, j, _, (mem_recordPairs_iff sound sound').2 ⟨a, b, one, atI, atJ⟩,
      by rw [depicts.getElem?_records, atI]; rfl, isName⟩
  · rintro ⟨i, j, r, paired, here, rfl⟩
    obtain ⟨r₁, r₂, here', there, same⟩ :=
      exists_records_of_paired sound sound' depicts partners_iff paired
    obtain rfl := Option.some.inj (here.symm.trans here')
    exact ⟨List.mem_map_of_mem (List.mem_of_getElem? here),
      List.mem_map.2 ⟨r₂, List.mem_of_getElem? there, same.symm⟩⟩

/-- The label of a record without partner is unknown on the new side. -/
theorem label_fresh_of_alone {r : Record String} (here : s.records[i]? = some r)
    (alone : ∀ j, (i, j) ∉ Snapshot.recordPairs old.snapshot.records new.snapshot.records) :
    ∀ r' ∈ new.snapshot.records, r'.id ≠ r.id ∧ r'.head ≠ some r.id ∧ r'.next ≠ some r.id := by
  rw [depicts.getElem?_records, Option.map_eq_some_iff] at here
  obtain ⟨a, atI, rfl⟩ := here
  refine sound'.depicts_snapshot.not_mentions sound'.toLinked fun b heldB equal => ?_
  -- A node on the new side with this label would be a partner.
  have held := sound.mem_canonicalOrder.1 (List.mem_of_getElem? atI)
  have one := (partners_iff held heldB).1 equal.symm
  obtain ⟨j, atJ⟩ := List.getElem?_of_mem (sound'.mem_canonicalOrder.2 heldB)
  exact alone j ((mem_recordPairs_iff sound sound').2 ⟨a, b, one, atI, atJ⟩)

end

/-- If the snapshot of one model is stabilized against that of another, its labels are replaced one by one:
by the partner's label where the alignment has paired a record, and by an unused one otherwise. -/
theorem stabilized_of_stabilize {config : Config} {w w' : Workspace} (reached : Reachable w)
    (reached' : Reachable w')
    (stable : w.model.snapshot.stabilize config w'.model.snapshot = .ok s) :
    ∃ names, Stabilized w.model.snapshot w'.model.snapshot s names := by
  have sound := reached.sound
  have sound' := reached'.sound
  have before := sound.depicts_snapshot
  -- The result is a picture of the old model once more, in which partners go by one label.
  obtain ⟨label, depicts, partners_iff⟩ := depicts_of_stabilize sound sound' stable
  obtain ⟨names, records, renamed⟩ := exists_names_of_stabilize sound stable depicts
  have held : ∀ {k}, k ∈ w.model.canonicalOrder → w.model.Holds k := sound.mem_canonicalOrder.1
  refine ⟨names, records, ?_, ?_, ?_, ?_, exists_records_of_paired sound sound' depicts partners_iff,
    label_shared_iff sound sound' depicts partners_iff,
    label_fresh_of_alone sound sound' depicts partners_iff⟩
  · -- The ids stand in the order of the records.
    rw [depicts.ids, before.ids, List.map_map]
    refine List.map_congr_left fun k member => ?_
    rw [Function.comp_apply, renamed k (held member)]
  · intro r r' member member' equal
    rw [before.records] at member member'
    obtain ⟨a, first, rfl⟩ := List.mem_map.1 member
    obtain ⟨b, second, rfl⟩ := List.mem_map.1 member'
    have labels : label a = label b := by
      rw [renamed a (held first), renamed b (held second)]
      exact equal
    rw [depicts.injective (held first) (held second) labels]
  · rw [depicts.records, List.map_map]
    exact depicts.nodup_labels
  · -- The id behind a label is that of the node, and the node has not changed.
    intro r member
    rw [before.records] at member
    obtain ⟨k, listed, rfl⟩ := List.mem_map.1 member
    have found := depicts.id?_label (held listed)
    rw [renamed k (held listed)] at found
    exact ⟨_, before.id?_label (held listed), found⟩

/-- Of three items one goes, and the others move up. -/
theorem stabilized_of_stabilize_shorter : ∃ s,
    (readIn "[1, true, 3]" 0).model.snapshot.stabilize {} (readIn "[true, 3]" 7).model.snapshot = .ok s ∧
      ∃ names, Stabilized (readIn "[1, true, 3]" 0).model.snapshot (readIn "[true, 3]" 7).model.snapshot s
        names := by
  have stabilizes : ((readIn "[1, true, 3]" 0).model.snapshot.stabilize {}
      (readIn "[true, 3]" 7).model.snapshot).toOption.isSome = true := by decide +kernel
  obtain ⟨s, stable⟩ := Except.exists_ok stabilizes
  exact ⟨s, stable, stabilized_of_stabilize (reachable_readIn _ _) (reachable_readIn _ _) stable⟩

end DocSync
