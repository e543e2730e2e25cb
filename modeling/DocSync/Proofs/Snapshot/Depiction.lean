import DocSync.Proofs.Model.Sound
import DocSync.Proofs.Snapshot.Labels

/-!
What a snapshot shows of a sound model: each of its nodes once, under a label of its own, with links
that go by the labels of their targets. Such a picture stays one when its labels are replaced by
others that differ.
-/

namespace DocSync

variable {m : Model} {s : Snapshot} {order : List Key} {label : Key → String} {k : Key}

namespace Model

/-- A node as a record that goes by labels. -/
def shown {ι : Type} (m : Model) (label : Key → ι) (k : Key) : Record ι where
  id := label k
  kind := (m.node k).kind
  fields := (m.node k).fields
  head := (m.node k).head.map label
  next := (m.node k).next.map label

/-- The label that a snapshot gives a node. -/
def labelOf (m : Model) (k : Key) : String :=
  labelText (lineOf (m.canonicalOrder.map m.record) (m.node k).id.name) (m.node k).kind

namespace Sound

variable (sound : m.Sound)
include sound

/-- A snapshot takes the nodes of the model in some order. -/
theorem mem_canonicalOrder : k ∈ m.canonicalOrder ↔ m.Holds k := by
  have same : k ∈ m.canonicalOrder ↔ k ∈ m.order := by
    simp only [canonicalOrder, order, List.mem_flatMap, (stableSort_perm _ _).mem_iff]
  rw [same, sound.mem_order]

theorem nodup_canonicalOrder : m.canonicalOrder.Nodup :=
  sound.nodup_flatMap_subtreeAndNext ((stableSort_perm _ _).nodup_iff.2 sound.roots_nodup)
    fun _ member => (stableSort_perm _ _).mem_iff.1 member

/-- The records of a model go by different names. -/
theorem nodup_record_id : ((m.canonicalOrder.map m.record).map Record.id).Nodup := by
  rw [List.map_map]
  refine sound.nodup_canonicalOrder.map_on fun a first b second same => ?_
  exact sound.named (sound.mem_canonicalOrder.1 first) (sound.mem_canonicalOrder.1 second) same

end Sound

end Model

/-- A snapshot shows the nodes of a model, in some order and each under a label of its own. -/
structure Snapshot.Depicts (s : Snapshot) (m : Model) (order : List Key) (label : Key → String) :
    Prop where
  complete : ∀ {k}, k ∈ order ↔ m.Holds k
  nodup : order.Nodup
  records : s.records = order.map (m.shown label)
  ids : s.ids = order.map fun k => (label k, (m.node k).id)
  injective : ∀ {a b}, m.Holds a → m.Holds b → label a = label b → a = b

namespace Model.Sound

/-- Labels tell nodes apart. -/
theorem labelOf_injective (sound : m.Sound) {a b : Key} (heldA : m.Holds a) (heldB : m.Holds b)
    (same : m.labelOf a = m.labelOf b) : a = b := by
  have member : ∀ {k}, m.Holds k → m.record k ∈ m.canonicalOrder.map m.record := fun held =>
    List.mem_map_of_mem (sound.mem_canonicalOrder.2 held)
  have names := lineOf_injective (member heldA) (member heldB) (labelText_injective same)
  exact sound.named heldA heldB names

/-- The snapshot of a sound model is a picture of it. -/
theorem depicts_snapshot (sound : m.Sound) :
    m.snapshot.Depicts m m.canonicalOrder m.labelOf := by
  have held : ∀ {k}, k ∈ m.canonicalOrder ↔ m.Holds k := sound.mem_canonicalOrder
  have names := sound.nodup_record_id
  have labels : Snapshot.labelsOf (m.canonicalOrder.map m.record) =
      m.canonicalOrder.map fun k => ((m.node k).id.name, m.labelOf k) := by
    rw [Snapshot.labelsOf_eq names, List.map_map]
    rfl
  have keys : ((m.canonicalOrder.map fun k => ((m.node k).id.name, m.labelOf k)).map
      Prod.fst).Nodup := by
    rw [List.map_map] at names ⊢
    exact names
  -- A node's name leads to its label.
  have label : ∀ {k}, m.Holds k →
      ((Snapshot.labelsOf (m.canonicalOrder.map m.record)).lookup (m.node k).id.name).getD "" =
        m.labelOf k := by
    intro k here
    rw [labels, (Assoc.lookup_eq_some_iff keys).2 (List.mem_map.2 ⟨k, held.2 here, rfl⟩)]
    rfl
  refine ⟨held, sound.nodup_canonicalOrder, ?_, ?_, sound.labelOf_injective⟩
  · change (m.canonicalOrder.map m.record).map _ = _
    rw [List.map_map]
    refine List.map_congr_left fun k member => ?_
    have here := held.1 member
    have target : ∀ e, ((m.node k).target? e).map
        (fun c => ((Snapshot.labelsOf (m.canonicalOrder.map m.record)).lookup
          (m.node c).id.name).getD "") = ((m.node k).target? e).map m.labelOf := by
      intro e
      cases leads : (m.node k).target? e with
      | none => rfl
      | some c => exact congrArg some (label (sound.back here leads).1)
    have head := target .child
    have next := target .next
    simp only [Node.target?] at head next
    simp only [Function.comp, Record.replaceIds, record, shown, label here, Option.map_map,
      Record.mk.injEq, true_and]
    exact ⟨head, next⟩
  · change (Snapshot.labelsOf (m.canonicalOrder.map m.record)).filterMap _ = _
    have spelled : ((m.canonicalOrder.map fun k => ((m.node k).id.name, (m.node k).id)).map
        Prod.fst).Nodup := by
      rw [List.map_map] at keys ⊢
      exact keys
    rw [labels, List.filterMap_map, ← List.filterMap_eq_map' (f := fun k =>
      (m.labelOf k, (m.node k).id))]
    refine List.filterMap_congr fun k member => ?_
    have found := (Assoc.lookup_eq_some_iff spelled).2
      (List.mem_map.2 ⟨k, member, rfl⟩ :
        ((m.node k).id.name, (m.node k).id) ∈ m.canonicalOrder.map _)
    simp only [Function.comp, found, Option.map_some]

end Model.Sound

namespace Snapshot.Depicts

variable (depicts : s.Depicts m order label)
include depicts

/-- Labels are listed once. -/
theorem nodup_labels : (order.map label).Nodup :=
  depicts.nodup.map_on fun _ first _ second same =>
    depicts.injective (depicts.complete.1 first) (depicts.complete.1 second) same

/-- The records go by the labels of the nodes. -/
theorem map_id_records : s.records.map Record.id = order.map label := by
  rw [depicts.records, List.map_map]
  rfl

theorem id?_label (held : m.Holds k) : s.id? (label k) = some (m.node k).id := by
  have nodup : (s.ids.map Prod.fst).Nodup := by
    rw [depicts.ids, List.map_map]
    exact depicts.nodup_labels
  rw [id?, Assoc.lookup_eq_some_iff nodup, depicts.ids]
  exact List.mem_map.2 ⟨k, depicts.complete.2 held, rfl⟩

theorem record?_label (held : m.Holds k) : s.record? (label k) = some (m.shown label k) := by
  have member : m.shown label k ∈ s.records.reverse := by
    rw [List.mem_reverse, depicts.records]
    exact List.mem_map_of_mem (depicts.complete.2 held)
  cases found : s.record? (label k) with
  | none => exact (List.find?_eq_none.1 found _ member (by simp [Model.shown])).elim
  | some r =>
    -- The record found can be no other one.
    have inside := List.mem_of_find?_eq_some found
    rw [List.mem_reverse, depicts.records] at inside
    obtain ⟨j, place, rfl⟩ := List.mem_map.1 inside
    have same : label j = label k := by simpa [Model.shown] using List.find?_some found
    rw [depicts.injective (depicts.complete.1 place) held same]

theorem id?_eq_none {name : String} (unused : ∀ k, m.Holds k → label k ≠ name) :
    s.id? name = none := by
  rw [id?, Assoc.lookup_eq_none_iff, depicts.ids]
  intro entry member
  obtain ⟨k, place, rfl⟩ := List.mem_map.1 member
  exact unused k (depicts.complete.1 place)

/-- A picture with its labels replaced by others that differ. -/
theorem rename {names : Renaming}
    (apart : ∀ {a b}, m.Holds a → m.Holds b → names.apply (label a) = names.apply (label b) → a = b) :
    (s.rename names).Depicts m order fun k => names.apply (label k) where
  complete := depicts.complete
  nodup := depicts.nodup
  records := by
    change s.records.map _ = _
    rw [depicts.records, List.map_map]
    refine List.map_congr_left fun k _ => ?_
    simp only [Function.comp, Record.rename, Record.replaceIds, Model.shown, Option.map_map]
    rfl
  ids := by
    change s.ids.foldl _ [] = _
    have nodup : ((order.map fun k => (names.apply (label k), (m.node k).id)).map
        Prod.fst).Nodup := by
      rw [List.map_map]
      exact depicts.nodup.map_on fun _ first _ second same =>
        apart (depicts.complete.1 first) (depicts.complete.1 second) same
    -- The labels differ, so no id is overwritten by a later one.
    rw [depicts.ids, List.foldl_map, ← Assoc.foldl_set nodup, List.foldl_map]
  injective := apart

end Snapshot.Depicts

end DocSync
