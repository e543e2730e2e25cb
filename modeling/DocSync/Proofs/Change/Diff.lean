import DocSync.Change.Diff
import DocSync.Proofs.Change.Joints
import DocSync.Proofs.Snapshot.Identity

/-!
What a change set tells of the two models it was made from, without a word of labels: the links that
only one side has, the nodes that only one side has, and of the nodes that both have the fields that
differ.
-/

namespace DocSync

variable {old new : Model} {c : ChangeSet} {a b : Key}

namespace ChangeSet

/-- An id of the new model as the old one knows it; an id that only the new model has stays. -/
def carry (c : ChangeSet) (id : NodeId) : NodeId := (c.oldId? id).getD id

end ChangeSet

/-- Two links that stand for one another: their ends are partners, and their edges agree. -/
def JointPartners (old new : Model) (j j' : Joint) : Prop :=
  Partners old new j.parent j'.parent ∧ j.edge = j'.edge ∧ Partners old new j.child j'.child

/-- What stands under the name of the one entry that has it. -/
theorem NodeId.lookup?_eq_some {α : Type} {id : NodeId} {entries : List (NodeId × α)}
    {entry : NodeId × α} (member : entry ∈ entries) (name : entry.1.name = id.name)
    (only : ∀ other ∈ entries, other.1.name = id.name → other = entry) :
    id.lookup? entries = some entry.2 := by
  unfold lookup?
  cases found : entries.find? (·.1.name == id.name) with
  | none => exact absurd (by simpa using name) (List.find?_eq_none.1 found entry member)
  | some other =>
    have same : other.1.name = id.name := by simpa using List.find?_some found
    rw [only other (List.mem_of_find?_eq_some found) same]
    rfl

theorem NodeId.lookup?_eq_none {α : Type} {id : NodeId} {entries : List (NodeId × α)}
    (absent : ∀ entry ∈ entries, entry.1.name ≠ id.name) : id.lookup? entries = none := by
  unfold lookup?
  rw [List.find?_eq_none.2 fun entry member => by simpa using absent entry member]
  rfl

/-- A change set maps the ids of the nodes that two models share. -/
structure ChangeSet.Maps (c : ChangeSet) (old new : Model) : Prop where
  mem_idMap : ∀ {x y}, (x, y) ∈ c.idMap ↔
    ∃ a b, Partners old new a b ∧ x = (new.node b).id ∧ y = (old.node a).id

/-- A change set tells the difference of two models. -/
structure ChangeSet.Tells (c : ChangeSet) (old new : Model) : Prop extends Maps c old new where
  changed : ∃ ps : List (Key × Key), (ps.map Prod.snd).Nodup ∧
    (∀ a b, (a, b) ∈ ps ↔ Partners old new a b) ∧
    c.fieldChanges = ps.flatMap fun p =>
      fieldsChanged (old.node p.1).id (old.node p.1).fields (new.node p.2).fields
  removed : ∃ js : List Joint, js.Nodup ∧
    (∀ j, j ∈ js ↔ old.Joins j ∧ ¬ ∃ j', new.Joins j' ∧ JointPartners old new j j') ∧
    c.removedLinks = js.map fun j =>
      ⟨(old.node j.parent).id, (old.node j.parent).edgeName j.edge, (old.node j.child).id⟩
  added : ∃ js : List Joint, js.Nodup ∧
    (∀ j, j ∈ js ↔ new.Joins j ∧ ¬ ∃ j', old.Joins j' ∧ JointPartners old new j' j) ∧
    c.addedLinks = js.map fun j =>
      ⟨c.carry (new.node j.parent).id, (new.node j.parent).edgeName j.edge,
        c.carry (new.node j.child).id⟩
  deleted : ∃ ks : List Key, ks.Nodup ∧
    (∀ k, k ∈ ks ↔ old.Holds k ∧ ∀ b, ¬ Partners old new k b) ∧
    c.deletions.map Specimen.id = ks.map fun k => (old.node k).id
  created : ∃ ks : List Key, ks.Nodup ∧
    (∀ k, k ∈ ks ↔ new.Holds k ∧ ∀ a, ¬ Partners old new a k) ∧
    c.creations.map (fun node => (node.id, node.kind, node.content.fields)) =
      ks.map fun k => ((new.node k).id, (new.node k).kind, (new.node k).fields)

/-- What is created is a node of the new model. -/
theorem ChangeSet.Tells.exists_created (tells : c.Tells old new) {node : Specimen}
    (inside : Entry.create node ∈ c.entries) : ∃ k, new.Holds k ∧ node ∈ c.creations ∧
      (new.node k).id = node.id ∧ (new.node k).kind = node.kind := by
  have among : node ∈ c.creations := by simpa [ChangeSet.entries] using inside
  obtain ⟨ks, -, memKs, same⟩ := tells.created
  have member := List.mem_map_of_mem
    (f := fun node => (node.id, node.kind, node.content.fields)) among
  rw [same] at member
  obtain ⟨k, inKs, equal⟩ := List.mem_map.1 member
  obtain ⟨id, kind, -⟩ : (new.node k).id = node.id ∧ (new.node k).kind = node.kind ∧ _ := by
    simpa only [Prod.mk.injEq] using equal
  exact ⟨k, ((memKs k).1 inKs).1, among, id, kind⟩

namespace ChangeSet.Tells

variable (tells : c.Tells old new)
include tells

/-- Nothing is deleted just if every old node has a partner. -/
theorem deletions_eq_nil_iff :
    c.deletions = [] ↔ ∀ a, old.Holds a → ∃ b, Partners old new a b := by
  obtain ⟨ks, -, memKs, ids⟩ := tells.deleted
  rw [← List.map_eq_nil_iff (f := Specimen.id), ids, List.map_eq_nil_iff,
    List.eq_nil_iff_forall_not_mem]
  simp only [memKs, not_and, not_forall, not_not]

/-- Nothing is created just if every new node has a partner. -/
theorem creations_eq_nil_iff :
    c.creations = [] ↔ ∀ b, new.Holds b → ∃ a, Partners old new a b := by
  obtain ⟨ks, -, memKs, created⟩ := tells.created
  rw [← List.map_eq_nil_iff (f := fun node => (node.id, node.kind, node.content.fields)), created,
    List.map_eq_nil_iff, List.eq_nil_iff_forall_not_mem]
  simp only [memKs, not_and, not_forall, not_not]

/-- The ids of what is created are those of the new nodes without a partner. -/
theorem creations_perm {keys : List Key} (once : keys.Nodup)
    (lone : ∀ k, k ∈ keys ↔ new.Holds k ∧ ∀ a, ¬ Partners old new a k) :
    (c.creations.map Specimen.id).Perm (keys.map fun k => (new.node k).id) := by
  obtain ⟨ks, nodup, memKs, created⟩ := tells.created
  have ids : c.creations.map Specimen.id = ks.map fun k => (new.node k).id := by
    have firsts := congrArg (List.map Prod.fst) created
    rw [List.map_map, List.map_map] at firsts
    exact firsts
  rw [ids]
  exact ((List.perm_ext_iff_of_nodup nodup once).2 fun k => (memKs k).trans (lone k).symm).map _

end ChangeSet.Tells

namespace ChangeSet.Maps

variable (maps : c.Maps old new)
include maps

theorem oldId?_of_partners (soundNew : new.Sound) (partners : Partners old new a b) :
    c.oldId? (new.node b).id = some (old.node a).id := by
  have member : ((new.node b).id, (old.node a).id) ∈ c.idMap :=
    maps.mem_idMap.2 ⟨a, b, partners, rfl, rfl⟩
  refine NodeId.lookup?_eq_some member rfl fun ⟨x, y⟩ also name => ?_
  obtain ⟨a', b', partners', rfl, rfl⟩ := maps.mem_idMap.1 also
  obtain rfl := soundNew.named (partners'.holds_right soundNew) (partners.holds_right soundNew) name
  rw [partners'.left_unique soundNew partners]

theorem oldId?_of_lone (soundNew : new.Sound) (held : new.Holds b)
    (lone : ∀ a, ¬ Partners old new a b) : c.oldId? (new.node b).id = none := by
  unfold oldId?
  refine NodeId.lookup?_eq_none fun ⟨x, y⟩ member name => ?_
  obtain ⟨a', b', partners', rfl, rfl⟩ := maps.mem_idMap.1 member
  obtain rfl := soundNew.named (partners'.holds_right soundNew) held name
  exact lone a' partners'

/-- A shared node is carried to its partner's id. -/
theorem carry_of_partners (soundNew : new.Sound) (partners : Partners old new a b) :
    c.carry (new.node b).id = (old.node a).id := by
  rw [carry, maps.oldId?_of_partners soundNew partners]
  rfl

/-- A node that only the new model has keeps its id. -/
theorem carry_of_lone (soundNew : new.Sound) (held : new.Holds b)
    (lone : ∀ a, ¬ Partners old new a b) : c.carry (new.node b).id = (new.node b).id := by
  rw [carry, maps.oldId?_of_lone soundNew held lone]
  rfl

theorem newId?_of_partners (soundOld : old.Sound) (partners : Partners old new a b) :
    c.newId? (old.node a).id = some (new.node b).id := by
  have member : ((old.node a).id, (new.node b).id) ∈ c.idMap.map Prod.swap :=
    List.mem_map.2 ⟨((new.node b).id, (old.node a).id),
      maps.mem_idMap.2 ⟨a, b, partners, rfl, rfl⟩, rfl⟩
  -- A node has one partner, so every entry under its name gives the same id.
  have swapped : (old.node a).id.lookup? (c.idMap.map Prod.swap) = some (new.node b).id :=
    NodeId.lookup?_eq_some member rfl fun other also name => by
      obtain ⟨⟨x, y⟩, inside, rfl⟩ := List.mem_map.1 also
      obtain ⟨a', b', partners', rfl, rfl⟩ := maps.mem_idMap.1 inside
      obtain rfl := soundOld.named (partners'.holds_left soundOld) (partners.holds_left soundOld)
        name
      rw [partners'.right_unique soundOld partners]
      rfl
  rw [NodeId.lookup?, List.find?_map, Option.map_map] at swapped
  exact swapped

theorem newId?_of_lone (soundOld : old.Sound) (held : old.Holds a)
    (lone : ∀ b, ¬ Partners old new a b) : c.newId? (old.node a).id = none := by
  unfold newId?
  rw [List.find?_eq_none.2, Option.map_none]
  rintro ⟨x, y⟩ member name
  obtain ⟨a', b', partners', rfl, rfl⟩ := maps.mem_idMap.1 member
  obtain rfl := soundOld.named (partners'.holds_left soundOld) held (by simpa using name)
  exact lone b' partners'

end ChangeSet.Maps

/-! ### The change set of two pictures -/

/-- A picture of the old model that shares labels with the snapshot of the new one just for
partners. -/
structure Relabelled (s : Snapshot) (old new : Model) (label : Key → String) : Prop extends
    s.Depicts old old.canonicalOrder label where
  soundOld : old.Sound
  soundNew : new.Sound
  shares : ∀ {a b}, old.Holds a → new.Holds b → (label a = new.labelOf b ↔ Partners old new a b)

namespace Relabelled

variable {s : Snapshot} {label : Key → String} (relabelled : Relabelled s old new label)
include relabelled

/-- A label of the new side is in use on the old side just for a shared node. -/
theorem mem_labels_iff (held : new.Holds b) :
    new.labelOf b ∈ old.canonicalOrder.map label ↔ ∃ a, Partners old new a b := by
  rw [List.mem_map]
  constructor
  · rintro ⟨a, place, same⟩
    exact ⟨a, (relabelled.shares (relabelled.complete.1 place) held).1 same⟩
  · rintro ⟨a, partners⟩
    have heldA := partners.holds_left relabelled.soundOld
    exact ⟨a, relabelled.complete.2 heldA, (relabelled.shares heldA held).2 partners⟩

theorem mem_labelOf_iff (held : old.Holds a) :
    label a ∈ new.canonicalOrder.map new.labelOf ↔ ∃ b, Partners old new a b := by
  rw [List.mem_map]
  constructor
  · rintro ⟨b, place, same⟩
    have heldB := relabelled.soundNew.mem_canonicalOrder.1 place
    exact ⟨b, (relabelled.shares held heldB).1 same.symm⟩
  · rintro ⟨b, partners⟩
    have heldB := partners.holds_right relabelled.soundNew
    exact ⟨b, relabelled.soundNew.mem_canonicalOrder.2 heldB,
      ((relabelled.shares held heldB).2 partners).symm⟩

/-- The id behind a label is the old one's, where the node is shared. -/
theorem liveId_labelOf (held : new.Holds b) (maps : c.Maps old new) :
    ChangeSet.liveId s new.snapshot (new.labelOf b) = c.carry (new.node b).id := by
  unfold ChangeSet.liveId
  -- The label of a node with a partner is known on the old side, and any other is new.
  by_cases partner : ∃ a, Partners old new a b
  · obtain ⟨a, partners⟩ := partner
    have heldA := partners.holds_left relabelled.soundOld
    rw [maps.carry_of_partners relabelled.soundNew partners,
      ← (relabelled.shares heldA held).2 partners, relabelled.id?_label heldA]
    rfl
  · have none : s.id? (new.labelOf b) = none := relabelled.id?_eq_none fun a heldA same =>
      partner ⟨a, (relabelled.shares heldA held).1 same⟩
    rw [maps.carry_of_lone relabelled.soundNew held (not_exists.1 partner), none,
      relabelled.soundNew.depicts_snapshot.id?_label held]
    rfl

theorem liveId_label (held : old.Holds a) :
    ChangeSet.liveId s new.snapshot (label a) = (old.node a).id := by
  rw [ChangeSet.liveId, relabelled.id?_label held]
  rfl

/-- An old link goes by the labels of a new one just when the two stand for one another. -/
theorem mem_links_new {j : Joint} (joins : old.Joins j) :
    (label j.parent, (old.node j.parent).edgeName j.edge, label j.child) ∈ new.snapshot.links ↔
      ∃ j', new.Joins j' ∧ JointPartners old new j j' := by
  have soundNew := relabelled.soundNew
  rw [soundNew.depicts_snapshot.links_eq soundNew, List.mem_map]
  refine exists_congr fun j' => ?_
  rw [soundNew.mem_joints]
  refine and_congr_right fun joins' => ?_
  have child := relabelled.soundOld.holds_child joins
  have child' := soundNew.holds_child joins'
  -- Both ends are partners, and under one kind a slot tells its edge.
  rw [Prod.mk.injEq, Prod.mk.injEq, JointPartners, eq_comm,
    relabelled.shares joins.1 joins'.1, eq_comm (b := label j.child),
    relabelled.shares child child']
  refine and_congr_right fun partners => and_congr_left fun _ => ?_
  rw [Node.edgeName_congr partners.kind_eq]
  exact ⟨fun same => ((new.node j'.parent).edgeName_injective same).symm, fun same => by rw [same]⟩

/-- A new link goes by the labels of an old one just when the two stand for one another. -/
theorem mem_links_old {j : Joint} (joins : new.Joins j) :
    (new.labelOf j.parent, (new.node j.parent).edgeName j.edge, new.labelOf j.child) ∈ s.links ↔
      ∃ j', old.Joins j' ∧ JointPartners old new j' j := by
  have soundOld := relabelled.soundOld
  rw [relabelled.links_eq soundOld, List.mem_map]
  refine exists_congr fun j' => ?_
  rw [soundOld.mem_joints]
  refine and_congr_right fun joins' => ?_
  have child := relabelled.soundNew.holds_child joins
  have child' := soundOld.holds_child joins'
  rw [Prod.mk.injEq, Prod.mk.injEq, JointPartners, relabelled.shares joins'.1 joins.1,
    relabelled.shares child' child]
  refine and_congr_right fun partners => and_congr_left fun _ => ?_
  rw [Node.edgeName_congr partners.kind_eq]
  exact ⟨fun same => (new.node j.parent).edgeName_injective same, fun same => by rw [same]⟩

/-- The labels that both sides use are those of the shared nodes, in the order of the new side. -/
theorem exists_shared : ∃ ps : List (Key × Key), (ps.map Prod.snd).Nodup ∧
    (∀ a b, (a, b) ∈ ps ↔ Partners old new a b) ∧
    (new.canonicalOrder.map new.labelOf).filter (old.canonicalOrder.map label).contains =
      ps.map fun p => new.labelOf p.2 := by
  classical
  have soundNew := relabelled.soundNew
  -- The partner of each shared node.
  let partner (b : Key) : Key := if shared : ∃ a, Partners old new a b then shared.choose else b
  have chosen : ∀ {a b}, Partners old new a b → partner b = a := by
    intro a b partners
    have shared : ∃ a, Partners old new a b := ⟨a, partners⟩
    simp only [partner, dif_pos shared]
    exact shared.choose_spec.left_unique soundNew partners
  refine ⟨(new.canonicalOrder.filter fun b => ∃ a, Partners old new a b).map
    fun b => (partner b, b), ?_, fun a b => ?_, ?_⟩
  · rw [List.map_map]
    have same : (Prod.snd ∘ fun b => (partner b, b)) = id := rfl
    rw [same, List.map_id]
    exact soundNew.nodup_canonicalOrder.filter _
  · simp only [List.mem_map, List.mem_filter, decide_eq_true_eq, Prod.mk.injEq]
    constructor
    · rintro ⟨b', ⟨_, a', partners⟩, found, rfl⟩
      rw [chosen partners] at found
      exact found ▸ partners
    · intro partners
      exact ⟨b, ⟨soundNew.mem_canonicalOrder.2 (partners.holds_right soundNew), a, partners⟩,
        chosen partners, rfl⟩
  · rw [List.map_map, List.filter_map]
    refine congrArg (List.map new.labelOf) (List.filter_congr fun b place => ?_)
    have held := soundNew.mem_canonicalOrder.1 place
    simp only [Function.comp, List.contains_eq_mem, relabelled.mem_labels_iff held]

theorem maps_between (oldModel newModel : Option Model) :
    (ChangeSet.between s new.snapshot oldModel newModel).Maps old new := by
  have soundNew := relabelled.soundNew
  have soundOld := relabelled.soundOld
  obtain ⟨ps, _, member, shared⟩ := relabelled.exists_shared
  have labels := relabelled.map_id_records
  have labels' := soundNew.depicts_snapshot.map_id_records
  -- The map is read off the labels that both sides use, and such a label belongs to two partners.
  have idMap : (ChangeSet.between s new.snapshot oldModel newModel).idMap =
      ps.map fun p => ((new.node p.2).id, (old.node p.1).id) := by
    change ((new.snapshot.records.map (·.id)).filter (s.records.map (·.id)).contains).map _ = _
    rw [labels, labels', shared, List.map_map]
    refine List.map_congr_left fun p inside => ?_
    have partners := (member p.1 p.2).1 inside
    have heldA := partners.holds_left soundOld
    have heldB := partners.holds_right soundNew
    simp only [Function.comp, soundNew.depicts_snapshot.id?_label heldB]
    rw [← (relabelled.shares heldA heldB).2 partners, relabelled.id?_label heldA]
    rfl
  refine ⟨fun {x y} => ?_⟩
  rw [idMap, List.mem_map]
  constructor
  · rintro ⟨⟨a, b⟩, inside, same⟩
    cases same
    exact ⟨a, b, (member a b).1 inside, rfl, rfl⟩
  · rintro ⟨a, b, partners, rfl, rfl⟩
    exact ⟨(a, b), (member a b).2 partners, rfl⟩

/-- The change set of two pictures tells the difference of their models. -/
theorem tells_between (oldModel newModel : Option Model) :
    (ChangeSet.between s new.snapshot oldModel newModel).Tells old new := by
  have soundNew := relabelled.soundNew
  have soundOld := relabelled.soundOld
  have maps := relabelled.maps_between oldModel newModel
  have labels := relabelled.map_id_records
  have labels' := soundNew.depicts_snapshot.map_id_records
  refine ⟨maps, ?_, ?_, ?_, ?_, ?_⟩
  · -- Fields are compared under each label that both sides use.
    obtain ⟨ps, nodup, member, shared⟩ := relabelled.exists_shared
    refine ⟨ps, nodup, member, ?_⟩
    change ((new.snapshot.records.map (·.id)).filter (s.records.map (·.id)).contains).flatMap _ = _
    rw [labels, labels', shared, List.flatMap_map]
    refine List.flatMap_congr fun p inside => ?_
    have partners := (member p.1 p.2).1 inside
    have heldA := partners.holds_left soundOld
    have heldB := partners.holds_right soundNew
    simp only [soundNew.depicts_snapshot.record?_label heldB]
    rw [← (relabelled.shares heldA heldB).2 partners, relabelled.id?_label heldA,
      relabelled.record?_label heldA]
    rfl
  · -- A link goes if the new side has none by its labels, and one comes if the old side has none.
    refine ⟨old.joints.filter fun j => !new.snapshot.links.contains
        (label j.parent, (old.node j.parent).edgeName j.edge, label j.child),
      soundOld.nodup_joints.filter _, fun j => ?_, ?_⟩
    · rw [List.mem_filter, soundOld.mem_joints]
      refine and_congr_right fun joins => ?_
      rw [List.contains_eq_mem, ← relabelled.mem_links_new joins]
      simp
    · change (s.links.filter _).map _ = _
      rw [relabelled.links_eq soundOld, List.filter_map, List.map_map]
      refine List.map_congr_left fun j inside => ?_
      have joins := soundOld.mem_joints.1 (List.mem_filter.1 inside).1
      simp only [Function.comp, ChangeSet.liveLink, relabelled.liveId_label joins.1,
        relabelled.liveId_label (soundOld.holds_child joins)]
  · refine ⟨new.joints.filter fun j => !s.links.contains
        (new.labelOf j.parent, (new.node j.parent).edgeName j.edge, new.labelOf j.child),
      soundNew.nodup_joints.filter _, fun j => ?_, ?_⟩
    · rw [List.mem_filter, soundNew.mem_joints]
      refine and_congr_right fun joins => ?_
      rw [List.contains_eq_mem, ← relabelled.mem_links_old joins]
      simp
    · change (new.snapshot.links.filter _).map _ = _
      rw [soundNew.depicts_snapshot.links_eq soundNew, List.filter_map, List.map_map]
      refine List.map_congr_left fun j inside => ?_
      have joins := soundNew.mem_joints.1 (List.mem_filter.1 inside).1
      simp only [Function.comp, ChangeSet.liveLink, relabelled.liveId_labelOf joins.1 maps,
        relabelled.liveId_labelOf (soundNew.holds_child joins) maps]
  · -- So do nodes.
    refine ⟨old.canonicalOrder.filter fun a =>
        !(new.canonicalOrder.map new.labelOf).contains (label a),
      soundOld.nodup_canonicalOrder.filter _, fun a => ?_, ?_⟩
    · rw [List.mem_filter, soundOld.mem_canonicalOrder]
      refine and_congr_right fun held => ?_
      rw [List.contains_eq_mem]
      simp [relabelled.mem_labelOf_iff held]
    · change (((s.records.map (·.id)).filter fun l =>
        !(new.snapshot.records.map (·.id)).contains l).map _).map _ = _
      rw [labels, labels', List.filter_map, List.map_map, List.map_map]
      refine List.map_congr_left fun a inside => ?_
      have held := relabelled.complete.1 (List.mem_filter.1 inside).1
      simp only [Function.comp, ChangeSet.specimen, relabelled.id?_label held, Option.getD_some]
  · refine ⟨new.canonicalOrder.filter fun b =>
        !(old.canonicalOrder.map label).contains (new.labelOf b),
      soundNew.nodup_canonicalOrder.filter _, fun b => ?_, ?_⟩
    · rw [List.mem_filter, soundNew.mem_canonicalOrder]
      refine and_congr_right fun held => ?_
      rw [List.contains_eq_mem]
      simp [relabelled.mem_labels_iff held]
    · change (((new.snapshot.records.map (·.id)).filter fun l =>
        !(s.records.map (·.id)).contains l).map _).map _ = _
      rw [labels, labels', List.filter_map, List.map_map, List.map_map]
      refine List.map_congr_left fun b inside => ?_
      have held := soundNew.mem_canonicalOrder.1 (List.mem_filter.1 inside).1
      simp only [Function.comp, ChangeSet.specimen, soundNew.depicts_snapshot.id?_label held,
        soundNew.depicts_snapshot.record?_label held, Option.getD_some, Model.shown]

end Relabelled

/-- A change set that was made tells the difference of its two models. -/
theorem tells_of_reconcile {config : Config} {withModels : Bool} (soundOld : old.Sound)
    (soundNew : new.Sound) (made : reconcile config old new withModels = .ok c) :
    c.Tells old new := by
  have plain : ∀ {m : Model} {s : Snapshot}, (m.snapshotUnder config).mapError Error.misfit = .ok s →
      s = m.snapshot := by
    intro m s taken
    unfold Model.snapshotUnder at taken
    cases given : config.givenSnapshotIndent with
    | error e => simp [given, Except.map, Except.mapError] at taken
    | ok indent =>
      simp only [given, Except.map, Except.mapError] at taken
      cases taken
      rfl
  -- A snapshot that was taken under the settings is the snapshot, so the two that were compared are those of
  -- the models.
  simp only [reconcile, bind, Except.bind] at made
  split at made
  · cases made
  · next target new_ =>
    split at made
    · cases made
    · next source old_ =>
      split at made
      · cases made
      · next stable found =>
        cases made
        rw [plain new_, plain old_] at found
        obtain ⟨label, depicts, shares⟩ := depicts_of_stabilize soundOld soundNew found
        rw [plain new_]
        exact Relabelled.tells_between ⟨depicts, soundOld, soundNew, shares⟩ _ _

end DocSync
