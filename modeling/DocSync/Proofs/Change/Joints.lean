import DocSync.Proofs.Snapshot.Depiction

/-!
The links of a model, listed in the order of its snapshot. A link is told by the node it leaves, the
edge it takes, and the node it reaches.
-/

namespace DocSync

/-- A link of a model by the places of its ends. -/
structure Joint where
  parent : Key
  edge : Edge
  child : Key
  deriving DecidableEq

namespace Model

variable {m : Model} {j : Joint} {k : Key}

/-- The links that leave a node. -/
def jointsAt (m : Model) (k : Key) : List Joint :=
  [Edge.child, Edge.next].filterMap fun e => ((m.node k).target? e).map fun c => ⟨k, e, c⟩

/-- The links of a model, those of each node together. -/
def joints (m : Model) : List Joint := m.canonicalOrder.flatMap m.jointsAt

/-- A link of a model. -/
def Joins (m : Model) (j : Joint) : Prop :=
  m.Holds j.parent ∧ (m.node j.parent).target? j.edge = some j.child

theorem mem_jointsAt :
    j ∈ m.jointsAt k ↔ j.parent = k ∧ (m.node j.parent).target? j.edge = some j.child := by
  obtain ⟨p, e, c⟩ := j
  simp only [jointsAt, List.mem_filterMap, Option.map_eq_some_iff, Joint.mk.injEq]
  constructor
  · rintro ⟨e', _, c', leads, rfl, rfl, rfl⟩
    exact ⟨rfl, leads⟩
  · rintro ⟨rfl, leads⟩
    exact ⟨e, by cases e <;> simp, c, leads, rfl, rfl, rfl⟩

theorem nodup_jointsAt (m : Model) (k : Key) : (m.jointsAt k).Nodup := by
  unfold jointsAt
  cases below : (m.node k).target? .child <;> cases after : (m.node k).target? .next <;>
    simp [below, after]

/-- Different nodes have different links. -/
theorem nodup_flatMap_jointsAt (m : Model) {ks : List Key} (nodup : ks.Nodup) :
    (ks.flatMap m.jointsAt).Nodup := by
  rw [List.nodup_flatMap]
  refine ⟨fun k _ => m.nodup_jointsAt k, nodup.imp fun {a b} differ => ?_⟩
  intro j left right
  exact differ ((mem_jointsAt.1 left).1.symm.trans (mem_jointsAt.1 right).1)

namespace Sound

variable (sound : m.Sound)
include sound

theorem mem_joints : j ∈ m.joints ↔ m.Joins j := by
  simp only [joints, List.mem_flatMap, sound.mem_canonicalOrder, mem_jointsAt, Joins]
  constructor
  · rintro ⟨k, held, rfl, leads⟩
    exact ⟨held, leads⟩
  · rintro ⟨held, leads⟩
    exact ⟨j.parent, held, rfl, leads⟩

theorem nodup_joints : m.joints.Nodup := m.nodup_flatMap_jointsAt sound.nodup_canonicalOrder

/-- A node that a link reaches is reached by no other link. -/
theorem joins_child_unique {j j' : Joint} (joins : m.Joins j) (joins' : m.Joins j')
    (same : j.child = j'.child) : j = j' := by
  obtain ⟨p, e, c⟩ := j
  obtain ⟨p', e', c'⟩ := j'
  obtain rfl : c = c' := same
  have back := (sound.back joins.1 joins.2).2
  have back' := (sound.back joins'.1 joins'.2).2
  simp only at back back'
  rw [back] at back'
  cases back'
  rfl

theorem holds_child (joins : m.Joins j) : m.Holds j.child := (sound.back joins.1 joins.2).1

end Sound

/-- The links of a record are those of its node. -/
theorem Sound.links_shown (sound : m.Sound) (held : m.Holds k) (label : Key → String) :
    (m.shown label k).links = (m.jointsAt k).map fun j =>
      (label j.parent, (m.node j.parent).edgeName j.edge, label j.child) := by
  have slotted := sound.slotted held
  unfold Record.links Record.slots jointsAt
  cases head : (m.node k).head with
  | none =>
    cases slot : (m.node k).kind.slot? <;> cases next : (m.node k).next <;>
      simp [shown, head, next, slot, Node.target?, Node.edgeName]
  | some c =>
    obtain ⟨slot, found⟩ := Option.isSome_iff_exists.1 (slotted (by simp [head]))
    cases next : (m.node k).next <;>
      simp [shown, head, next, found, Node.target?, Node.edgeName]

end Model

/-- The links of a picture are those of the model. -/
theorem Snapshot.Depicts.links_eq {s : Snapshot} {m : Model} {label : Key → String}
    (sound : m.Sound) (depicts : s.Depicts m m.canonicalOrder label) :
    s.links = m.joints.map fun j =>
      (label j.parent, (m.node j.parent).edgeName j.edge, label j.child) := by
  rw [links, depicts.records, List.flatMap_map, Model.joints, List.map_flatMap]
  refine List.flatMap_congr fun k member => ?_
  exact sound.links_shown (sound.mem_canonicalOrder.1 member) label

end DocSync
