import DocSync.Proofs.Change.Replay

/-!
The replay of a change set reaches its target: the model that comes out is the new one, node by node
and link by link, under the ids that the change set carries them to.
-/

namespace DocSync

variable {old new m : Model} {c : ChangeSet} {j : Joint} {a b k : Key} {ks : List Key}
  {image : Key → Key}

/-- A model is another one carried over: it has an image of each node and no node besides, an image
has the carried id and the kind and the fields of its node, and links lead from image to image. -/
structure CarriedOver (m new : Model) (carry : NodeId → NodeId) (image : Key → Key) : Prop where
  holds : ∀ {b}, new.Holds b → m.Holds (image b)
  onto : ∀ {k}, m.Holds k → ∃ b, new.Holds b ∧ image b = k
  injective : ∀ {a b}, new.Holds a → new.Holds b → image a = image b → a = b
  id : ∀ {b}, new.Holds b → (m.node (image b)).id = carry (new.node b).id
  kind : ∀ {b}, new.Holds b → (m.node (image b)).kind = (new.node b).kind
  fields : ∀ {b}, new.Holds b → (m.node (image b)).fields = (new.node b).fields
  target : ∀ {b}, new.Holds b → ∀ e,
    (m.node (image b)).target? e = ((new.node b).target? e).map image

/-! ### Links fall and nodes go -/

/-- A link of the old model that the new one has too. -/
def SharedJoint (old new : Model) (j : Joint) : Prop :=
  old.Joins j ∧ ∃ j', new.Joins j' ∧ JointPartners old new j j'

/-- What is left of the old model: the nodes and the links that the new one shares. -/
structure Cleared (old new m : Model) : Prop where
  sound : m.Sound
  size : m.nodes.size = old.nodes.size
  holds : ∀ {k}, m.Holds k ↔ ∃ b, Partners old new k b
  id : ∀ {a b}, Partners old new a b → (m.node a).id = (old.node a).id
  kind : ∀ {a b}, Partners old new a b → (m.node a).kind = (old.node a).kind
  fields : ∀ {a b}, Partners old new a b → (m.node a).fields = (old.node a).fields
  joins : ∀ {j}, m.Joins j ↔ SharedJoint old new j

theorem ChangeSet.Tells.exists_cleared (tells : c.Tells old new) (soundOld : old.Sound) :
    ∃ m, DoesAll old (c.removedLinks.map .removeLink ++
      c.deletions.map fun node => .delete node.id (some node.kind) node.content) m ∧
      Cleared old new m := by
  obtain ⟨cut, nodupCut, memCut, removed⟩ := tells.removed
  obtain ⟨gone, nodupGone, memGone, deleted⟩ := tells.deleted
  obtain ⟨m₁, does₁, sound₁, same₁, joins₁⟩ := exists_unlinked soundOld nodupCut
    fun j member => ((memCut j).1 member).1
  have standing : ∀ {j}, m₁.Joins j ↔ SharedJoint old new j := by
    intro j
    rw [joins₁, memCut, SharedJoint]
    refine and_congr_right fun joins => ?_
    rw [not_and, not_not]
    exact ⟨fun shared => shared joins, fun shared _ => shared⟩
  obtain ⟨m₂, does₂, sound₂, size₂, holds₂, nodes₂, joins₂⟩ := exists_pruned sound₁ c.deletions nodupGone
    (fun k member => (same₁.holds k).2 ((memGone k).1 member).1)
    (fun k member j joined => by
      -- The ends of a link that stands have partners.
      obtain ⟨_, j', _, up, _, down⟩ := standing.1 joined
      have none := ((memGone k).1 member).2
      exact ⟨fun same => none _ (same ▸ up), fun same => none _ (same ▸ down)⟩)
    (deleted.trans (List.map_congr_left fun k _ => by rw [same₁.id]))
  have node₂ : ∀ {a b}, Partners old new a b → m₂.node a = m₁.node a := fun {a b} partners =>
    nodes₂ a fun member => ((memGone a).1 member).2 b partners
  refine ⟨m₂, ?_, sound₂, size₂.trans same₁.size, fun {k} => ?_, fun partners => ?_,
    fun partners => ?_, fun partners => ?_, fun {j} => (joins₂ j).trans standing⟩
  · rw [removed, List.map_map]
    exact does₁.append does₂
  · rw [holds₂, same₁.holds, memGone, not_and, not_forall]
    simp only [not_not]
    exact ⟨fun both => both.2 both.1, fun ⟨b, partners⟩ =>
      ⟨partners.holds_left soundOld, fun _ => ⟨b, partners⟩⟩⟩
  · rw [node₂ partners, same₁.id]
  · rw [node₂ partners, same₁.kind]
  · rw [node₂ partners, same₁.content]

/-! ### Nodes come -/

/-- The image of each node of the new model: its partner, or else the place of its own that it is
given behind the old arena, in the order of the creations. -/
structure Placed (c : ChangeSet) (old new : Model) (ks : List Key) (image : Key → Key) : Prop where
  nodup : ks.Nodup
  lone : ∀ {k}, k ∈ ks ↔ new.Holds k ∧ ∀ a, ¬ Partners old new a k
  created : c.creations.map (fun node => (node.id, node.kind, node.content.fields)) =
    ks.map fun k => ((new.node k).id, (new.node k).kind, (new.node k).fields)
  shared : ∀ {a b}, Partners old new a b → image b = a
  placed : ∀ {b}, b ∈ ks → ∃ i, ks[i]? = some b ∧ image b = old.nodes.size + i

theorem ChangeSet.Tells.exists_placed (tells : c.Tells old new) (soundNew : new.Sound) :
    ∃ ks image, Placed c old new ks image := by
  classical
  obtain ⟨ks, nodup, member, created⟩ := tells.created
  -- A shared node is where its partner is, and the new ones come behind, in the order of their creation.
  refine ⟨ks, fun b => if shared : ∃ a, Partners old new a b then shared.choose
    else old.nodes.size + ks.idxOf b, nodup, fun {k} => member k, created,
    fun {a b} partners => ?_, fun {b} inside => ⟨ks.idxOf b, ?_, ?_⟩⟩
  · have shared : ∃ a, Partners old new a b := ⟨a, partners⟩
    simp only [dif_pos shared]
    exact shared.choose_spec.left_unique soundNew partners
  · rw [List.getElem?_eq_getElem (List.idxOf_lt_length_iff.2 inside), List.getElem_idxOf]
  · have lone : ¬ ∃ a, Partners old new a b := not_exists.2 ((member b).1 inside).2
    simp only [dif_neg lone]

namespace Placed

variable (placed : Placed c old new ks image)
include placed

/-- A node of the new model has a partner or is one of those to be made. -/
theorem split (held : new.Holds b) : (∃ a, Partners old new a b) ∨ b ∈ ks := by
  by_cases partner : ∃ a, Partners old new a b
  · exact .inl partner
  · exact .inr (placed.lone.2 ⟨held, not_exists.1 partner⟩)

/-- The image of a node lies in the old arena just if the node has a partner. -/
theorem partners_of_lt (held : new.Holds b) (inside : image b < old.nodes.size) :
    Partners old new (image b) b := by
  rcases placed.split held with ⟨a, partners⟩ | member
  · exact placed.shared partners ▸ partners
  · obtain ⟨i, _, at_⟩ := placed.placed member
    exact absurd (at_ ▸ inside) (Nat.not_lt.2 (Nat.le_add_right _ _))

theorem injective (soundOld : old.Sound) (heldA : new.Holds a) (heldB : new.Holds b)
    (same : image a = image b) : a = b := by
  by_cases inside : image a < old.nodes.size
  · have partnersA := placed.partners_of_lt heldA inside
    have partnersB := placed.partners_of_lt heldB (same ▸ inside)
    exact partnersA.right_unique soundOld (same ▸ partnersB)
  · -- Neither has a partner, so both stand in the list, at one place.
    have listed : ∀ {d}, new.Holds d → image a = image d → d ∈ ks := by
      intro d held equal
      refine (placed.split held).resolve_left ?_
      rintro ⟨p, partners⟩
      rw [equal, placed.shared partners] at inside
      exact inside (partners.holds_left soundOld).1
    obtain ⟨i, placeA, atA⟩ := placed.placed (listed heldA rfl)
    obtain ⟨i', placeB, atB⟩ := placed.placed (listed heldB same)
    rw [atA, atB] at same
    have equal : i = i' := Nat.add_left_cancel same
    rw [equal, placeB] at placeA
    exact (Option.some.inj placeA).symm

/-- What is created stands for a node of the list. -/
theorem creation {i : Nat} {node : Specimen} (place : c.creations[i]? = some node) :
    ∃ b, ks[i]? = some b ∧ node.id = (new.node b).id ∧ node.kind = (new.node b).kind ∧
      node.content.fields = (new.node b).fields := by
  have both := congrArg (·[i]?) placed.created
  simp only [List.getElem?_map, place, Option.map_some] at both
  cases found : ks[i]? with
  | none => simp [found] at both
  | some b => simpa [found] using both

theorem length_creations : c.creations.length = ks.length := by
  simpa using congrArg List.length placed.created

end Placed

/-- All nodes of the new model have their images, and the links that both models share stand. -/
structure Populated (old new m : Model) (image : Key → Key) (carry : NodeId → NodeId) : Prop extends
    Images m new image fun b => carry (new.node b).id where
  sound : m.Sound
  onto : ∀ {k}, m.Holds k → ∃ b, new.Holds b ∧ image b = k
  shared : ∀ {a b}, Partners old new a b → (m.node a).id = (old.node a).id ∧
    (m.node a).fields = (old.node a).fields
  lone : ∀ {b}, new.Holds b → (∀ a, ¬ Partners old new a b) →
    (m.node (image b)).fields = (new.node b).fields
  joins : ∀ {j}, m.Joins j ↔ SharedJoint old new j

theorem Placed.exists_populated (placed : Placed c old new ks image) (tells : c.Tells old new)
    (soundOld : old.Sound) (soundNew : new.Sound)
    (apart : ∀ {a b}, old.Holds a → new.Holds b → old.nameOf a ≠ new.nameOf b)
    (cleared : Cleared old new m) :
    ∃ m', DoesAll m (c.creations.map .create) m' ∧ Populated old new m' image c.carry := by
  have names : (c.creations.map fun node => node.id.name).Nodup := by
    have same : c.creations.map (fun node => node.id.name) = ks.map new.nameOf := by
      have ids := congrArg (List.map fun x : NodeId × Kind × Dict String => x.1.name) placed.created
      rw [List.map_map, List.map_map] at ids
      exact ids
    rw [same]
    exact placed.nodup.map_on fun a first b second same =>
      soundNew.named (placed.lone.1 first).1 (placed.lone.1 second).1 same
  obtain ⟨m', does, sound, holds, olds, news, joins⟩ := exists_grown cleared.sound
    c.creations
    (fun node member => by
      obtain ⟨i, place⟩ := List.getElem?_of_mem member
      obtain ⟨b, at_, id, _⟩ := placed.creation place
      rw [id]
      exact soundNew.solid (placed.lone.1 (List.mem_of_getElem? at_)).1)
    names
    (fun node member k held => by
      obtain ⟨i, place⟩ := List.getElem?_of_mem member
      obtain ⟨b, at_, id, _⟩ := placed.creation place
      obtain ⟨b', partners⟩ := cleared.holds.1 held
      have name : m.nameOf k = old.nameOf k := congrArg NodeId.name (cleared.id partners)
      rw [id, name]
      exact apart (partners.holds_left soundOld) (placed.lone.1 (List.mem_of_getElem? at_)).1)
  rw [cleared.size] at holds olds news
  have node : ∀ {a b}, Partners old new a b → m'.node a = m.node a := fun partners =>
    olds _ (partners.holds_left soundOld).1
  -- A node that was made is what its creation says.
  have made : ∀ {b}, b ∈ ks → m'.Holds (image b) ∧ (m'.node (image b)).id = (new.node b).id ∧
      (m'.node (image b)).kind = (new.node b).kind ∧
      (m'.node (image b)).fields = (new.node b).fields := by
    intro b member
    obtain ⟨i, place, at_⟩ := placed.placed member
    have inside : i < c.creations.length :=
      placed.length_creations ▸ (List.getElem?_eq_some_iff.1 place).1
    obtain ⟨b', place', id, kind, fields⟩ := placed.creation (List.getElem?_eq_getElem inside)
    rw [place] at place'
    cases place'
    refine ⟨(holds _).2 (.inr ⟨i, inside, at_⟩), ?_⟩
    rw [at_, news i _ (List.getElem?_eq_getElem inside)]
    exact ⟨id, kind, fields⟩
  refine ⟨m', does, ⟨⟨fun {b} held => ?_, placed.injective soundOld, fun {b} held => ?_,
    fun {b} held => ?_⟩, sound, fun {k} held => ?_, fun partners => ?_, fun held lone => ?_,
    fun {j} => (joins j).trans cleared.joins⟩⟩
  · rcases placed.split held with ⟨a, partners⟩ | member
    · rw [placed.shared partners]
      exact (holds a).2 (.inl (cleared.holds.2 ⟨b, partners⟩))
    · exact (made member).1
  · rcases placed.split held with ⟨a, partners⟩ | member
    · rw [placed.shared partners, node partners, cleared.id partners,
        tells.carry_of_partners soundNew partners]
    · rw [(made member).2.1, tells.carry_of_lone soundNew held (placed.lone.1 member).2]
  · rcases placed.split held with ⟨a, partners⟩ | member
    · rw [placed.shared partners, node partners, cleared.kind partners, partners.kind_eq]
    · exact (made member).2.2.1
  · rcases (holds k).1 held with before | ⟨i, inside, at_⟩
    · obtain ⟨b, partners⟩ := cleared.holds.1 before
      exact ⟨b, partners.holds_right soundNew, placed.shared partners⟩
    · obtain ⟨b, place, _⟩ := placed.creation (List.getElem?_eq_getElem inside)
      have member := List.mem_of_getElem? place
      obtain ⟨i', place', at'⟩ := placed.placed member
      have equal := getElem?_unique placed.nodup place place'
      exact ⟨b, (placed.lone.1 member).1, by rw [at', at_, equal]⟩
  · rw [node partners]
    exact ⟨cleared.id partners, cleared.fields partners⟩
  · exact (made (placed.lone.2 ⟨held, lone⟩)).2.2.2

/-! ### Links rise and fields change -/

/-- With the links of the new model added, exactly the images of its links stand. -/
theorem Placed.exists_joined (placed : Placed c old new ks image) (tells : c.Tells old new)
    (soundOld : old.Sound) (soundNew : new.Sound) (populated : Populated old new m image c.carry) :
    ∃ m', DoesAll m (c.addedLinks.map .addLink) m' ∧ m'.Sound ∧ SameNodes m m' ∧
      ∀ {j}, m'.Joins j ↔ ∃ j', new.Joins j' ∧ j = j'.map image := by
  obtain ⟨rise, nodup, member, added⟩ := tells.added
  -- Links that stand for one another are images of one another.
  have moved : ∀ {j j'}, JointPartners old new j j' → j'.map image = j := by
    rintro ⟨p, e, d⟩ ⟨p', e', d'⟩ ⟨up, edge, down⟩
    simp only at edge
    rw [Joint.map, placed.shared up, placed.shared down, ← edge]
  obtain ⟨m', does, sound, same, joins⟩ := exists_linked populated.sound soundNew
    populated.toImages
    (fun j joined => by
      obtain ⟨_, j', joins', partners⟩ := populated.joins.1 joined
      exact ⟨j', joins', (moved partners).symm⟩)
    nodup fun j inside => by
      obtain ⟨joins, unshared⟩ := (member j).1 inside
      refine ⟨joins, fun there => ?_⟩
      obtain ⟨joinsOld, _⟩ := populated.joins.1 there
      exact unshared ⟨j.map image, joinsOld, placed.partners_of_lt joins.1 joinsOld.1.1, rfl,
        placed.partners_of_lt (soundNew.holds_child joins) (soundOld.holds_child joinsOld).1⟩
  refine ⟨m', ?_, sound, same, fun {j} => ?_⟩
  · rw [added, List.map_map]
    exact does
  · rw [joins, populated.joins]
    constructor
    · rintro (⟨_, j', joins', partners⟩ | ⟨j', inside, rfl⟩)
      · exact ⟨j', joins', (moved partners).symm⟩
      · exact ⟨j', ((member j').1 inside).1, rfl⟩
    · rintro ⟨j', joins', rfl⟩
      by_cases known : ∃ j'', old.Joins j'' ∧ JointPartners old new j'' j'
      · obtain ⟨j'', joinsOld, partners⟩ := known
        rw [moved partners]
        exact .inl ⟨joinsOld, j', joins', partners⟩
      · exact .inr ⟨j', (member j').2 ⟨joins', known⟩, rfl⟩

/-- Nothing stands in the way of a change set, and it leads to the new model carried over. A node
that both models have keeps its place. -/
theorem ChangeSet.Tells.exists_replayed (tells : c.Tells old new) (soundOld : old.Sound)
    (soundNew : new.Sound)
    (apart : ∀ {a b}, old.Holds a → new.Holds b → old.nameOf a ≠ new.nameOf b) :
    ∃ m image, DoesAll old c.entries m ∧ m.Sound ∧ CarriedOver m new c.carry image ∧
      ∀ {a b}, Partners old new a b → image b = a := by
  -- The entries first take away, then create, then link, and at last change the fields of the shared nodes.
  obtain ⟨m₁, does₁, cleared⟩ := tells.exists_cleared soundOld
  obtain ⟨ks, image, placed⟩ := tells.exists_placed soundNew
  obtain ⟨m₂, does₂, populated⟩ := placed.exists_populated tells soundOld soundNew apart cleared
  obtain ⟨m₃, does₃, sound₃, same₃, joins₃⟩ :=
    placed.exists_joined tells soundOld soundNew populated
  have images := populated.toImages.sameNodes same₃
  obtain ⟨ps, nodup, member, changed⟩ := tells.changed
  have firsts : (ps.map Prod.fst).Nodup := by
    refine (nodup.of_map _).map_on fun ⟨a, b⟩ first ⟨a', b'⟩ second same => ?_
    simp only at same
    subst same
    rw [((member a b).1 first).right_unique soundOld ((member a b').1 second)]
  obtain ⟨m₄, does₄, sound₄, forest₄, reached, others⟩ := exists_refielded old new sound₃
    firsts fun p inside => by
      have partners := (member p.1 p.2).1 inside
      obtain ⟨id, fields⟩ := populated.shared partners
      refine ⟨?_, (same₃.id _).trans id, ?_⟩
      · have held := images.holds (partners.holds_right soundNew)
        rwa [placed.shared partners] at held
      · rw [same₃.content]
        exact fields
  refine ⟨m₄, image, ?_, sound₄, ⟨fun held => forest₄.holds_iff.2 (images.holds held),
    fun {k} held => ?_, images.injective, fun held => (forest₄.id _).trans (images.id held),
    fun held => (forest₄.kind _).trans (images.kind held), fun {b} held => ?_,
    fun {b} held e => ?_⟩, placed.shared⟩
  · rw [ChangeSet.entries, changed]
    exact (((does₁.append does₂).append does₃).append does₄)
  · exact populated.onto ((same₃.holds k).1 (forest₄.holds_iff.1 held))
  · -- A shared node has its fields changed to those of its partner; a new one has had them from the start.
    rcases placed.split held with ⟨a, partners⟩ | inside
    · rw [placed.shared partners]
      exact reached (a, b) ((member a b).2 partners)
    · have lone := (placed.lone.1 inside).2
      have outside : image b ∉ ps.map Prod.fst := by
        intro inPs
        obtain ⟨⟨a, b'⟩, pair, same⟩ := List.mem_map.1 inPs
        have partners := (member a b').1 pair
        have equal : image b' = image b := (placed.shared partners).trans same
        have one := placed.injective soundOld (partners.holds_right soundNew) held equal
        exact lone a (one ▸ partners)
      rw [others _ outside, same₃.content]
      exact populated.lone held lone
  · rw [forest₄.target]
    exact images.target held fun c => joins₃

end DocSync
