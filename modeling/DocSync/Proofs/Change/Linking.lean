import DocSync.Proofs.Change.Outline
import DocSync.Proofs.Model.Coherence

/-!
Links that are made one after the other. On a model without links they can all be made just when each of
them means a link between two nodes, no link is taken twice, no node is linked to twice, and no way along
them returns. The order in which they come has no part in this.
-/

namespace DocSync

variable {m m' : Model} {j j' : Joint} {l : Link} {done rest links : List Link} {p c : Key} {e : Edge}

/-- A link by ids means a link between two nodes of a model, whether it has been made or not. -/
structure Model.Means (m : Model) (l : Link) (j : Joint) : Prop where
  parent : m.Holds j.parent
  child : m.Holds j.child
  parentName : m.nameOf j.parent = l.parent.name
  childName : m.nameOf j.child = l.child.name
  named : (m.node j.parent).edge? l.slot = some j.edge

/-- The links of a model are those of a list. -/
def Model.HasLinks (m : Model) (links : List Link) : Prop :=
  ∀ j, m.Joins j ↔ ∃ l ∈ links, m.Means l j

/-- One name leads to another one by a link of a list. -/
def LinksTo (links : List Link) (a b : Name) : Prop :=
  ∃ l ∈ links, l.parent.name = a ∧ l.child.name = b

/-- Links that make a forest of the nodes of a model. -/
structure Model.Linkable (m : Model) (links : List Link) : Prop where
  means : ∀ l ∈ links, ∃ j, m.Means l j
  slots : (links.map fun l => (l.parent.name, l.slot)).Nodup
  children : (links.map fun l => l.child.name).Nodup
  acyclic : ∀ name, ¬ Relation.TransGen (LinksTo links) name name

theorem LinksTo.mono {links' : List Link} (sub : links ⊆ links') {a b : Name} (leads : LinksTo links a b) :
    LinksTo links' a b := by
  obtain ⟨l, inside, ends⟩ := leads
  exact ⟨l, sub inside, ends⟩

namespace Model

theorem Means.sameNodes (same : SameNodes m m') : m'.Means l j ↔ m.Means l j := by
  have edge : (m'.node j.parent).edge? l.slot = (m.node j.parent).edge? l.slot := by
    rw [Node.edge?, Node.edge?, same.kind]
  constructor
  · rintro ⟨parent, child, parentName, childName, named⟩
    rw [nameOf, same.id] at parentName childName
    exact ⟨(same.holds _).1 parent, (same.holds _).1 child, parentName, childName, edge ▸ named⟩
  · rintro ⟨parent, child, parentName, childName, named⟩
    rw [nameOf, ← same.id] at parentName childName
    exact ⟨(same.holds _).2 parent, (same.holds _).2 child, parentName, childName, edge ▸ named⟩

theorem Linkable.sameNodes (same : SameNodes m m') : m'.Linkable links ↔ m.Linkable links := by
  constructor
  · rintro ⟨means, slots, children, acyclic⟩
    exact ⟨fun l inside => (means l inside).imp fun _ => (Means.sameNodes same).1, slots, children,
      acyclic⟩
  · rintro ⟨means, slots, children, acyclic⟩
    exact ⟨fun l inside => (means l inside).imp fun _ => (Means.sameNodes same).2, slots, children,
      acyclic⟩

theorem HasLinks.nil (bare : ∀ j, ¬ m.Joins j) : m.HasLinks [] := fun j => by simp [bare]

theorem Linkable.nil : m.Linkable [] where
  means := nofun
  slots := List.nodup_nil
  children := List.nodup_nil
  acyclic name way := by
    obtain ⟨_, ⟨_, inside, _⟩, _⟩ := Relation.TransGen.head'_iff.1 way
    cases inside

theorem Linkable.of_append (linkable : m.Linkable (done ++ rest)) : m.Linkable done where
  means l inside := linkable.means l (List.mem_append_left _ inside)
  slots := (List.nodup_append.1 (List.map_append ▸ linkable.slots)).1
  children := (List.nodup_append.1 (List.map_append ▸ linkable.children)).1
  acyclic name way :=
    linkable.acyclic name (way.lift id fun _ _ => LinksTo.mono (List.subset_append_left done rest))

/-- The link by which a link is meant tells what is meant. -/
theorem Sound.means_unique (sound : m.Sound) (means : m.Means l j) (means' : m.Means l j') : j = j' := by
  -- Its ends are found by their names, and its edge by the name of the slot.
  obtain ⟨p, e, c⟩ := j
  obtain ⟨p', e', c'⟩ := j'
  obtain rfl : p = p' :=
    sound.named means.parent means'.parent (means.parentName.trans means'.parentName.symm)
  obtain rfl : c = c' := sound.named means.child means'.child (means.childName.trans means'.childName.symm)
  obtain rfl : e = e' := Option.some.inj (means.named.symm.trans means'.named)
  rfl

/-- A node that stands over another one leads to it by the links of the model. -/
theorem HasLinks.linksTo_of_over (sound : m.Sound) (has : m.HasLinks links) (atop : m.Over p c) :
    Relation.ReflTransGen (LinksTo links) (m.nameOf p) (m.nameOf c) := by
  induction atop with
  | refl => exact .refl
  | step _ held parent ih =>
    obtain ⟨l, inside, means⟩ := (has _).1 (sound.forth held parent : m.Joins ⟨_, _, _⟩)
    exact ih.tail ⟨l, inside, means.parentName.symm, means.childName.symm⟩

/-- No way along the links of a sound model returns. -/
theorem HasLinks.acyclic (sound : m.Sound) (has : m.HasLinks links)
    (means : ∀ l ∈ links, ∃ j, m.Means l j) (name : Name) :
    ¬ Relation.TransGen (LinksTo links) name name := by
  intro way
  -- Each name of the way is that of a node, and the nodes are linked as the names are.
  have named : ∀ {k name}, m.Holds k → m.nameOf k = name → (m.named? name).getD 0 = k := by
    intro k name held same
    rw [sound.named?_eq_some_iff.2 ⟨held, same⟩]
    rfl
  refine sound.not_transGen_holding (way.lift (p := m.Holding) (fun name => (m.named? name).getD 0) ?_)
  rintro _ _ ⟨l, inside, rfl, rfl⟩
  obtain ⟨j, meant⟩ := means l inside
  have joins := (has j).2 ⟨l, inside, meant⟩
  change m.Holding ((m.named? l.parent.name).getD 0) ((m.named? l.child.name).getD 0)
  rw [named meant.parent meant.parentName, named meant.child meant.childName]
  exact ⟨joins.1, j.edge, joins.2⟩

/-! ### One link -/

/-- A link that is made joins the links of the model. -/
theorem HasLinks.append (sound : m.Sound) (has : m.HasLinks done) (means : m.Means l ⟨p, e, c⟩)
    (differ : p ≠ c) (free : (m.node p).target? e = none) :
    (m.rehang p e c true).HasLinks (done ++ [l]) := by
  have same := sameNodes_rehang e means.parent means.child differ true
  intro j
  rw [joins_rehang_true means.parent means.child differ free, has j]
  simp only [Means.sameNodes same, List.mem_append, List.mem_singleton, or_and_right, exists_or,
    exists_eq_left]
  exact or_congr_right ⟨fun new => new ▸ means, fun meant => sound.means_unique meant means⟩

/-- What is done for a link is done between the nodes that the link means. -/
theorem exists_means_of_does (does : Does m (.addLink l) m') :
    ∃ p e c, m.Means l ⟨p, e, c⟩ ∧ (m.node p).target? e = none ∧ (m.node c).parent = none ∧
      ¬ m.Over c p ∧ m' = m.rehang p e c true := by
  cases does with
  | addLink _ heldP heldC nameP nameC named free root apart =>
    exact ⟨_, _, _, ⟨heldP, heldC, nameP, nameC, named⟩, free, root, apart, rfl⟩

theorem ne_of_not_over (apart : ¬ m.Over c p) : p ≠ c := fun same => apart (same ▸ .refl)

theorem sameNodes_of_does (does : Does m (.addLink l) m') : SameNodes m m' := by
  obtain ⟨p, e, c, means, _, _, apart, rfl⟩ := exists_means_of_does does
  exact sameNodes_rehang e means.parent means.child (ne_of_not_over apart) true

theorem HasLinks.of_does (sound : m.Sound) (has : m.HasLinks done) (does : Does m (.addLink l) m') :
    m'.HasLinks (done ++ [l]) := by
  obtain ⟨p, e, c, means, free, _, apart, rfl⟩ := exists_means_of_does does
  exact has.append sound means (ne_of_not_over apart) free

section Step

variable (sound : m.Sound) (has : m.HasLinks done) (linkable : m.Linkable done)
include sound has linkable

/-- A link that can be made behind others goes with them. -/
theorem linkable_of_does (does : Does m (.addLink l) m') : m.Linkable (done ++ [l]) := by
  have has' := has.of_does sound does
  have sound' := does.sound sound
  have same := sameNodes_of_does does
  obtain ⟨p, e, c, means, free, root, -, -⟩ := exists_means_of_does does
  have all : ∀ l' ∈ done ++ [l], ∃ j, m.Means l' j := by
    intro l' inside
    rcases List.mem_append.1 inside with before | last
    · exact linkable.means l' before
    · exact ⟨_, List.mem_singleton.1 last ▸ means⟩
  -- A link of its name or to its child would stand in its way.
  refine ⟨all, ?_, ?_, has'.acyclic sound' fun l' inside =>
    (all l' inside).imp fun _ => (Means.sameNodes same).2⟩
  · rw [List.map_append, List.nodup_append]
    refine ⟨linkable.slots, List.nodup_singleton _, ?_⟩
    rintro _ before _ last rfl
    obtain ⟨l', inside, equal⟩ := List.mem_map.1 before
    obtain ⟨parents, slots⟩ := Prod.mk.inj (equal.trans (List.mem_singleton.1 last))
    obtain ⟨⟨p', e', c'⟩, meant⟩ := linkable.means l' inside
    obtain rfl : p' = p := sound.named meant.parent means.parent
      (meant.parentName.trans (parents.trans means.parentName.symm))
    have edges := meant.named
    rw [slots, means.named] at edges
    obtain rfl : e = e' := Option.some.inj edges
    have taken : (m.node p').target? e = some c' := ((has _).2 ⟨l', inside, meant⟩).2
    rw [free] at taken
    cases taken
  · rw [List.map_append, List.nodup_append]
    refine ⟨linkable.children, List.nodup_singleton _, ?_⟩
    rintro _ before _ last rfl
    obtain ⟨l', inside, equal⟩ := List.mem_map.1 before
    obtain ⟨⟨p', e', c'⟩, meant⟩ := linkable.means l' inside
    obtain rfl : c' = c := sound.named meant.child means.child
      (meant.childName.trans ((equal.trans (List.mem_singleton.1 last)).trans means.childName.symm))
    have joins := (has _).2 ⟨l', inside, meant⟩
    have parent : (m.node c').parent = some (p', e') := (sound.back joins.1 joins.2).2
    rw [root] at parent
    cases parent

omit linkable in
/-- A link that goes with others can be made behind them. -/
theorem does_of_linkable (linkable : m.Linkable (done ++ [l])) : ∃ m', Does m (.addLink l) m' := by
  obtain ⟨⟨p, e, c⟩, means⟩ := linkable.means l (by simp)
  have slots := linkable.slots
  have children := linkable.children
  rw [List.map_append, List.nodup_append] at slots children
  have free : (m.node p).target? e = none := by
    cases target : (m.node p).target? e with
    | none => rfl
    | some d =>
      -- What has taken the link was made for a link of its name.
      obtain ⟨l', inside, meant⟩ := (has ⟨p, e, d⟩).1 ⟨means.parent, target⟩
      have named : l'.slot = l.slot :=
        (Node.edgeName_of_edge? meant.named).symm.trans (Node.edgeName_of_edge? means.named)
      refine absurd ?_ (slots.2.2 _ (List.mem_map.2 ⟨l', inside, rfl⟩) _ (List.mem_singleton_self _))
      exact Prod.ext (meant.parentName.symm.trans means.parentName) named
  have root : (m.node c).parent = none := by
    cases parent : (m.node c).parent with
    | none => rfl
    | some link =>
      obtain ⟨q, e'⟩ := link
      have joins : m.Joins ⟨q, e', c⟩ := sound.forth means.child parent
      obtain ⟨l', inside, meant⟩ := (has _).1 joins
      exact absurd (meant.childName.symm.trans means.childName)
        (children.2.2 _ (List.mem_map.2 ⟨l', inside, rfl⟩) _ (List.mem_singleton_self _))
  have apart : ¬ m.Over c p := by
    intro atop
    -- The way down from the child, and the link back to it, would return.
    have way : Relation.ReflTransGen (LinksTo (done ++ [l])) (m.nameOf c) (m.nameOf p) :=
      (has.linksTo_of_over sound atop).lift id fun _ _ =>
        LinksTo.mono (List.subset_append_left done [l])
    exact linkable.acyclic _ (.tail' way ⟨l, by simp, means.parentName.symm, means.childName.symm⟩)
  exact ⟨_, .addLink l means.parent means.child means.parentName means.childName means.named free root
    apart⟩

end Step

/-! ### All links -/

/-- Links that are made leave the nodes as they are. -/
theorem sameNodes_of_doesAll (does : DoesAll m (rest.map .addLink) m') : SameNodes m m' := by
  induction rest generalizing m with
  | nil =>
    cases does
    exact .refl _
  | cons l rest ih =>
    cases does with
    | cons step later => exact (sameNodes_of_does step).trans (ih later)

/-- Links that have been made are the links of the model. -/
theorem hasLinks_of_doesAll (sound : m.Sound) (has : m.HasLinks done)
    (does : DoesAll m (rest.map .addLink) m') : m'.HasLinks (done ++ rest) := by
  induction rest generalizing m done with
  | nil =>
    cases does
    exact (List.append_nil done).symm ▸ has
  | cons l rest ih =>
    cases does with
    | cons step later =>
      have has' := ih (step.sound sound) (has.of_does sound step) later
      rwa [List.append_assoc] at has'

/-- Links can all be made just when they go with one another and with those that are there. -/
theorem exists_doesAll_addLink_iff (sound : m.Sound) (has : m.HasLinks done)
    (linkable : m.Linkable done) :
    (∃ m', DoesAll m (rest.map .addLink) m') ↔ m.Linkable (done ++ rest) := by
  induction rest generalizing m done with
  | nil => exact iff_of_true ⟨m, .nil m⟩ ((List.append_nil done).symm ▸ linkable)
  | cons l rest ih =>
    have split : done ++ l :: rest = done ++ [l] ++ rest := by simp
    rw [split]
    constructor
    · -- The first link goes with those that are there, and is there for the later ones.
      rintro ⟨m', does⟩
      cases does with
      | @cons _ m₁ _ _ _ step later =>
        have same := sameNodes_of_does step
        have front := (Linkable.sameNodes same).2 (linkable_of_does sound has linkable step)
        exact (Linkable.sameNodes same).1
          ((ih (step.sound sound) (has.of_does sound step) front).1 ⟨m', later⟩)
    · intro all
      obtain ⟨m₁, step⟩ := does_of_linkable sound has all.of_append
      have same := sameNodes_of_does step
      obtain ⟨m', later⟩ := (ih (step.sound sound) (has.of_does sound step)
        ((Linkable.sameNodes same).2 all.of_append)).2 ((Linkable.sameNodes same).2 all)
      exact ⟨m', .cons step later⟩

end Model

end DocSync
