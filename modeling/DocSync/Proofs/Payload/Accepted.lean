import DocSync.Proofs.Model.Coherence
import DocSync.Proofs.Payload.Restoring

/-!
What it takes for a stored model to be restored. Its nodes can be made if their ids differ, and its links if
they go from slots that are there to nodes that are there, no link and no child twice, and never back to
where they came from; and then the top level has to be what no link leads to. Whatever does not fit together is
refused, and what does is restored as it was stored.
-/

namespace DocSync

variable {s : StoredModel} {m m' : Model} {nodes : List StoredNode} {come : List Specimen} {k : Key}

/-- The name of a slot that a node has, or that of the link to its sibling. -/
theorem Node.exists_edge?_iff {n : Node} {slot : String} :
    (∃ e, n.edge? slot = some e) ↔ slot = nextName ∨ n.kind.slot? = some slot := by
  -- The name of the sibling's link comes first, and then the kind is asked for its slot.
  unfold Node.edge?
  split
  · next is => simp [is]
  · next other =>
    split
    · next has => simp [has]
    · next lacks => simp [other, lacks]

namespace StoredModel

/-- A model has the nodes of a stored one, each at the place of its record. -/
structure Populates (s : StoredModel) (m : Model) : Prop where
  held : ∀ k, m.Holds k ↔ k < s.nodes.length
  node : ∀ {k n}, s.nodes[k]? = some n → (m.node k).id = .text n.id ∧
    Kind.ofName? n.kind = some (m.node k).kind ∧ (m.node k).toContent = n.content

/-- A model is the one that is stored: it has the nodes of its records and no others, their links and no
others, the same top level, and the same texts around it. -/
structure Describes (s : StoredModel) (m : Model) : Prop extends Populates s m where
  links : ∀ l, l ∈ s.links ↔ ∃ j, m.Joins j ∧ m.linkOf j = l.toLink
  roots : m.roots.map (fun k => (m.node k).id) = s.roots.map .text
  leading : m.leading = s.leading
  trailing : m.trailing = s.trailing
  sourceHash : m.sourceHash = s.sourceHash
  strays : m.strays = []

/-! ### Nodes -/

/-- Records of known kinds have nodes to be made. -/
theorem exists_specimens (kinds : ∀ n ∈ nodes, ∃ kind, Kind.ofName? n.kind = some kind) :
    ∃ come, Makes nodes come := by
  induction nodes with
  | nil => exact ⟨[], .nil⟩
  | cons n rest ih =>
    rw [List.forall_mem_cons] at kinds
    obtain ⟨kind, named⟩ := kinds.1
    obtain ⟨come, made⟩ := ih kinds.2
    exact ⟨_ :: come, .cons (by rw [StoredNode.specimen?, named]; rfl) made⟩

/-- The names of the nodes to be made are the ids of their records. -/
theorem names_of_made (made : Makes nodes come) :
    (come.map fun node => node.id.name) = (nodes.map StoredNode.id).map .text := by
  induction made with
  | nil => rfl
  | cons first _ ih =>
    obtain ⟨kind, -, rfl⟩ := Option.map_eq_some_iff.1 first
    rw [List.map_cons, ih]
    rfl

section Nodes

variable (blank : m.Blank) (made : Makes s.nodes come)
include blank made

/-- Nodes are made just when their ids differ. -/
theorem exists_doesAll_create_iff (filled : ∀ n ∈ s.nodes, n.id ≠ "") :
    (∃ m₁, DoesAll m (come.map .create) m₁) ↔ s.ids.Nodup := by
  have sound := blank.sound
  have names := names_of_made made
  constructor
  · -- No name is taken twice, and the names of the nodes are the ids of the records.
    rintro ⟨m₁, does⟩
    obtain ⟨-, apart, -⟩ := fresh_of_doesAll sound does
    rw [names] at apart
    exact apart.of_map _
  · -- There is no node yet that could have taken one of the names.
    intro nodup
    have solid : ∀ node ∈ come, node.id.isVoid = false := by
      intro node inside
      obtain ⟨n, listed, same⟩ := made.flip.exists_of_mem inside
      obtain ⟨kind, -, rfl⟩ := Option.map_eq_some_iff.1 same
      simp [NodeId.isVoid, NodeId.toJson, Json.isVoid, filled n listed]
    obtain ⟨m₁, does, -⟩ := exists_grown sound come solid
      (names ▸ nodup.map fun a b same => Name.text.inj same)
      fun node _ k held => absurd held.1 (by simp [blank.1])
    exact ⟨m₁, does⟩

/-- Where there are no nodes, those of a stored model are made in the places of their records. -/
theorem populates_of_doesAll (does : DoesAll m (come.map .create) m') :
    s.Populates m' ∧ ∀ j, ¬ m'.Joins j := by
  have sound := blank.sound
  have nothing : ∀ k, ¬ m.Holds k := fun k held => absurd held.1 (by simp [blank.1])
  have size : m.nodes.size = 0 := by simp [blank.1]
  -- The nodes can be made in one way only, so they are made as they are made here.
  obtain ⟨solid, apart, fresh⟩ := fresh_of_doesAll sound does
  obtain ⟨m₁, does₁, -, holds, -, news, joins⟩ := exists_grown sound come solid apart fresh
  obtain rfl := does₁.unique sound does
  simp only [size, Nat.zero_add, nothing, false_or] at holds news
  refine ⟨⟨fun k => ?_, fun {k n} place => ?_⟩, fun j joined => nothing _ ((joins j).1 joined).1⟩
  · rw [holds, made.length_eq]
    exact ⟨fun ⟨i, inside, same⟩ => same ▸ inside, fun inside => ⟨k, inside, rfl⟩⟩
  · obtain ⟨inside, rfl⟩ := List.getElem?_eq_some_iff.1 place
    have inside' : k < come.length := made.length_eq ▸ inside
    obtain ⟨kind, named, same⟩ := Option.map_eq_some_iff.1 (made.get inside inside')
    simp only [List.get_eq_getElem] at named same
    rw [news k _ (List.getElem?_eq_getElem inside'), ← same]
    exact ⟨rfl, named, rfl⟩

end Nodes

/-! ### Links -/

namespace Populates

variable (populates : s.Populates m)
include populates

/-- Each node that is held has its record. -/
theorem exists_record (held : m.Holds k) : ∃ n, s.nodes[k]? = some n ∧ m.nameOf k = .text n.id := by
  have inside := (populates.held k).1 held
  have place := List.getElem?_eq_getElem inside
  exact ⟨_, place, congrArg NodeId.name (populates.node place).1⟩

/-- Each record has its node. -/
theorem exists_node {n : StoredNode} (listed : n ∈ s.nodes) :
    ∃ k, s.nodes[k]? = some n ∧ m.Holds k ∧ m.nameOf k = .text n.id := by
  obtain ⟨k, place⟩ := List.getElem?_of_mem listed
  have inside := (List.getElem?_eq_some_iff.1 place).1
  exact ⟨k, place, (populates.held k).2 inside, congrArg NodeId.name (populates.node place).1⟩

/-- The node of a record has the slots of the record's kind. -/
theorem exists_edge?_iff {n : StoredNode} (place : s.nodes[k]? = some n) {slot : String} :
    (∃ e, (m.node k).edge? slot = some e) ↔
      slot = nextName ∨ ∃ kind, Kind.ofName? n.kind = some kind ∧ kind.slot? = some slot := by
  rw [Node.exists_edge?_iff, (populates.node place).2.1]
  simp

/-- A link of a record means one between nodes just when its slot and its target are there. -/
theorem exists_means_iff (nodup : s.ids.Nodup) {n : StoredNode} (listed : n ∈ s.nodes) {l : StoredLink}
    (own : l.parent = n.id) : (∃ j, m.Means l.toLink j) ↔
      (l.slot = nextName ∨ ∃ kind, Kind.ofName? n.kind = some kind ∧ kind.slot? = some l.slot) ∧
        l.child ∈ s.ids := by
  constructor
  · rintro ⟨j, means⟩
    -- The record of the node that is meant has an id that no other one has.
    obtain ⟨n', place, name⟩ := populates.exists_record means.parent
    have same : n'.id = n.id := (Name.text.inj (name.symm.trans means.parentName)).trans own
    obtain rfl := List.inj_on_of_nodup_map nodup (List.mem_of_getElem? place) listed same
    obtain ⟨c, placeC, nameC⟩ := populates.exists_record means.child
    have child : c.id = l.child := Name.text.inj (nameC.symm.trans means.childName)
    exact ⟨(populates.exists_edge?_iff place).1 ⟨j.edge, means.named⟩,
      child ▸ List.mem_map_of_mem (List.mem_of_getElem? placeC)⟩
  · -- Both ends have nodes, and the one above has the slot that its kind has.
    rintro ⟨slot, known⟩
    obtain ⟨p, place, heldP, nameP⟩ := populates.exists_node listed
    obtain ⟨c, listedC, child⟩ := List.mem_map.1 known
    obtain ⟨q, -, heldC, nameC⟩ := populates.exists_node listedC
    obtain ⟨e, named⟩ := (populates.exists_edge?_iff place).2 slot
    exact ⟨⟨p, e, q⟩, heldP, heldC, nameP.trans (congrArg Name.text own.symm),
      nameC.trans (congrArg Name.text child), named⟩

end Populates

/-- A record has the links of its own node. -/
theorem parent_of_mem_links {n : StoredNode} {l : StoredLink} (inside : l ∈ n.links) : l.parent = n.id := by
  rcases List.mem_append.1 inside with slot | next
  · obtain ⟨entry, _, same⟩ := List.mem_filterMap.1 slot
    obtain ⟨_, _, rfl⟩ := Option.map_eq_some_iff.1 same
    rfl
  · obtain ⟨_, _, rfl⟩ := List.mem_map.1 next
    rfl

/-- A way along links returns just when one along the ids does. -/
theorem acyclic_iff : (∀ name, ¬ Relation.TransGen (DocSync.LinksTo (s.links.map StoredLink.toLink)) name name) ↔
    ∀ id, ¬ Relation.TransGen s.LinksTo id id := by
  constructor
  · intro acyclic id way
    refine acyclic (.text id) (way.lift Name.text ?_)
    rintro _ _ ⟨l, inside, rfl, rfl⟩
    exact ⟨l.toLink, List.mem_map_of_mem inside, rfl, rfl⟩
  · intro acyclic name way
    -- All names on the way are those of ids.
    refine acyclic name.asText (way.lift Name.asText ?_)
    rintro _ _ ⟨_, inside, rfl, rfl⟩
    obtain ⟨l, listed, rfl⟩ := List.mem_map.1 inside
    exact ⟨l, listed, rfl, rfl⟩

theorem children_toLink (links : List StoredLink) :
    (links.map StoredLink.toLink).map (fun l => l.child.name) =
      (links.map StoredLink.child).map Name.text := by
  rw [List.map_map, List.map_map]
  rfl

/-- The links of records can be made between their nodes just when the records fit together. -/
theorem Populates.linkable_iff (populates : s.Populates m) (nodup : s.ids.Nodup)
    (kinds : ∀ n ∈ s.nodes, ∃ kind, Kind.ofName? n.kind = some kind) :
    m.Linkable (s.links.map StoredLink.toLink) ↔ s.Fits := by
  -- Names are the same just when the ids are that they stand for.
  have slots : ((s.links.map StoredLink.toLink).map fun l => (l.parent.name, l.slot)).Nodup ↔
      (s.links.map fun l => (l.parent, l.slot)).Nodup := by
    have same : (s.links.map StoredLink.toLink).map (fun l => (l.parent.name, l.slot)) =
        (s.links.map fun l => (l.parent, l.slot)).map (Prod.map Name.text id) := by
      rw [List.map_map, List.map_map]
      rfl
    have injective : Function.Injective (Prod.map Name.text id : String × String → Name × String) := by
      rintro ⟨a, b⟩ ⟨a', b'⟩ both
      simpa using both
    rw [same, List.nodup_map_iff injective]
  have children : ((s.links.map StoredLink.toLink).map fun l => l.child.name).Nodup ↔
      (s.links.map StoredLink.child).Nodup := by
    rw [children_toLink, List.nodup_map_iff fun a b => Name.text.inj]
  constructor
  · -- That a link means something tells that its slot and its target are there.
    intro linkable
    have meant := fun n (listed : n ∈ s.nodes) l (inside : l ∈ n.links) =>
      (populates.exists_means_iff nodup listed (parent_of_mem_links inside)).1
        (linkable.means _ (List.mem_map_of_mem (List.mem_flatMap.2 ⟨n, listed, inside⟩)))
    refine ⟨nodup, kinds, fun n listed l inside => (meant n listed l inside).1, slots.1 linkable.slots,
      fun l inside => ?_, children.1 linkable.children, acyclic_iff.1 linkable.acyclic⟩
    obtain ⟨n, listed, inside⟩ := List.mem_flatMap.1 inside
    exact (meant n listed l inside).2
  · intro fits
    refine ⟨fun _ mapped => ?_, slots.2 fits.given, children.2 fits.children, acyclic_iff.2 fits.acyclic⟩
    obtain ⟨l, inside, rfl⟩ := List.mem_map.1 mapped
    obtain ⟨n, listed, own⟩ := List.mem_flatMap.1 inside
    exact (populates.exists_means_iff nodup listed (parent_of_mem_links own)).2
      ⟨fits.slots n listed l own, fits.known l inside⟩

theorem Populates.sameNodes (populates : s.Populates m) (same : SameNodes m m') : s.Populates m' where
  held k := (same.holds k).trans (populates.held k)
  node place := by
    rw [same.id, same.kind, same.content]
    exact populates.node place

/-- A node that a stored link means has the id that it is stored under. -/
theorem linkOf_eq_of_means {l : StoredLink} {j : Joint} (means : m.Means l.toLink j) :
    m.linkOf j = l.toLink := by
  have parent : (m.node j.parent).id = .text l.parent := NodeId.name_eq_text_iff.1 means.parentName
  have child : (m.node j.child).id = .text l.child := NodeId.name_eq_text_iff.1 means.childName
  have slot : (m.node j.parent).edgeName j.edge = l.slot := Node.edgeName_of_edge? means.named
  rw [Model.linkOf, parent, child, slot]
  rfl

theorem toLink_injective : Function.Injective StoredLink.toLink := by
  rintro ⟨a, b, c⟩ ⟨a', b', c'⟩ same
  simpa [StoredLink.toLink] using same

/-! ### All entries -/

/-- What is stored of the model that restoring begins with: the texts around the document. -/
structure Begins (s : StoredModel) (m : Model) : Prop where
  blank : m.Blank
  leading : m.leading = s.leading
  trailing : m.trailing = s.trailing
  sourceHash : m.sourceHash = s.sourceHash
  strays : m.strays = []

section All

variable (begins : s.Begins m) (made : Makes s.nodes come)
include begins made

/-- All nodes and all links of records can be made just when the records fit together. -/
theorem exists_doesAll_iff (filled : ∀ n ∈ s.nodes, n.id ≠ "")
    (kinds : ∀ n ∈ s.nodes, ∃ kind, Kind.ofName? n.kind = some kind) :
    (∃ m', DoesAll m (come.map .create ++ (s.links.map StoredLink.toLink).map .addLink) m') ↔ s.Fits := by
  have sound := begins.blank.sound
  -- Once the nodes have been made there is no link yet, so that the links have to go with each other only.
  have linked : ∀ {m₁}, DoesAll m (come.map .create) m₁ → s.ids.Nodup →
      ((∃ m', DoesAll m₁ ((s.links.map StoredLink.toLink).map .addLink) m') ↔ s.Fits) := by
    intro m₁ does nodup
    obtain ⟨populates, bare⟩ := populates_of_doesAll begins.blank made does
    rw [← populates.linkable_iff nodup kinds]
    exact Model.exists_doesAll_addLink_iff (does.sound sound) (.nil bare) .nil
  constructor
  · rintro ⟨m', does⟩
    obtain ⟨m₁, does₁, does₂⟩ := does.exists_between
    have nodup := (exists_doesAll_create_iff begins.blank made filled).1 ⟨m₁, does₁⟩
    exact (linked does₁ nodup).1 ⟨m', does₂⟩
  · intro fits
    obtain ⟨m₁, does₁⟩ :=
      (exists_doesAll_create_iff begins.blank made filled).2 fits.ids
    obtain ⟨m', does₂⟩ := (linked does₁ fits.ids).2 fits
    exact ⟨m', does₁.append does₂⟩

/-- The top level in the end is what no link leads to, in the order of the records. -/
theorem topNames_of_doesAll
    (does : DoesAll m (come.map .create ++ (s.links.map StoredLink.toLink).map .addLink) m') :
    m'.topNames = (s.ids.filter (· ∉ s.links.map StoredLink.child)).map .text := by
  -- Each node comes to the end of the top level, and each link takes away what it leads to.
  have tops : m.topNames = [] := by rw [Model.topNames, begins.blank.2, List.map_nil]
  rw [does.topNames begins.blank.sound, List.foldl_append, tops,
    foldl_reorder_create, foldl_reorder_addLink, List.nil_append, names_of_made made, children_toLink,
    List.filter_map]
  refine congrArg _ (List.filter_congr fun id _ => ?_)
  rw [Function.comp_apply, decide_eq_decide, List.mem_map_of_injective fun a b => Name.text.inj]

/-- Where all nodes and all links have been made, the model is the one that is stored. -/
theorem describes_of_doesAll (fits : s.Fits)
    (does : DoesAll m (come.map .create ++ (s.links.map StoredLink.toLink).map .addLink) m')
    (roots : m'.topNames = s.roots.map .text) : s.Describes m' := by
  -- The links leave the nodes as they were made, and they are the only ones that the model has.
  have margins := does.margins
  obtain ⟨m₁, does₁, does₂⟩ := does.exists_between
  have sound₁ := does₁.sound begins.blank.sound
  have same := Model.sameNodes_of_doesAll does₂
  obtain ⟨populates₁, bare⟩ := populates_of_doesAll begins.blank made does₁
  have populates := populates₁.sameNodes same
  have has : m'.HasLinks (s.links.map StoredLink.toLink) :=
    Model.hasLinks_of_doesAll sound₁ (.nil bare) does₂
  have linkable := (populates.linkable_iff fits.ids fits.kinds).2 fits
  refine ⟨populates, fun l => ⟨fun inside => ?_, ?_⟩, ?_, margins.leading.trans begins.leading,
    margins.trailing.trans begins.trailing, margins.sourceHash.trans begins.sourceHash,
    margins.strays.trans begins.strays⟩
  · -- Each link that is stored means one between nodes, and this one has been made.
    obtain ⟨j, means⟩ := linkable.means _ (List.mem_map_of_mem inside)
    exact ⟨j, (has j).2 ⟨_, List.mem_map_of_mem inside, means⟩, linkOf_eq_of_means means⟩
  · -- Each link of the model has been made for one that is stored under the same ids.
    rintro ⟨j, joins, told⟩
    obtain ⟨_, mapped, means⟩ := (has j).1 joins
    obtain ⟨l', inside, rfl⟩ := List.mem_map.1 mapped
    obtain rfl : l = l' := toLink_injective (told.symm.trans (linkOf_eq_of_means means))
    exact inside
  · -- Ids are texts, and so they are told by their names.
    rw [Model.topNames, ← List.forall₂_eq_eq_eq, List.forall₂_map_left_iff,
      List.forall₂_map_right_iff] at roots
    rw [← List.forall₂_eq_eq_eq, List.forall₂_map_left_iff, List.forall₂_map_right_iff]
    exact roots.imp fun _ _ => NodeId.name_eq_text_iff.1

end All

/-- All nodes and all links of records are made if the records fit together, and else they are refused. -/
theorem Begins.restoreAll_cases {w : Workspace} {records : List Json} (begins : s.Begins w.model)
    (all : List.Forall₂ StoredNode.StoredAs s.nodes records) (filled : ∀ n ∈ s.nodes, n.id ≠ "") :
    (s.Fits ∧ ∃ m', Payload.restoreAll records w = .ok () (Payload.put w m') ∧ m'.Sound ∧
      m'.topNames = (s.ids.filter (· ∉ s.links.map StoredLink.child)).map .text ∧
      (m'.topNames = s.roots.map .text → s.Describes m')) ∨
      ¬ s.Fits ∧ ∃ e w', Payload.restoreAll records w = .error e w' ∧ e.IsRefusal := by
  by_cases kinds : ∀ n ∈ s.nodes, ∃ kind, Kind.ofName? n.kind = some kind
  · obtain ⟨come, made⟩ := exists_specimens kinds
    have performs :=
      Payload.restoreAll_performs (.of_blank begins.blank) all filled made
    have possible := exists_doesAll_iff begins made filled kinds
    by_cases fits : s.Fits
    · obtain ⟨m', does⟩ := possible.2 fits
      obtain ⟨_, ran, sound⟩ := performs.done does
      exact .inl ⟨fits, m', ran, sound, topNames_of_doesAll begins made does,
        describes_of_doesAll begins made fits does⟩
    · exact .inr ⟨fits, performs.refused (mt possible.1 fits)⟩
  · -- A node of an unknown kind is refused before any link is looked at.
    have unknown : ∃ n ∈ s.nodes, Kind.ofName? n.kind = none := by
      simpa [Option.eq_none_iff_forall_ne_some] using kinds
    have failed : ∃ e w', Payload.restoreNodes [] records w = .error e w' ∧ e.IsRefusal :=
      Payload.restoreNodes_refused all filled unknown
    obtain ⟨e, w', ran, refusal⟩ := failed
    exact .inr ⟨fun fits => kinds fits.kinds, e, w', EStateM.bind_of_error ran _, refusal⟩

end StoredModel

/-! ### From JSON -/

namespace Restored

variable {value : Json}

/-- What a stored model says beside its records and its top level is what restoring begins with. -/
theorem begins_of_stored (stored : s.StoredAs value) : s.Begins
    { leading := Payload.textOf "leading" value
      trailing := Payload.textOf "trailing" value
      sourceHash := (value.member? "source_hash").bind Json.text?
      strays := .of isModelPart value.members } where
  blank := ⟨rfl, rfl⟩
  leading := by
    change Payload.textOf "leading" value = _
    rw [Payload.textOf, stored.leading]
    rfl
  trailing := by
    change Payload.textOf "trailing" value = _
    rw [Payload.textOf, stored.trailing]
    rfl
  sourceHash := by
    change (value.member? "source_hash").bind Json.text? = _
    rw [stored.sourceHash]
    cases s.sourceHash <;> rfl
  strays := by
    obtain ⟨members, rfl, nodup⟩ := stored.object
    refine List.filter_eq_nil_iff.2 ?_
    rintro ⟨name, part⟩ inside
    -- A member is what is found under its name.
    have found : (Json.obj members).member? name = some part :=
      (Assoc.lookup_eq_some_iff nodup).2 inside
    simp only [Bool.not_eq_true', Bool.not_eq_false]
    unfold isModelPart
    split
    · cases found.symm.trans stored.leading
      rfl
    · cases found.symm.trans stored.trailing
      rfl
    · cases found.symm.trans stored.sourceHash
      cases s.sourceHash <;> rfl
    · rfl

/-- The top level of a restored model is the one given just when their names are the same. -/
theorem rootNames_eq_iff {r : Restored} {roots : List String} :
    r.rootNames = (roots.map .str).map Name.of? ↔ r.model.topNames = roots.map .text := by
  have given : (roots.map .str).map Name.of? = (roots.map Name.text).map some := by
    rw [List.map_map, List.map_map]
    rfl
  have own : r.rootNames = r.model.topNames.map some := by
    rw [Model.topNames, List.map_map]
    rfl
  rw [given, own, (List.map_injective_iff.2 fun _ _ => Option.some.inj).eq_iff]

/-- A stored model is restored if it is consistent, and else it is refused. -/
theorem ofJson_cases (stored : s.StoredAs value) (filled : ∀ n ∈ s.nodes, n.id ≠ "") (supply : Nat) :
    (s.Consistent ∧ ∃ m, ofJson value supply = .ok ⟨m, supply⟩ ∧ s.Describes m ∧ m.Sound) ∨
      ¬ s.Consistent ∧ ∃ e, ofJson value supply = .error e ∧ e.IsRefusal := by
  have beginning := begins_of_stored stored
  obtain ⟨members, rfl, -⟩ := stored.object
  obtain ⟨records, listed, all⟩ := stored.nodes
  -- The model that restoring begins with is told by what is stored of it, and no longer by how it is read.
  obtain ⟨begin, equal, begins⟩ := exists_eq_left.2 beginning
  have texts : records.all Payload.hasTextFields = true := by
    rw [List.all_eq_true]
    intro record inside
    obtain ⟨n, _, isRecord⟩ := all.flip.exists_of_mem inside
    exact Payload.hasTextFields_stored isRecord
  have whole : ofJson (.obj members) supply = _ := ofJson_eq begin supply listed stored.roots equal texts
  rw [whole]
  rcases begins.restoreAll_cases (w := ⟨begin, supply, []⟩) all filled with
    ⟨fits, m, ran, sound, tops, describes⟩ | ⟨misfits, e, w', ran, refusal⟩
  · -- It remains to look at the top level.
    rw [ran]
    by_cases roots : m.topNames = s.roots.map .text
    · refine .inl ⟨⟨fits, ?_⟩, m, if_neg (not_not.2 (rootNames_eq_iff.2 roots)), describes roots, sound⟩
      exact List.map_injective_iff.2 (fun a b => Name.text.inj) (roots.symm.trans tops)
    · refine .inr ⟨fun consistent => roots ?_, .rootsDiffer, if_pos (mt rootNames_eq_iff.1 roots), trivial⟩
      rw [tops, consistent.roots]
  · -- Records that do not fit together are refused whatever the top level is said to be.
    rw [ran]
    exact .inr ⟨fun consistent => misfits consistent.toFits, e, rfl, refusal⟩

/-- A stored model, whose parts are of the types they should be and whose ids are filled, is restored just when
its records fit together and its top level is theirs. All else is refused, for what the records say of one
another. What is restored is a model whose parts agree with one another, with the nodes, the links, the top level
and the texts that were stored and no others. -/
theorem exists_ofJson_iff_consistent (stored : s.StoredAs value) (filled : ∀ n ∈ s.nodes, n.id ≠ "")
    (supply : Nat) :
    ((∃ r, ofJson value supply = .ok r) ↔ s.Consistent) ∧
      (∀ e, ofJson value supply = .error e → e.IsRefusal) ∧
      ∀ r, ofJson value supply = .ok r →
        s.Describes r.model ∧ r.model.Coherent ∧ r.supply = supply := by
  rcases ofJson_cases stored filled supply with ⟨consistent, m, ran, describes, sound⟩ |
    ⟨inconsistent, e, ran, refusal⟩
  · refine ⟨iff_of_true ⟨_, ran⟩ consistent, fun e failed => ?_, fun r restored => ?_⟩
    · cases ran.symm.trans failed
    · cases ran.symm.trans restored
      exact ⟨describes, sound.coherent, rfl⟩
  · refine ⟨iff_of_false (fun ⟨r, restored⟩ => ?_) inconsistent, fun e failed => ?_, fun r restored => ?_⟩
    · cases ran.symm.trans restored
    · cases ran.symm.trans failed
      exact refusal
    · cases ran.symm.trans restored

/-- An array of two scalars, stored from the inside to the outside. The second of the scalars is linked under the
name of a slot, and the array has a null under a name that is no slot. -/
def scrambled : StoredModel where
  nodes := [
    ⟨"two", "scalar", { fields := .ofList [("VALUE", "2")] }, .empty, none⟩,
    ⟨"one", "scalar", { fields := .ofList [("VALUE", "1")] }, .ofList [("next", some "two")], none⟩,
    ⟨"all", "array", {}, .ofList [("ITEMS", some "one"), ("LAST", none)], none⟩]
  roots := ["all"]
  leading := ""
  trailing := "\n"
  sourceHash := none

/-- The same as JSON, with the members of its objects in some order. -/
def scrambledJson : Json :=
  .obj [("trailing", .str "\n"), ("leading", .str ""), ("roots", .arr [.str "all"]), ("nodes", .arr [
      .obj [("id", .str "two"), ("type", .str "scalar"), ("fields", .obj [("VALUE", .str "2")]),
        ("slots", .obj []), ("next", .null)],
      .obj [("id", .str "one"), ("type", .str "scalar"), ("fields", .obj [("VALUE", .str "1")]),
        ("slots", .obj [("next", .str "two")]), ("next", .null)],
      .obj [("type", .str "array"), ("slots", .obj [("LAST", .null), ("ITEMS", .str "one")]),
        ("next", .null), ("fields", .obj []), ("id", .str "all")]]), ("source_hash", .null)]

theorem stored_scrambled : scrambled.StoredAs scrambledJson where
  object := ⟨_, rfl, by decide⟩
  nodes := by
    refine ⟨_, rfl, .cons ⟨rfl, rfl, ?_, .inl ⟨rfl, rfl⟩, .inl ⟨rfl, rfl⟩, ?_, rfl⟩
      (.cons ⟨rfl, rfl, ?_, .inl ⟨rfl, rfl⟩, .inl ⟨rfl, rfl⟩, ?_, rfl⟩
        (.cons ⟨rfl, rfl, ?_, .inl ⟨rfl, rfl⟩, .inl ⟨rfl, rfl⟩, ?_, rfl⟩ .nil))⟩
    · exact ⟨_, rfl, _, _, rfl, .refl _, .cons ⟨rfl, rfl⟩ .nil⟩
    · exact ⟨_, rfl, _, _, rfl, .refl _, .nil⟩
    · exact ⟨_, rfl, _, _, rfl, .refl _, .cons ⟨rfl, rfl⟩ .nil⟩
    · exact ⟨_, rfl, _, _, rfl, .refl _, .cons ⟨rfl, rfl⟩ .nil⟩
    · exact ⟨_, rfl, _, _, rfl, .refl _, .nil⟩
    · exact ⟨_, rfl, _, _, rfl, .swap ("ITEMS", some "one") ("LAST", none) [],
        .cons ⟨rfl, rfl⟩ (.cons ⟨rfl, rfl⟩ .nil)⟩
  roots := rfl
  leading := rfl
  trailing := rfl
  sourceHash := rfl

theorem exists_ofJson_iff_consistent_scrambled : scrambled.StoredAs scrambledJson ∧
    (∀ n ∈ scrambled.nodes, n.id ≠ "") ∧ scrambled.Consistent ∧
    ∃ r, ofJson scrambledJson 0 = .ok r ∧ scrambled.Describes r.model := by
  have filled : ∀ n ∈ scrambled.nodes, n.id ≠ "" := by decide
  obtain ⟨accepted, -, described⟩ := exists_ofJson_iff_consistent stored_scrambled filled 0
  obtain ⟨r, ran⟩ : ∃ r, ofJson scrambledJson 0 = .ok r := Except.exists_ok (by decide +kernel)
  exact ⟨stored_scrambled, filled, accepted.1 ⟨r, ran⟩, r, ran, (described r ran).1⟩

end Restored

end DocSync
