import DocSync.Proofs.Payload.Restoring

/-!
A model restored from what was stored of it. First each node comes without its links, in document order, and
then the links come in the same order. In between, all links that stand are links of the stored model, so
none of them is refused; and what is linked nowhere in the end is the stored top level, in its order.
-/

namespace DocSync

variable {m : Model} {withOrigins : Bool} {k : Key} {w : Workspace}

/-! ### What is stored of a model -/

/-- All that a model holds is of the types it should be. -/
structure Model.Proper (m : Model) : Prop where
  id : ∀ {k}, m.Holds k → ∃ text, (m.node k).id = .text text
  content : ∀ {k}, m.Holds k → (m.node k).toContent.Proper
  strays : m.strays = []

/-- A node of a model, to be made without its links. -/
def Model.bare (m : Model) (withOrigins : Bool) (k : Key) : Specimen :=
  ⟨(m.node k).id, (m.node k).kind, (m.node k).toContent.kept withOrigins⟩

namespace Model

/-- The id of a node as a text. -/
def idText (m : Model) (k : Key) : String := (m.nameOf k).asText

/-- What the record of a node tells. -/
def storedNode (m : Model) (withOrigins : Bool) (k : Key) : StoredNode where
  id := m.idText k
  kind := (m.node k).kind.name
  content := (m.node k).toContent.kept withOrigins
  slots := .ofList ((m.node k).kind.slot?.toList.map fun slot => (slot, (m.node k).head.map m.idText))
  next := (m.node k).next.map m.idText

theorem Proper.id_eq (proper : m.Proper) (held : m.Holds k) : (m.node k).id = .text (m.idText k) := by
  obtain ⟨text, isText⟩ := proper.id held
  rw [idText, nameOf, isText]
  rfl

section Stored

variable (sound : m.Sound) (proper : m.Proper)
include sound proper

/-- What a link leads to is stored by its id. -/
theorem target_toJson (held : m.Holds k) (e : Edge) :
    (((m.node k).target? e).map fun c => (m.node c).id.toJson).getD .null =
      .ofText? (((m.node k).target? e).map m.idText) := by
  cases leads : (m.node k).target? e with
  | none => rfl
  | some c =>
    rw [Option.map_some, proper.id_eq (sound.back held leads).1]
    rfl

/-- The record of a node tells what it should. -/
theorem storedAs_nodeToJson (held : m.Holds k) :
    (m.storedNode withOrigins k).StoredAs (m.nodeToJson withOrigins k) := by
  have content := proper.content held
  have id : (m.nodeToJson withOrigins k).member? "id" = some (m.node k).id.toJson := by
    cases withOrigins <;> rfl
  have slots : (m.nodeToJson withOrigins k).member? "slots" = some (.obj ((m.node k).kind.slot?.toList.map
      fun slot => (slot, ((m.node k).head.map fun c => (m.node c).id.toJson).getD .null))) := by
    cases withOrigins <;> rfl
  have next : (m.nodeToJson withOrigins k).member? "next" =
      some (((m.node k).next.map fun c => (m.node c).id.toJson).getD .null) := by
    cases withOrigins <;> rfl
  -- Frames and origin stand in the record if they are asked for, and are left out of it else.
  refine ⟨?_, ?_, ?_, ?_, ?_, ⟨_, slots, ?_⟩, next.trans (congrArg some ?_)⟩
  · rw [id, proper.id_eq held]
    rfl
  · cases withOrigins <;> rfl
  · refine ⟨.ofDict .str (m.node k).fields, by cases withOrigins <;> rfl, ?_⟩
    rw [show (m.storedNode withOrigins k).content.fields = (m.node k).fields by
      cases withOrigins <;> rfl]
    exact Dict.storedAs_ofDict fun _ _ => rfl
  · cases withOrigins with
    | false => exact .inl ⟨rfl, rfl⟩
    | true =>
      exact .inr ⟨_, rfl, Dict.storedAs_ofDict fun entry inside => Frame.storedAs (content.frames entry inside)⟩
  · cases withOrigins with
    | false => exact .inl ⟨rfl, rfl⟩
    | true =>
      have member : (m.nodeToJson true k).member? "meta" =
          some (((m.node k).origin.map Origin.toJson).getD .null) := rfl
      have own : (m.storedNode true k).content.origin = (m.node k).origin := rfl
      -- A node without an origin has a null in its place, which counts as none.
      rw [Payload.optional, member, own]
      cases found : (m.node k).origin with
      | none => exact .inl ⟨rfl, rfl⟩
      | some o => exact .inr ⟨_, o, rfl, rfl, (content.origin o found).storedAs⟩
  · have head := target_toJson sound proper held .child
    simp only [Node.target?] at head
    rw [head]
    refine ⟨(m.node k).kind.slot?.toList.map fun slot => (slot, (m.node k).head.map m.idText), _, rfl, ?_, ?_⟩
    · -- A kind has one slot at the most.
      rw [storedNode]
      cases (m.node k).kind.slot? <;> exact .refl _
    · rw [List.forall₂_map_left_iff, List.forall₂_map_right_iff]
      exact List.forall₂_same.2 fun _ _ => ⟨rfl, rfl⟩
  · exact target_toJson sound proper held .next

/-- The links that a record tells are those of its node. -/
theorem links_storedNode (held : m.Holds k) :
    (m.storedNode withOrigins k).links.map StoredLink.toLink = (m.jointsAt k).map m.linkOf := by
  have target : ∀ {e c}, (m.node k).target? e = some c → (m.node c).id = .text (m.idText c) := fun leads =>
    proper.id_eq (sound.back held leads).1
  have own := proper.id_eq held
  -- A node has two edges at the most, that of its slot and that to its sibling.
  have child : ((m.storedNode withOrigins k).slots.entries.filterMap fun entry =>
      entry.2.map (StoredLink.mk (m.idText k) entry.1 ·)).map StoredLink.toLink =
        (((m.node k).head.map (Joint.mk k .child)).toList).map m.linkOf := by
    rw [storedNode]
    cases slot : (m.node k).kind.slot? with
    | none =>
      -- Without a slot there is nothing to follow.
      have head : (m.node k).head = none := by simpa [slot] using sound.slotted held
      rw [head]
      rfl
    | some slot' =>
      cases leads : (m.node k).head with
      | none => rfl
      | some c =>
        have below : (m.node c).id = .text (m.idText c) := target (e := .child) leads
        have one : (Dict.ofList [(slot', some (m.idText c))]).entries = [(slot', some (m.idText c))] := rfl
        simp [linkOf, own, below, Node.edgeName, slot, one, StoredLink.toLink]
  have next : ((m.node k).next.map m.idText).toList.map (fun c => StoredLink.toLink ⟨m.idText k, nextName, c⟩) =
      (((m.node k).next.map (Joint.mk k .next)).toList).map m.linkOf := by
    cases follows : (m.node k).next with
    | none => rfl
    | some c =>
      have after : (m.node c).id = .text (m.idText c) := target (e := .next) follows
      simp [linkOf, own, after, Node.edgeName, StoredLink.toLink]
  have edges : m.jointsAt k = ((m.node k).head.map (Joint.mk k .child)).toList ++
      ((m.node k).next.map (Joint.mk k .next)).toList := by
    cases below : (m.node k).head <;> cases after : (m.node k).next <;>
      simp [jointsAt, Node.target?, below, after]
  rw [StoredNode.links, List.map_append, edges, List.map_append, List.map_map]
  exact congr (congrArg _ child) next

/-- The links that the records of a model tell are those of its nodes. -/
theorem links_stored : ((m.order.map (m.storedNode withOrigins)).flatMap StoredNode.links).map
    StoredLink.toLink = (m.order.flatMap m.jointsAt).map m.linkOf := by
  rw [List.flatMap_map, List.map_flatMap, List.map_flatMap]
  exact List.flatMap_congr fun k listed => links_storedNode sound proper (sound.mem_order.1 listed)

end Stored

end Model

/-! ### The whole model -/

/-- A model is another one restored: it has an image of each node and no node besides, and an image is its
node but that links lead from image to image. What is not stored of the frames and the origins is lost. The
document stands in the same order, between the same texts. -/
structure Restores (withOrigins : Bool) (m r : Model) (image : Key → Key) : Prop where
  order : r.order = m.order.map image
  roots : r.roots = m.roots.map image
  injective : ∀ {a b}, m.Holds a → m.Holds b → image a = image b → a = b
  node : ∀ {k}, m.Holds k → r.node (image k) =
    { (m.node k).toContent.kept withOrigins with
      id := (m.node k).id
      kind := (m.node k).kind
      head := (m.node k).head.map image
      next := (m.node k).next.map image
      parent := (m.node k).parent.map fun above => (image above.1, above.2)
      owner := (m.node k).owner.map image }
  margins : SameMargins m r

/-- The links of a model are those of the nodes in the document. -/
theorem Model.Sound.mem_flatMap_jointsAt (sound : m.Sound) {j : Joint} :
    j ∈ m.order.flatMap m.jointsAt ↔ m.Joins j := by
  simp only [List.mem_flatMap, sound.mem_order, mem_jointsAt, Joins]
  constructor
  · rintro ⟨k, held, rfl, leads⟩
    exact ⟨held, leads⟩
  · rintro ⟨held, leads⟩
    exact ⟨j.parent, held, rfl, leads⟩

/-- The nodes of a model can all be made where there are none, without links. Each comes to stand at its place
in the order of the document. -/
theorem exists_made (sound : m.Sound) (withOrigins : Bool) {blank : Model} (empty : blank.Blank) :
    ∃ m₁, DoesAll blank ((m.order.map (m.bare withOrigins)).map .create) m₁ ∧ m₁.Sound ∧
      (∀ j, ¬ m₁.Joins j) ∧ (∀ {k'}, m₁.Holds k' → ∃ k, m.Holds k ∧ m.order.idxOf k = k') ∧
      Images m₁ m (m.order.idxOf ·) (fun k => (m.node k).id) ∧
      ∀ {k}, m.Holds k →
        (m₁.node (m.order.idxOf k)).toContent = (m.node k).toContent.kept withOrigins := by
  have held : ∀ {k}, k ∈ m.order → m.Holds k := sound.mem_order.1
  have nothing : ∀ k, ¬ blank.Holds k := fun k holds => by simpa [empty.1] using holds.1
  have size : blank.nodes.size = 0 := by simp [empty.1]
  have place : ∀ {k}, m.Holds k → m.order[m.order.idxOf k]? = some k := fun holds =>
    List.getElem?_idxOf (sound.mem_order.2 holds)
  -- No two nodes of a sound model have one name, so none of them is refused.
  have names : ((m.order.map (m.bare withOrigins)).map fun node => node.id.name).Nodup := by
    rw [List.map_map]
    exact sound.nodup_order.map_on fun a first b second same => sound.named (held first) (held second) same
  obtain ⟨m₁, does₁, sound₁, holds₁, -, news₁, joins₁⟩ := exists_grown
    empty.sound (m.order.map (m.bare withOrigins))
    (fun node member => by
      obtain ⟨k, listed, rfl⟩ := List.mem_map.1 member
      exact sound.solid (held listed))
    names fun _ _ k holds => absurd holds (nothing k)
  simp only [size, Nat.zero_add, List.length_map, List.getElem?_map] at holds₁ news₁
  have made : ∀ {k}, m.Holds k → m₁.node (m.order.idxOf k) =
      { (m.node k).toContent.kept withOrigins with id := (m.node k).id, kind := (m.node k).kind } :=
    fun {k} holds => news₁ _ (m.bare withOrigins k) (by rw [place holds]; rfl)
  refine ⟨m₁, does₁, sound₁, fun j joins => nothing _ ((joins₁ j).1 joins).1, fun {k'} holds => ?_,
    ⟨fun {k} holds => (holds₁ _).2 (.inr ⟨_, ?_, rfl⟩), fun {a b} first second same => ?_,
      fun holds => by rw [made holds], fun holds => by rw [made holds]⟩, fun holds => by rw [made holds]⟩
  · rcases (holds₁ k').1 holds with before | ⟨i, inside, rfl⟩
    · exact absurd before (nothing k')
    · exact ⟨_, held (List.getElem_mem inside), sound.nodup_order.idxOf_getElem _ _⟩
  · exact List.idxOf_lt_length_iff.2 (sound.mem_order.2 holds)
  · have both := place first
    rw [same, place second] at both
    exact (Option.some.inj both).symm

/-- The nodes of a model can all be made where there are none, and then all of its links. Each node comes to
stand at its place in the order of the document. -/
theorem exists_rebuilt (sound : m.Sound) (withOrigins : Bool) {blank : Model} (empty : blank.Blank) :
    ∃ m₁ m₂, DoesAll blank ((m.order.map (m.bare withOrigins)).map .create) m₁ ∧
      DoesAll m₁ (((m.order.flatMap m.jointsAt).map m.linkOf).map .addLink) m₂ ∧
      m₁.Sound ∧ m₂.Sound ∧ CarriedOver m₂ m id (m.order.idxOf ·) ∧
      ∀ {k}, m.Holds k →
        (m₂.node (m.order.idxOf k)).toContent = (m.node k).toContent.kept withOrigins := by
  obtain ⟨m₁, does₁, sound₁, noJoins, onto, images, made⟩ := exists_made sound withOrigins empty
  -- All links that stand in between are links of the model, so none is in the way of another.
  obtain ⟨m₂, does₂, sound₂, same, joins₂⟩ := exists_linked sound₁ sound images
    (fun j joins => absurd joins (noJoins j)) (m.nodup_flatMap_jointsAt sound.nodup_order)
    fun j inside => ⟨sound.mem_flatMap_jointsAt.1 inside, noJoins _⟩
  have images₂ := images.sameNodes same
  have content : ∀ {k}, m.Holds k →
      (m₂.node (m.order.idxOf k)).toContent = (m.node k).toContent.kept withOrigins := fun {k} holds => by
    rw [same.content, made holds]
  refine ⟨m₁, m₂, does₁, by rw [List.map_map]; exact does₂, sound₁, sound₂, ⟨images₂.holds,
    fun {k} holds => onto ((same.holds k).1 holds), images₂.injective, images₂.id, images₂.kind,
    fun {k} holds => ?_, fun {k} holds e => ?_⟩, content⟩
  · rw [congrArg Content.fields (content holds)]
    cases withOrigins <;> rfl
  · exact images₂.target holds fun c => by
      simp only [joins₂, noJoins, false_or, sound.mem_flatMap_jointsAt]

/-- With all nodes made in document order, and then hung where they belong, the same nodes are at top level
as before, in the same order. -/
theorem topNames_of_rebuilt (sound : m.Sound) {blank m₁ m₂ : Model} (empty : blank.Blank)
    (does₁ : DoesAll blank ((m.order.map (m.bare withOrigins)).map .create) m₁) (sound₁ : m₁.Sound)
    (does₂ : DoesAll m₁ (((m.order.flatMap m.jointsAt).map m.linkOf).map .addLink) m₂) :
    m₂.topNames = m.topNames := by
  have tops : blank.topNames = [] := by rw [Model.topNames, empty.2, List.map_nil]
  have names : (m.order.map (m.bare withOrigins)).map (fun node => node.id.name) = m.order.map m.nameOf := by
    rw [List.map_map]
    rfl
  rw [does₂.topNames sound₁, does₁.topNames empty.sound, tops,
    foldl_reorder_create, foldl_reorder_addLink, List.nil_append, names, List.filter_map, Model.topNames,
    ← sound.filter_order]
  -- Linked is just what is not at top level.
  refine congrArg _ (List.filter_congr fun k listed => ?_)
  have held := sound.mem_order.1 listed
  rw [Function.comp_apply, Bool.eq_iff_iff, decide_eq_true_eq, Option.isNone_iff_eq_none, List.map_map,
    List.mem_map]
  constructor
  · intro apart
    cases above : (m.node k).parent with
    | none => rfl
    | some link =>
      obtain ⟨p, e⟩ := link
      exact absurd ⟨⟨p, e, k⟩, sound.mem_flatMap_jointsAt.2 (sound.forth held above), rfl⟩ apart
  · rintro root ⟨j, inside, same⟩
    have joins := sound.mem_flatMap_jointsAt.1 inside
    obtain ⟨heldC, above⟩ := sound.back joins.1 joins.2
    obtain rfl := sound.named heldC held same
    rw [root] at above
    cases above

/-- What has been rebuilt is the model restored. -/
theorem restores_of_rebuilt {image : Key → Key} (sound : m.Sound) {r : Model} (sound' : r.Sound)
    (carried : CarriedOver r m id image)
    (content : ∀ {k}, m.Holds k → (r.node (image k)).toContent = (m.node k).toContent.kept withOrigins)
    (tops : r.topNames = m.topNames) (margins : SameMargins m r) : Restores withOrigins m r image := by
  -- A list of nodes is told by their names.
  have back : ∀ ks : List Key, (∀ k ∈ ks, r.Holds k) →
      (ks.map r.nameOf).map (fun name => (r.named? name).getD 0) = ks := by
    intro ks held
    rw [List.map_map]
    refine (List.map_congr_left fun k member => ?_).trans (List.map_id ks)
    have found : r.named? (r.nameOf k) = some k := sound'.named?_eq_some_iff.2 ⟨held k member, rfl⟩
    rw [Function.comp_apply, found]
    rfl
  have names : (m.roots.map image).map r.nameOf = m.topNames := by
    rw [List.map_map]
    exact List.map_congr_left fun k root => congrArg NodeId.name (carried.id (sound.holds_root root))
  have roots : r.roots = m.roots.map image := by
    have images : ∀ k ∈ m.roots.map image, r.Holds k := List.forall_mem_map.2 fun k root =>
      carried.holds (sound.holds_root root)
    rw [← back r.roots fun k root => sound'.holds_root root, ← back _ images, names]
    exact congrArg _ tops
  refine ⟨?_, roots, carried.injective, fun {k} held => ?_, margins⟩
  · rw [Model.order, roots, List.flatMap_map, Model.order, List.map_flatMap]
    exact List.flatMap_congr fun k root => carried.subtreeAndNext sound' sound (sound.holds_root root)
  · have head := carried.target held .child
    have next := carried.target held .next
    simp only [Node.target?] at head next
    have whole : r.node (image k) =
        { (r.node (image k)).toContent with
          id := (r.node (image k)).id, kind := (r.node (image k)).kind, head := (r.node (image k)).head,
          next := (r.node (image k)).next, parent := (r.node (image k)).parent,
          owner := (r.node (image k)).owner, live := (r.node (image k)).live } := rfl
    rw [whole, content held, carried.id held, carried.kind held, head, next, carried.parent sound' sound held,
      carried.owner sound' sound held, (carried.holds held).2]
    rfl

/-! ### From JSON -/

/-- The numbers that a model holds have no more digits than numerals may have. -/
def Model.Short (m : Model) : Prop :=
  ∀ k, m.Holds k → ∀ o ∈ (m.node k).origin, ∀ s ∈ o.spans, s.Short

instance (id : NodeId) : Decidable (∃ text, id = .text text) :=
  match id with
  | .text text => isTrue ⟨text, rfl⟩
  | .null | .bool _ | .int _ | .float _ => isFalse nofun

/-- Whether a model is proper can be seen node by node. -/
instance (m : Model) : Decidable m.Proper :=
  decidable_of_iff ((∀ k ∈ List.range m.nodes.size, m.Holds k →
      (∃ text, (m.node k).id = .text text) ∧ (m.node k).toContent.Proper) ∧ m.strays = [])
    ⟨fun ⟨nodes, strays⟩ => ⟨fun held => (nodes _ (List.mem_range.2 held.1) held).1,
      fun held => (nodes _ (List.mem_range.2 held.1) held).2, strays⟩,
    fun proper => ⟨fun _ _ held => ⟨proper.id held, proper.content held⟩, proper.strays⟩⟩

instance (m : Model) : Decidable m.Short :=
  decidable_of_iff (∀ k ∈ List.range m.nodes.size, m.Holds k →
      ∀ o ∈ (m.node k).origin, ∀ s ∈ o.spans, s.Short)
    ⟨fun short k held => short k (List.mem_range.2 held.1) held, fun short k _ held => short k held⟩

namespace Restored

/-- The model that restoring starts from. -/
def start (m : Model) : Model :=
  { leading := m.leading, trailing := m.trailing, sourceHash := m.sourceHash }

/-- A stored model is restored if its nodes and links can be, and if they leave the top level as it was. -/
theorem ofJson_toJson {supply : Nat} (strays : m.strays = [])
    (ran : Payload.restoreAll (m.order.map (m.nodeToJson withOrigins))
      { model := start m, supply := supply } = .ok () w) (tops : w.model.topNames = m.topNames) :
    ofJson (m.toJson withOrigins) supply = .ok ⟨w.model, w.supply⟩ := by
  -- Nodes and links apart, only the top level and the texts of the fields are looked at.
  have names : (⟨w.model, w.supply⟩ : Restored).rootNames =
      (m.roots.map fun k => (m.node k).id.toJson).map Name.of? := by
    have same := congrArg (List.map some) tops
    rw [Model.topNames, Model.topNames, List.map_map, List.map_map] at same
    rw [rootNames, List.map_map]
    refine same.trans (List.map_congr_left fun k _ => ?_)
    rw [Function.comp_apply, Function.comp_apply, Name.of?_toJson]
    rfl
  have texts : (m.order.map (m.nodeToJson withOrigins)).all Payload.hasTextFields = true := by
    simp only [List.all_map, List.all_eq_true]
    intro k _
    have fields : (m.nodeToJson withOrigins k).member? "fields" =
        some (.ofDict .str (m.node k).fields) := by
      cases withOrigins <;> rfl
    rw [Function.comp_apply, Payload.hasTextFields, fields]
    simp [Json.ofDict, Json.text?]
  rw [Model.toJson, strays, Json.withStrays_nil, ofJson_eq (start m) supply rfl rfl ?_ texts, ran]
  · exact if_neg (not_not.2 names)
  · rw [start]
    cases m.sourceHash <;> rfl

/-- What is stored of a sound model is enough to restore it. -/
theorem exists_ofJson_toJson (sound : m.Sound) (proper : m.Proper) (withOrigins : Bool) (supply : Nat) :
    ∃ r image, ofJson (m.toJson withOrigins) supply = .ok r ∧ r.model.Sound ∧
      CarriedOver r.model m id image ∧ Restores withOrigins m r.model image := by
  -- The steps of restoring are those by which the model is rebuilt from nothing.
  have empty : (start m).Blank := ⟨rfl, rfl⟩
  obtain ⟨m₁, m₂, does₁, does₂, sound₁, sound₂, carried, content⟩ :=
    exists_rebuilt sound withOrigins empty
  have tops := topNames_of_rebuilt sound empty does₁ sound₁ does₂
  have held : ∀ {k}, k ∈ m.order → m.Holds k := sound.mem_order.1
  -- The records tell what they should, and so they make the same nodes and the same links.
  have records : List.Forall₂ StoredNode.StoredAs (m.order.map (m.storedNode withOrigins))
      (m.order.map (m.nodeToJson withOrigins)) := by
    rw [List.forall₂_map_left_iff, List.forall₂_map_right_iff]
    exact List.forall₂_same.2 fun k listed => Model.storedAs_nodeToJson sound proper (held listed)
  have made : Makes (m.order.map (m.storedNode withOrigins)) (m.order.map (m.bare withOrigins)) := by
    unfold Makes
    rw [List.forall₂_map_left_iff, List.forall₂_map_right_iff]
    refine List.forall₂_same.2 fun k listed => ?_
    rw [StoredNode.specimen?, Model.bare, proper.id_eq (held listed)]
    exact congrArg _ (Kind.ofName?_name _)
  have filled : ∀ n ∈ m.order.map (m.storedNode withOrigins), n.id ≠ "" := by
    refine List.forall_mem_map.2 fun k listed empty => ?_
    have solid := sound.solid (held listed)
    rw [proper.id_eq (held listed), show m.idText k = "" from empty] at solid
    cases solid
  rw [← Model.links_stored sound proper] at does₂
  obtain ⟨_, ran, -⟩ := (Payload.restoreAll_performs (w := { model := start m, supply := supply })
    (.of_blank empty) records filled made).done (does₁.append does₂)
  have margins : SameMargins m (start m) := ⟨rfl, rfl, rfl, proper.strays.symm⟩
  exact ⟨⟨m₂, supply⟩, _, ofJson_toJson proper.strays ran tops, sound₂, carried,
    restores_of_rebuilt sound sound₂ carried content tops
      ((margins.trans does₁.margins).trans does₂.margins)⟩

end Restored

/-! ### From a text -/

namespace Model

variable {room : Nat}

/-- The record of a node can be read from a text. -/
theorem readable_nodeToJson (sound : m.Sound) (proper : m.Proper)
    (short : withOrigins = true → m.Short) (held : m.Holds k) :
    Json.Readable (room + 4) (m.nodeToJson withOrigins k) := by
  -- What a link leads to is stored by its id, which is a text.
  have id : ∀ {room k}, m.Holds k → Json.Readable room (m.node k).id.toJson := by
    intro room k held
    obtain ⟨text, isText⟩ := proper.id held
    rw [isText]
    exact .str _ _
  have target : ∀ {room} (e : Edge),
      Json.Readable room ((((m.node k).target? e).map fun c => (m.node c).id.toJson).getD .null) := by
    intro room e
    cases leads : (m.node k).target? e with
    | none => exact .null _
    | some c => exact id (sound.back held leads).1
  have fields : Json.Readable (room + 3) (.ofDict .str (m.node k).fields) :=
    Json.readable_ofDict fun _ _ => .str _ _
  have slots : Json.Readable (room + 3) (.obj ((m.node k).kind.slot?.toList.map
      fun slot => (slot, (((m.node k).target? .child).map fun c => (m.node c).id.toJson).getD .null))) := by
    cases (m.node k).kind.slot? with
    | none => exact .obj (by simp) nofun
    | some slot => exact .obj (by simp) (List.forall_mem_singleton.2 (target .child))
  cases withOrigins with
  | false =>
    refine .obj (by simp) ?_
    simp only [Bool.false_eq_true, if_false, List.append_nil, List.cons_append, List.nil_append,
      List.forall_mem_cons]
    exact ⟨fields, id held, target .next, slots, .str _ _, nofun⟩
  | true =>
    have origin : Json.Readable (room + 3) (((m.node k).origin.map Origin.toJson).getD .null) := by
      cases found : (m.node k).origin with
      | none => exact .null _
      | some o => exact ((proper.content held).origin o found).readable (short rfl k held o found)
    have frames : Json.Readable (room + 3) (.ofDict Frame.toJson (m.node k).frames) :=
      Json.readable_ofDict fun entry member => Frame.readable ((proper.content held).frames entry member)
    refine .obj (by simp) ?_
    simp only [if_true, List.cons_append, List.nil_append, List.forall_mem_cons]
    exact ⟨fields, id held, origin, target .next, slots, frames, .str _ _, nofun⟩

/-- What is stored of a model can be read from a text. -/
theorem readable_toJson (sound : m.Sound) (proper : m.Proper) (short : withOrigins = true → m.Short) :
    Json.Readable (room + 6) (m.toJson withOrigins) := by
  have nodes : Json.Readable (room + 5) (.arr (m.order.map (m.nodeToJson withOrigins))) :=
    .arr (List.forall_mem_map.2 fun k listed =>
      readable_nodeToJson sound proper short (sound.mem_order.1 listed))
  have roots : Json.Readable (room + 5) (.arr (m.roots.map fun k => (m.node k).id.toJson)) := by
    refine .arr (List.forall_mem_map.2 fun k root => ?_)
    obtain ⟨text, isText⟩ := proper.id (sound.holds_root root)
    rw [isText]
    exact .str _ _
  rw [toJson, proper.strays, Json.withStrays_nil]
  refine .obj (by simp) ?_
  simp only [List.forall_mem_cons]
  exact ⟨.str _ _, nodes, roots, Json.readable_ofText? _, .str _ _, .int _ (by decide), nofun⟩

end Model

/-- An array that stands beside a scalar of its own, with frames that no text gave it and a name like none
that a text has. -/
def loneSpace : Workspace :=
  afterCalls (readIn "[1, [2]]" 0)
    [.create (some (.text "lone")) .scalar
      { fields := .ofList [("VALUE", "1"), ("NOTE", "x\ny")]
        frames := .ofList [("SLOT", { opening := "<", trailing := true })] }]

end DocSync
