import DocSync.Proofs.Change.SameText

/-!
The snapshot as a canonical form. Two models have one snapshot text just if they are isomorphic: if their
nodes correspond to one another with the same kinds, fields and links, and the top level stands in the same
order once the smaller trees come first. Ids, spans and frames play no part in that.
-/

namespace DocSync

variable {m m' : Model} {image : Key → Key} {indent : Option Json.Indent} {k : Key}

namespace Model

/-- The top-level nodes as a snapshot takes them: those with fewer descendants come first, and those with
equally many keep the order of the document. -/
def sortedRoots (m : Model) : List Key :=
  stableSort (fun a b => m.descendantCount a ≤ m.descendantCount b) m.roots

theorem canonicalOrder_eq (m : Model) : m.canonicalOrder = m.sortedRoots.flatMap m.subtreeAndNext := rfl

theorem mem_sortedRoots : k ∈ m.sortedRoots ↔ k ∈ m.roots := (stableSort_perm _ _).mem_iff

/-- A snapshot lists the nodes without parent in the order of the sorted top level. -/
theorem Sound.filter_canonicalOrder (sound : m.Sound) :
    (m.canonicalOrder.filter fun k => (m.node k).parent.isNone) = m.sortedRoots :=
  sound.filter_flatMap_subtreeAndNext fun _ member => mem_sortedRoots.1 member

/-- The nodes of one model correspond to those of another one by one: with the same kind, the same value for
each field, and links that lead from image to image. The top level stands in the same order when it is
sorted by the number of descendants. -/
structure Isomorphism (m m' : Model) (image : Key → Key) : Prop where
  holds : ∀ {k}, m.Holds k → m'.Holds (image k)
  onto : ∀ {k'}, m'.Holds k' → ∃ k, m.Holds k ∧ image k = k'
  injective : ∀ {a b}, m.Holds a → m.Holds b → image a = image b → a = b
  kind : ∀ {k}, m.Holds k → (m'.node (image k)).kind = (m.node k).kind
  field : ∀ {k}, m.Holds k → ∀ name,
    (m'.node (image k)).fields.get? name = (m.node k).fields.get? name
  head : ∀ {k}, m.Holds k → (m'.node (image k)).head = (m.node k).head.map image
  next : ∀ {k}, m.Holds k → (m'.node (image k)).next = (m.node k).next.map image
  sortedRoots : m'.sortedRoots = m.sortedRoots.map image

end Model

open Model (Isomorphism)

/-! ### Isomorphic models have one text -/

/-- Whatever the ids of two models are, those of the one tell those of the other. -/
theorem Model.Sound.exists_carry (sound : m.Sound) (m' : Model) (image : Key → Key) :
    ∃ carry : NodeId → NodeId, ∀ k, m.Holds k → (m'.node (image k)).id = carry (m.node k).id := by
  refine ⟨fun id => ((m.find? id).map fun k => (m'.node (image k)).id).getD id, fun k held => ?_⟩
  simp only [sound.find?_id held, Option.map_some, Option.getD_some]

namespace Model.Isomorphism

variable (iso : Isomorphism m m' image) (sound : m.Sound)
include iso sound

/-- Of two isomorphic models each is the other one carried over. -/
theorem exists_carriedOver : ∃ carry, CarriedOver m' m carry image := by
  obtain ⟨carry, ids⟩ := sound.exists_carry m' image
  refine ⟨carry, iso.holds, iso.onto, iso.injective, fun held => ids _ held, iso.kind,
    fun held => Dict.ext_get? (iso.field held), fun held e => ?_⟩
  cases e with
  | child => exact iso.head held
  | next => exact iso.next held

/-- Isomorphic models have the same snapshot but for the ids behind the labels. -/
theorem records_snapshot (sound' : m'.Sound) : m'.snapshot.records = m.snapshot.records := by
  obtain ⟨carry, carried⟩ := iso.exists_carriedOver sound
  refine carried.records_snapshot sound' sound ?_
  -- Tree by tree the walk through the one model is the image of the walk through the other.
  rw [canonicalOrder_eq, canonicalOrder_eq, iso.sortedRoots, List.flatMap_map, List.map_flatMap]
  refine List.flatMap_congr fun r member => ?_
  exact carried.subtreeAndNext sound' sound (sound.holds_root (mem_sortedRoots.1 member))

end Model.Isomorphism

/-! ### One text tells isomorphic models -/

/-- What is carried over in the order of the snapshot is isomorphic. -/
theorem CarriedOver.isomorphism {carry : NodeId → NodeId} (carried : CarriedOver m' m carry image)
    (sound : m.Sound) (sound' : m'.Sound) (order : m'.canonicalOrder = m.canonicalOrder.map image) :
    Isomorphism m m' image where
  holds := carried.holds
  onto := carried.onto
  injective := carried.injective
  kind := carried.kind
  field held name := by rw [carried.fields held]
  head held := carried.target held .child
  next held := carried.target held .next
  sortedRoots := by
    -- The top level is what the order lists of nodes without parent, and these have such images.
    rw [← sound'.filter_canonicalOrder, ← sound.filter_canonicalOrder, order, List.filter_map]
    refine congrArg _ (List.filter_congr fun k member => ?_)
    have held := sound.mem_canonicalOrder.1 member
    rw [Function.comp_apply, carried.parent sound' sound held, Option.isNone_map]

/-- Models with the same records are isomorphic. -/
theorem exists_isomorphism_of_records (sound : m.Sound) (sound' : m'.Sound)
    (same : m.snapshot.records = m'.snapshot.records) : ∃ image, Isomorphism m m' image := by
  -- Between the same records there is nothing to change, so that all nodes are carried over.
  have given : Config.givenSnapshotIndent {} = .ok (some (.blanks 2)) := rfl
  obtain ⟨c, made, empty⟩ : ∃ c, reconcile {} m' m true = .ok c ∧ c.isEmpty = true :=
    exists_reconcile_of_records given same.symm
  obtain ⟨image, carried, order⟩ :=
    (tells_of_reconcile sound' sound made).carriedOver_of_isEmpty empty sound' sound
  exact ⟨image, carried.isomorphism sound sound' order⟩

/-! ### What plays no part -/

/-- Models with the same nodes in the same places are isomorphic, whatever their nodes are called and
wherever they were read. -/
theorem isomorphism_of_sameLinks (sound : m.Sound) (sound' : m'.Sound) (links : Model.SameLinks m m')
    (roots : m'.roots = m.roots) (kind : ∀ k, m.Holds k → (m'.node k).kind = (m.node k).kind)
    (field : ∀ k, m.Holds k → ∀ name, (m'.node k).fields.get? name = (m.node k).fields.get? name) :
    Isomorphism m m' id := by
  have target : ∀ {k}, m.Holds k → ∀ e, (m'.node k).target? e = ((m.node k).target? e).map id :=
    fun _ e => by rw [links.target, Option.map_id]; rfl
  obtain ⟨carry, ids⟩ := sound.exists_carry m' id
  have carried : CarriedOver m' m carry id := ⟨links.holds_iff.2, fun held => ⟨_, links.holds_iff.1 held, rfl⟩,
    fun _ _ same => same, fun held => ids _ held, fun held => kind _ held,
    fun held => Dict.ext_get? (field _ held), target⟩
  refine ⟨carried.holds, carried.onto, carried.injective, carried.kind, fun held => field _ held,
    fun held => target held .child, fun held => target held .next, ?_⟩
  -- Top-level nodes have as many descendants in the one model as in the other.
  rw [Model.sortedRoots, roots, ← List.map_id m.roots]
  refine stableSort_map fun a first b second => ?_
  rw [carried.descendantCount sound' sound (sound.holds_root first),
    carried.descendantCount sound' sound (sound.holds_root second)]

end DocSync
