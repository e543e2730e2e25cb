import DocSync.Proofs.Change.Convergence
import DocSync.Proofs.Sorting

/-!
Copies: a model that has the nodes, the content and the links of another one, in other places of its
arena and perhaps under other ids. What is read off a model along its links is the same in a copy, up
to the places: who stands above whom, who owns a chain, which nodes are at top level, how large a tree
is. A copy that keeps the order of the top level has the same snapshot.
-/

namespace DocSync

variable {m m' new : Model} {carry : NodeId → NodeId} {image : Key → Key} {a b k r x : Key}

namespace CarriedOver

variable (carried : CarriedOver m new carry image) (sound : m.Sound) (soundNew : new.Sound)
include carried sound soundNew

/-- An image stands over an image just when its node stands over the other. -/
theorem over_iff (heldA : new.Holds a) (heldB : new.Holds b) :
    m.Over (image a) (image b) ↔ new.Over a b := by
  constructor
  · -- Whatever stands above an image is an image itself.
    intro atop
    generalize lower : image b = k at atop
    induction atop generalizing b with
    | refl => exact carried.injective heldA heldB lower.symm ▸ .refl
    | @step p c e _ held parent ih =>
      subst lower
      rw [carried.parent sound soundNew heldB] at parent
      obtain ⟨⟨q, e'⟩, above, same⟩ := Option.map_eq_some_iff.1 parent
      simp only [Prod.mk.injEq] at same
      exact (ih (soundNew.forth heldB above).1 same.1).step heldB above
  · intro atop
    induction atop with
    | refl => exact .refl
    | @step p c e _ held above ih =>
      refine (ih (soundNew.forth held above).1).step (e := e) (carried.holds held) ?_
      rw [carried.parent sound soundNew held, above]
      rfl

/-- Chains belong to images of the nodes that they belong to. -/
theorem owner (held : new.Holds b) :
    (m.node (image b)).owner = (new.node b).owner.map image := by
  obtain ⟨rank, grows⟩ := soundNew.ranked
  -- The owner is that of the node before, which has a lower rank.
  induction size : rank b using Nat.strongRecOn generalizing b with
  | ind n ih =>
    rw [sound.owner (carried.holds held), soundNew.owner held, carried.parent sound soundNew held]
    cases above : (new.node b).parent with
    | none => rfl
    | some link =>
      obtain ⟨p, e⟩ := link
      obtain ⟨heldP, target⟩ := soundNew.forth held above
      cases e with
      | child => rfl
      | next => exact ih (rank p) (size ▸ grows p b heldP ⟨.next, target⟩) heldP rfl

omit sound in
/-- The trees at the image of a link are the link's trees, in their new places. -/
theorem treesAt_some (linked : m.Linked) (held : new.Holds k) :
    m.treesAt (some (image k)) = Tree.mapAll image (new.treesAt (some k)) := by
  -- The trees behind both links of a node are known before its own.
  refine soundNew.descend (motive := fun k =>
    m.treesAt (some (image k)) = Tree.mapAll image (new.treesAt (some k))) (fun k held ih => ?_) held
  have part : ∀ e, m.treesAt ((m.node (image k)).target? e) =
      Tree.mapAll image (new.treesAt ((new.node k).target? e)) := by
    intro e
    rw [carried.target held e]
    cases leads : (new.node k).target? e with
    | none => simp [Tree.mapAll]
    | some c => exact ih c ⟨e, leads⟩
  have below := part .child
  have after := part .next
  simp only [Node.target?] at below after
  rw [linked.treesAt_some (carried.holds held), soundNew.treesAt_some held, Model.tree_eq,
    Model.tree_eq, below, after, Tree.mapAll, Tree.map]

/-! ### The snapshot of a copy -/

/-- The nodes that hang on an image are the images of those that hang on its node. -/
theorem subtreeAndNext (held : new.Holds k) :
    m.subtreeAndNext (image k) = (new.subtreeAndNext k).map image := by
  rw [Model.subtreeAndNext, Model.subtreeAndNext, Model.chainTrees_eq, Model.chainTrees_eq,
    carried.treesAt_some soundNew sound.toLinked held, Tree.preorderAll_mapAll]

theorem descendantCount (held : new.Holds k) :
    m.descendantCount (image k) = new.descendantCount k := by
  rw [Model.descendantCount, Model.descendantCount, carried.subtreeAndNext sound soundNew held,
    List.length_map]

/-- A snapshot takes the nodes in the same order when top-level nodes with equally many descendants
stand in the same order. -/
theorem canonicalOrder {tops : List Key} (listed : m.roots = tops.map image)
    (perm : tops.Perm new.roots)
    (same : ∀ n, tops.filter (new.descendantCount · = n) =
      new.roots.filter (new.descendantCount · = n)) :
    m.canonicalOrder = new.canonicalOrder.map image := by
  have held : ∀ {r}, r ∈ tops → new.Holds r := fun root => soundNew.holds_root (perm.mem_iff.1 root)
  -- Images have as many descendants, so they are sorted alike.
  have sorted : stableSort (fun a b => m.descendantCount a ≤ m.descendantCount b) m.roots =
      (stableSort (fun a b => new.descendantCount a ≤ new.descendantCount b) tops).map image := by
    rw [listed]
    refine stableSort_map fun a first b second => ?_
    rw [carried.descendantCount sound soundNew (held first),
      carried.descendantCount sound soundNew (held second)]
  rw [Model.canonicalOrder, Model.canonicalOrder, sorted, stableSort_congr same, List.flatMap_map,
    List.map_flatMap]
  refine List.flatMap_congr fun r member => ?_
  have root := (stableSort_perm _ _).mem_iff.1 member
  exact carried.subtreeAndNext sound soundNew (soundNew.holds_root root)

omit sound soundNew in
/-- An image shown under given names looks like its node under the names of the images. -/
theorem shown_image {ι : Type} (name : Key → ι) (held : new.Holds b) :
    m.shown name (image b) = new.shown (fun c => name (image c)) b := by
  have head := carried.target held .child
  have next := carried.target held .next
  simp only [Node.target?] at head next
  simp only [Model.shown, carried.kind held, carried.fields held, head, next, Option.map_map,
    Function.comp_def]

/-- A snapshot that takes the nodes in the same order has the same records. -/
theorem records_snapshot (order : m.canonicalOrder = new.canonicalOrder.map image) :
    m.snapshot.records = new.snapshot.records := by
  have shown : ∀ {ι : Type} (name : Key → ι), m.canonicalOrder.map (m.shown name) =
      new.canonicalOrder.map (new.shown fun c => name (image c)) := by
    intro ι name
    rw [order, List.map_map]
    exact List.map_congr_left fun b member =>
      carried.shown_image name (soundNew.mem_canonicalOrder.1 member)
  -- A node goes by the line that first mentions it, whatever the names.
  have label : ∀ {b}, new.Holds b → m.labelOf (image b) = new.labelOf b := by
    intro b held
    have here := sound.lineOf_shown (fun k => (m.node k).id.name) sound.named (carried.holds held)
    have there := soundNew.lineOf_shown (fun k => (new.node k).id.name) soundNew.named held
    have moved := soundNew.lineOf_shown image carried.injective held
    have placed := congrArg (fun records => lineOf records (image b)) (shown fun k => k)
    exact congrArg₂ labelText ((here.trans placed).trans (moved.trans there.symm))
      (carried.kind held)
  rw [sound.depicts_snapshot.records, soundNew.depicts_snapshot.records, shown]
  refine List.map_congr_left fun b member => ?_
  have held := soundNew.mem_canonicalOrder.1 member
  have target : ∀ e, ((new.node b).target? e).map (fun c => m.labelOf (image c)) =
      ((new.node b).target? e).map new.labelOf := by
    intro e
    cases leads : (new.node b).target? e with
    | none => rfl
    | some c => exact congrArg some (label (soundNew.back held leads).1)
  have head := target .child
  have next := target .next
  simp only [Node.target?] at head next
  simp only [Model.shown, label held, head, next]

end CarriedOver

/-- A model is a copy of another one: all that its nodes hold is carried over. -/
structure Copied (m new : Model) (carry : NodeId → NodeId) (image : Key → Key) : Prop extends
    CarriedOver m new carry image where
  content : ∀ {b}, new.Holds b → (m.node (image b)).toContent = (new.node b).toContent

/-- Every model is a copy of itself. -/
theorem Copied.refl (m : Model) : Copied m m id id where
  holds held := held
  onto held := ⟨_, held, rfl⟩
  injective _ _ same := same
  id _ := rfl
  kind _ := rfl
  fields _ := rfl
  target _ _ := Option.map_id.symm ▸ rfl
  content _ := rfl

end DocSync
