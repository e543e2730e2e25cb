import DocSync.Proofs.Model.Forest

/-!
Sound models: those in which the links, the top level, the owners of chains and the ids agree. In a
sound model the document lists every node once, an id finds the one node of its name, and the leaps
towards the top level end at the node that stands above all on the way.
-/

namespace DocSync.Model

variable {m : Model} {a b c k p r x : Key} {e : Edge}

/-- A model whose parts agree with one another. -/
structure Sound (m : Model) : Prop extends Linked m where
  /-- The top level lists the nodes without parent. -/
  root_iff : ∀ {k}, k ∈ m.roots ↔ m.Holds k ∧ (m.node k).parent = none
  roots_nodup : m.roots.Nodup
  /-- A chain belongs to the node whose slot holds it. -/
  owner : ∀ {k}, m.Holds k →
    (m.node k).owner = (m.node k).parent.bind fun above => m.ownerAt above.1 above.2
  /-- Only a kind with a slot has children. -/
  slotted : ∀ {k}, m.Holds k → (m.node k).head.isSome → (m.node k).kind.slot?.isSome
  named : ∀ {a b}, m.Holds a → m.Holds b → (m.node a).id.name = (m.node b).id.name → a = b
  solid : ∀ {k}, m.Holds k → (m.node k).id.isVoid = false

namespace Sound

variable (sound : m.Sound)
include sound

theorem holds_root (root : r ∈ m.roots) : m.Holds r := (sound.root_iff.1 root).1

theorem parent_root (root : r ∈ m.roots) : (m.node r).parent = none := (sound.root_iff.1 root).2

/-- The document lists the nodes that the model holds. -/
theorem mem_order : x ∈ m.order ↔ m.Holds x := by
  simp only [order, List.mem_flatMap, subtreeAndNext, chainTrees_eq]
  constructor
  · rintro ⟨r, root, member⟩
    have held := sound.holds_root root
    have atop := (sound.mem_treesAt_some held).1 member
    cases atop with
    | refl => exact held
    | step _ child _ => exact child
  · intro held
    obtain ⟨r, atop, top⟩ := sound.exists_root held
    have upper := sound.holds_of_over held atop
    exact ⟨r, sound.root_iff.2 ⟨upper, top⟩, (sound.mem_treesAt_some upper).2 atop⟩

/-- The trees of a top-level node's chain are those of its nodes. -/
theorem chainTrees_root (root : r ∈ m.roots) : m.chainTrees r = (m.chain r).map m.tree :=
  sound.treesAt_eq_map_tree fun _ same => Option.some.inj same ▸ sound.holds_root root

/-- The document lists what hangs on the nodes of its chains. -/
theorem order_eq : m.order = m.roots.flatMap fun r => (m.chain r).flatMap m.subtree :=
  List.flatMap_congr fun r root => by
    rw [subtreeAndNext, sound.chainTrees_root root, Tree.preorderAll_eq_flatMap, List.flatMap_map]
    rfl

/-- The trees of several top-level nodes have no node in common. -/
theorem nodup_flatMap_subtreeAndNext {roots : List Key} (nodup : roots.Nodup)
    (top : ∀ r ∈ roots, r ∈ m.roots) : (roots.flatMap m.subtreeAndNext).Nodup := by
  rw [List.nodup_flatMap]
  refine ⟨fun r root => sound.nodup_treesAt_some (sound.holds_root (top r root)), ?_⟩
  refine nodup.imp_of_mem fun {r s} first second differ => ?_
  intro x left right
  have rootR := top r first
  have rootS := top s second
  have overR := (sound.mem_treesAt_some (sound.holds_root rootR)).1 left
  have overS := (sound.mem_treesAt_some (sound.holds_root rootS)).1 right
  -- One of the two would stand over the other, which has no parent.
  rcases overR.total overS with upper | upper
  · exact differ (upper.eq_of_root (sound.parent_root rootS))
  · exact differ (upper.eq_of_root (sound.parent_root rootR)).symm

/-- The document lists no node twice. -/
theorem nodup_order : m.order.Nodup :=
  sound.nodup_flatMap_subtreeAndNext sound.roots_nodup fun _ root => root

/-- Of the nodes that hang on top-level nodes, only these have no parent. -/
theorem filter_flatMap_subtreeAndNext {roots : List Key} (top : ∀ r ∈ roots, r ∈ m.roots) :
    ((roots.flatMap m.subtreeAndNext).filter fun k => (m.node k).parent.isNone) = roots := by
  induction roots with
  | nil => rfl
  | cons r rest ih =>
    obtain ⟨root, others⟩ := List.forall_mem_cons.1 top
    have held := sound.holds_root root
    -- The top-level node comes first, and does not come again.
    obtain ⟨below, split⟩ : ∃ below, m.subtreeAndNext r = r :: below := by
      rw [subtreeAndNext, chainTrees_eq, sound.treesAt_some held, tree_eq, Tree.preorderAll_cons,
        Tree.preorder_node]
      exact ⟨_, rfl⟩
    have once : (m.subtreeAndNext r).Nodup := sound.nodup_treesAt_some held
    rw [split, List.nodup_cons] at once
    have linked : (below.filter fun k => (m.node k).parent.isNone) = [] := by
      rw [List.filter_eq_nil_iff]
      intro k member free
      have atop : m.Over r k := (sound.mem_treesAt_some held).1 (by
        change k ∈ m.subtreeAndNext r
        rw [split]
        exact List.mem_cons_of_mem _ member)
      rw [atop.eq_of_root (by simpa using free)] at once
      exact once.1 member
    have atTop : (m.node r).parent.isNone = true := by rw [sound.parent_root root]; rfl
    rw [List.flatMap_cons, List.filter_append, split, List.filter_cons, if_pos atTop, linked, ih others]
    rfl

/-- The top level is what the document lists of the nodes without parent. -/
theorem filter_order : (m.order.filter fun k => (m.node k).parent.isNone) = m.roots :=
  sound.filter_flatMap_subtreeAndNext fun _ root => root

/-- The node that owns a chain stands over each of its members. -/
theorem over_of_owner (held : m.Holds k) (owned : (m.node k).owner = some a) :
    m.Over a k ∧ a ≠ k := by
  obtain ⟨rank, grows⟩ := sound.ranked
  induction size : rank k using Nat.strongRecOn generalizing k with
  | ind n ih =>
    rw [sound.owner held] at owned
    cases parent : (m.node k).parent with
    | none => simp [parent] at owned
    | some above =>
      obtain ⟨p, e⟩ := above
      have upper := (sound.forth held parent).1
      have leads := sound.leads_of_parent held parent
      have less := grows p k upper leads
      rw [parent] at owned
      cases e with
      | child =>
        -- The head of a chain hangs on its owner.
        cases owned
        exact ⟨sound.over_of_leads upper leads, fun same : p = k => by simp [same] at less⟩
      | next =>
        obtain ⟨atop, _⟩ := ih (rank p) (size ▸ less) upper owned rfl
        refine ⟨atop.step held parent, fun same => ?_⟩
        subst same
        exact sound.not_over_parent held parent atop

/-- All of a chain has one owner. -/
theorem owner_of_mem_chainAt (held : m.Holds k) (member : x ∈ m.chainAt (some k)) :
    (m.node x).owner = (m.node k).owner := by
  revert member
  refine sound.descend (motive := fun k => x ∈ m.chainAt (some k) →
    (m.node x).owner = (m.node k).owner) (fun k held ih member => ?_) held
  rw [sound.chainAt_some held] at member
  rcases List.mem_cons.1 member with same | later
  · rw [same]
  · cases next : (m.node k).next with
    | none => simp [next] at later
    | some c =>
      obtain ⟨child, parent⟩ := sound.back (e := .next) held next
      rw [next] at later
      rw [ih c ⟨.next, next⟩ later, sound.owner child, parent]
      rfl

/-- The children of a node are the nodes that it owns. -/
theorem mem_children_iff (heldA : m.Holds a) (heldX : m.Holds x) :
    x ∈ m.children a ↔ (m.node x).owner = some a := by
  constructor
  · intro member
    rw [children_eq] at member
    cases head : (m.node a).head with
    | none => simp [head] at member
    | some c =>
      obtain ⟨child, parent⟩ := sound.back (e := .child) heldA head
      rw [head] at member
      rw [sound.owner_of_mem_chainAt child member, sound.owner child, parent]
      rfl
  · -- The way back to the owner leads along the chain.
    intro owned
    obtain ⟨rank, grows⟩ := sound.ranked
    induction size : rank x using Nat.strongRecOn generalizing x with
    | ind n ih =>
      have owner := sound.owner heldX
      rw [owned] at owner
      cases parent : (m.node x).parent with
      | none => simp [parent] at owner
      | some above =>
        obtain ⟨p, e⟩ := above
        obtain ⟨heldP, target⟩ := sound.forth heldX parent
        rw [parent, Option.bind_some] at owner
        rw [children_eq]
        cases e with
        | child =>
          obtain rfl : a = p := Option.some.inj owner
          rw [show (m.node a).head = some x from target, sound.chainAt_some heldX]
          exact List.mem_cons_self
        | next =>
          have before := ih (rank p) (size ▸ grows p x heldP ⟨.next, target⟩) heldP owner.symm rfl
          rw [children_eq] at before
          cases head : (m.node a).head with
          | none => simp [head] at before
          | some c =>
            rw [head] at before
            exact (sound.mem_chainAt_some (sound.back (e := .child) heldA head).1).2
              (.inr ⟨p, before, target⟩)

/-- A node without slot has no children. -/
theorem children_of_scalar (held : m.Holds k) (kind : (m.node k).kind = .scalar) :
    m.children k = [] := by
  have slotless := sound.slotted held
  rw [kind] at slotless
  have head : (m.node k).head = none := by simpa [Kind.slot?] using slotless
  rw [children_eq, head, chainAt_none]

/-- What holds of a node when it holds of the node's owner holds of all nodes. -/
theorem ascend {motive : Key → Prop} (step : ∀ k, m.Holds k →
      (∀ a, m.Holds a → (m.node k).owner = some a → motive a) → motive k) (held : m.Holds k) :
    motive k := by
  obtain ⟨rank, grows⟩ := sound.ranked
  induction size : rank k using Nat.strongRecOn generalizing k with
  | ind n ih =>
    refine step k held fun a heldA owned => ?_
    -- The owner stands above, so its rank is lower.
    obtain ⟨atop, differ⟩ := sound.over_of_owner held owned
    have less := (sound.lt_of_over grows atop).resolve_left differ
    exact ih (rank a) (size ▸ less) heldA rfl

/-- A node at top level is owned by none. -/
theorem owner_root (root : r ∈ m.roots) : (m.node r).owner = none := by
  rw [sound.owner (sound.holds_root root), sound.parent_root root]
  rfl

/-- The slot of a node holds its children. -/
theorem childrenAt_edgeName (held : m.Holds k) :
    m.childrenAt k ((m.node k).edgeName .child) = m.children k := by
  rw [childrenAt]
  cases slot : (m.node k).kind.slot? with
  | some name => simp [Node.edgeName, slot]
  | none =>
    have bare := sound.slotted held
    rw [slot] at bare
    have head : (m.node k).head = none := by simpa using bare
    simp [children_eq, head]

/-- In a document of one node at top level every other node has an owner. -/
theorem eq_of_owner_none (single : m.roots = [r]) (alone : (m.node r).next = none)
    (held : m.Holds k) (free : (m.node k).owner = none) : k = r := by
  obtain ⟨rank, grows⟩ := sound.ranked
  induction size : rank k using Nat.strongRecOn generalizing k with
  | ind n ih =>
    have owner := sound.owner held
    rw [free] at owner
    cases parent : (m.node k).parent with
    | none => simpa [single] using sound.root_iff.2 ⟨held, parent⟩
    | some above =>
      obtain ⟨p, e⟩ := above
      obtain ⟨heldP, target⟩ := sound.forth held parent
      rw [parent, Option.bind_some] at owner
      cases e with
      | child => cases owner
      | next =>
        -- Such a chain starts at the top level, where nothing follows.
        obtain rfl := ih (rank p) (size ▸ grows p k heldP ⟨.next, target⟩) heldP owner.symm rfl
        rw [show (m.node p).next = some k from target] at alone
        cases alone

/-- A leap towards the top level leads to a node strictly above. -/
theorem over_leap (held : m.Holds k) (parent : (m.node k).parent = some (p, e)) :
    m.Over ((m.node k).owner.getD p) k ∧ (m.node k).owner.getD p ≠ k := by
  cases owned : (m.node k).owner with
  | some a => exact sound.over_of_owner held owned
  | none =>
    refine ⟨Over.refl.step held parent, fun same => ?_⟩
    simp only [Option.getD_none] at same
    subst same
    exact sound.not_over_parent held parent .refl

/-- Leaps towards the top level end at the node without parent, given enough of them. -/
theorem topFrom_spec (fuel : Nat) (held : m.Holds k) {walk : List Key}
    (walks : m.Walk (k :: walk)) (long : m.nodes.size ≤ walk.length + fuel) :
    m.Over (m.topFrom fuel k) k ∧ (m.node (m.topFrom fuel k)).parent = none := by
  induction fuel generalizing k walk with
  | zero =>
    have := sound.walk_length_le walks
    simp at this
    omega
  | succ fuel ih =>
    unfold topFrom
    split
    · next none => exact ⟨.refl, none⟩
    · next above edge parent =>
      -- The walk from the node above is longer, which makes up for the leap.
      obtain ⟨atop, differ⟩ := sound.over_leap held parent
      obtain ⟨longer, walks, more⟩ := sound.exists_longer_walk atop differ walks
      obtain ⟨upper, root⟩ := ih (sound.holds_of_over held atop) walks (by omega)
      exact ⟨upper.trans atop, root⟩

/-- The top-level node above a node stands over it and has no parent. -/
theorem top_spec (held : m.Holds k) : m.Over (m.top k) k ∧ (m.node (m.top k)).parent = none :=
  sound.topFrom_spec m.nodes.size held ⟨.singleton k, by simpa using held⟩ (by omega)

/-- A node without parent is at the top of a node just when it stands over it. -/
theorem top_eq_iff (held : m.Holds k) (root : (m.node r).parent = none) :
    m.top k = r ↔ m.Over r k := by
  obtain ⟨atop, top⟩ := sound.top_spec held
  constructor
  · intro same
    exact same ▸ atop
  · intro other
    rcases atop.total other with upper | upper
    · exact upper.eq_of_root root
    · exact (upper.eq_of_root top).symm

/-- An id finds the node of its name. -/
theorem named?_eq_some_iff {name : Name} :
    m.named? name = some k ↔ m.Holds k ∧ (m.node k).id.name = name := by
  have at_ : ∀ {i} (inside : i < m.nodes.size), m.node i = m.nodes[i] := fun {i} inside => by
    simp [node, inside]
  rw [named?, Array.findIdx?_eq_some_iff_getElem]
  constructor
  · rintro ⟨inside, found, -⟩
    simp only [Bool.and_eq_true, beq_iff_eq, ← at_ inside] at found
    exact ⟨⟨inside, found.1⟩, found.2⟩
  · rintro ⟨held, same⟩
    refine ⟨held.1, by simp [← at_ held.1, held.2, same], fun j before => ?_⟩
    -- A node found before it would have the same name.
    have inside := Nat.lt_trans before held.1
    simp only [← at_ inside, Bool.and_eq_true, beq_iff_eq]
    rintro ⟨live, name⟩
    have equal : j = k := sound.named ⟨inside, live⟩ held (name.trans same.symm)
    exact Nat.lt_irrefl k (equal ▸ before)

theorem find?_eq_some_iff {id : NodeId} :
    m.find? id = some k ↔ m.Holds k ∧ (m.node k).id.name = id.name :=
  sound.named?_eq_some_iff

theorem find?_id (held : m.Holds k) : m.find? (m.node k).id = some k :=
  sound.find?_eq_some_iff.2 ⟨held, rfl⟩

end Sound

end DocSync.Model
