import DocSync.Proofs.Model.Linked

/-!
The trees of a linked model. Every link has its trees, which unfold one link at a time; in them each
node stands exactly once.
-/

namespace DocSync

namespace Tree

variable {α β γ : Type}

@[simp] theorem preorder_node (label : α) (children : List (Tree α)) :
    (node label children).preorder = label :: preorderAll children := by rw [preorder]

@[simp] theorem preorderAll_nil : preorderAll ([] : List (Tree α)) = [] := by rw [preorderAll]

@[simp] theorem preorderAll_cons (tree : Tree α) (rest : List (Tree α)) :
    preorderAll (tree :: rest) = tree.preorder ++ preorderAll rest := by rw [preorderAll]

theorem preorderAll_eq_flatMap (trees : List (Tree α)) : preorderAll trees = trees.flatMap preorder := by
  induction trees with
  | nil => exact preorderAll_nil
  | cons tree rest ih => rw [preorderAll_cons, List.flatMap_cons, ih]

mutual
/-- The tree with another label on every node. -/
def map (f : α → β) : Tree α → Tree β
  | node label children => node (f label) (mapAll f children)

/-- Several trees with another label on every node. -/
def mapAll (f : α → β) : List (Tree α) → List (Tree β)
  | [] => []
  | tree :: rest => map f tree :: mapAll f rest
end

theorem mapAll_eq_map (f : α → β) (trees : List (Tree α)) : mapAll f trees = trees.map (map f) := by
  induction trees with
  | nil => rw [mapAll, List.map_nil]
  | cons tree rest ih => rw [mapAll, ih, List.map_cons]

mutual
theorem map_map (f : α → β) (g : β → γ) (tree : Tree α) : (tree.map f).map g = tree.map (g ∘ f) := by
  cases tree with
  | node label children => rw [map, map, map, mapAll_mapAll f g children, Function.comp]

theorem mapAll_mapAll (f : α → β) (g : β → γ) (trees : List (Tree α)) :
    mapAll g (mapAll f trees) = mapAll (g ∘ f) trees := by
  cases trees with
  | nil => rw [mapAll, mapAll, mapAll]
  | cons tree rest => rw [mapAll, mapAll, mapAll, map_map f g tree, mapAll_mapAll f g rest]
end

mutual
theorem preorder_map (f : α → β) (tree : Tree α) : (tree.map f).preorder = tree.preorder.map f := by
  cases tree with
  | node label children =>
    rw [map, preorder_node, preorderAll_mapAll f children, preorder_node, List.map_cons]

theorem preorderAll_mapAll (f : α → β) (trees : List (Tree α)) :
    preorderAll (mapAll f trees) = (preorderAll trees).map f := by
  cases trees with
  | nil => rw [mapAll, preorderAll_nil, preorderAll_nil, List.map_nil]
  | cons tree rest =>
    rw [mapAll, preorderAll_cons, preorder_map f tree, preorderAll_mapAll f rest, preorderAll_cons,
      List.map_append]
end

mutual
/-- The size of a tree counts its labels. -/
theorem size_eq (tree : Tree α) : tree.size = tree.preorder.length := by
  cases tree with
  | node label children =>
    rw [size, sizeAll_eq children, preorder_node, List.length_cons, Nat.add_comm]

theorem sizeAll_eq (trees : List (Tree α)) : sizeAll trees = (preorderAll trees).length := by
  cases trees with
  | nil => rw [sizeAll, preorderAll_nil, List.length_nil]
  | cons tree rest =>
    rw [sizeAll, size_eq tree, sizeAll_eq rest, preorderAll_cons, List.length_append]
end

end Tree

namespace Model

variable {m : Model} {a b c k p x : Key} {e : Edge} {link : Option Key}

/-- The trees of the chain that a link leads to. -/
def treesAt (m : Model) (link : Option Key) : List (Tree Key) := m.treesFrom m.nodes.size link

theorem tree_eq (m : Model) (k : Key) : m.tree k = .node k (m.treesAt (m.node k).head) := rfl

/-- A node hangs on itself. -/
theorem mem_subtree_self (m : Model) (k : Key) : k ∈ m.subtree k := by
  rw [subtree, tree_eq, Tree.preorder_node]
  exact List.mem_cons_self

theorem chainTrees_eq (m : Model) (k : Key) : m.chainTrees k = m.treesAt (some k) := rfl

@[simp] theorem treesFrom_none (m : Model) (fuel : Nat) : m.treesFrom fuel none = [] := by
  cases fuel <;> rfl

@[simp] theorem treesAt_none (m : Model) : m.treesAt none = [] := m.treesFrom_none _

/-- A chain is what its trees stand on. -/
theorem chainFrom_eq_map_label (m : Model) (fuel : Nat) (link : Option Key) :
    m.chainFrom fuel link = (m.treesFrom fuel link).map Tree.label := by
  induction fuel generalizing link with
  | zero => rfl
  | succ fuel ih =>
    cases link with
    | none => rfl
    | some k => simp [chainFrom, treesFrom, ih, Tree.label]

/-- The nodes of the chain that a link leads to. -/
def chainAt (m : Model) (link : Option Key) : List Key := m.chainFrom m.nodes.size link

theorem chain_eq (m : Model) (k : Key) : m.chain k = m.chainAt (some k) := rfl

theorem children_eq (m : Model) (k : Key) : m.children k = m.chainAt (m.node k).head := rfl

theorem chainAt_eq_map_label (m : Model) (link : Option Key) :
    m.chainAt link = (m.treesAt link).map Tree.label := m.chainFrom_eq_map_label _ _

@[simp] theorem chainAt_none (m : Model) : m.chainAt none = [] := by
  simp [chainAt_eq_map_label]

namespace Linked

variable (linked : m.Linked)
include linked

/-- Once the count of steps exceeds every walk, one step more changes nothing. -/
theorem treesFrom_succ (fuel : Nat) (k : Key) (held : m.Holds k)
    (short : ∀ walk, m.Walk (k :: walk) → walk.length < fuel) :
    m.treesFrom (fuel + 1) (some k) = m.treesFrom fuel (some k) := by
  induction fuel generalizing k with
  | zero =>
    have := short [] ⟨.singleton k, by simpa using held⟩
    omega
  | succ fuel ih =>
    -- Both links of the node start shorter walks.
    have next : ∀ link, (∀ c, link = some c → m.Leads k c) →
        m.treesFrom (fuel + 1) link = m.treesFrom fuel link := by
      intro link leads
      cases link with
      | none => simp
      | some c =>
        have leads := leads c rfl
        refine ih c (linked.holds_of_leads held leads) fun walk walks => ?_
        have := short (c :: walk) (walk_cons held leads walks)
        simp at this
        omega
    have below := next (m.node k).head fun c target => ⟨.child, target⟩
    have after := next (m.node k).next fun c target => ⟨.next, target⟩
    rw [treesFrom, treesFrom, below, after]

/-- The trees of a link are its node's own tree and then those of the next sibling. -/
theorem treesAt_some (held : m.Holds k) :
    m.treesAt (some k) = m.tree k :: m.treesAt (m.node k).next := by
  rw [treesAt, ← linked.treesFrom_succ m.nodes.size k held, treesFrom]
  · rfl
  · intro walk walks
    have := linked.walk_length_le walks
    simp at this
    omega

theorem chainAt_some (held : m.Holds k) :
    m.chainAt (some k) = k :: m.chainAt (m.node k).next := by
  simp [chainAt_eq_map_label, linked.treesAt_some held, tree_eq, Tree.label]

/-- A node stands in the trees of a link just when the link's node stands over it. -/
theorem mem_treesAt_some (held : m.Holds k) :
    x ∈ Tree.preorderAll (m.treesAt (some k)) ↔ m.Over k x := by
  refine linked.descend (motive := fun k => x ∈ Tree.preorderAll (m.treesAt (some k)) ↔ m.Over k x)
    (fun k held ih => ?_) held
  -- Either link of the node is described by the induction hypothesis.
  have part : ∀ link, (∀ c, link = some c → m.Leads k c) →
      (x ∈ Tree.preorderAll (m.treesAt link) ↔ ∃ c, link = some c ∧ m.Over c x) := by
    intro link leads
    cases link with
    | none => simp
    | some c => simp [ih c (leads c rfl)]
  rw [linked.treesAt_some held, tree_eq, Tree.preorderAll_cons, Tree.preorder_node,
    List.cons_append, List.mem_cons, List.mem_append,
    part (m.node k).head fun c target => ⟨.child, target⟩,
    part (m.node k).next fun c target => ⟨.next, target⟩]
  clear part ih
  constructor
  · rintro (same | ⟨c, target, atop⟩ | ⟨c, target, atop⟩)
    · exact same ▸ .refl
    · exact (linked.over_of_leads held ⟨.child, target⟩).trans atop
    · exact (linked.over_of_leads held ⟨.next, target⟩).trans atop
  · intro atop
    -- The first step down from the node takes one of its two links.
    induction atop with
    | refl => exact .inl rfl
    | @step p c e above child parent ih =>
      obtain ⟨upper, target⟩ := linked.forth child parent
      rcases ih with same | ⟨d, link, atop⟩ | ⟨d, link, atop⟩
      · subst same
        cases e with
        | child => exact .inr (.inl ⟨c, target, .refl⟩)
        | next => exact .inr (.inr ⟨c, target, .refl⟩)
      · exact .inr (.inl ⟨d, link, atop.step child parent⟩)
      · exact .inr (.inr ⟨d, link, atop.step child parent⟩)

/-- A node and what hangs below it stand under it and belong to the model. -/
theorem over_of_mem_subtree (held : m.Holds k) (member : x ∈ m.subtree k) :
    m.Over k x ∧ m.Holds x := by
  have atop : m.Over k x := by
    rw [← linked.mem_treesAt_some held, linked.treesAt_some held, Tree.preorderAll_cons]
    exact List.mem_append_left _ member
  refine ⟨atop, ?_⟩
  cases atop with
  | refl => exact held
  | step _ child _ => exact child

/-- Two links of one node lead to separate nodes. -/
theorem not_over_both {c d : Key} {e' : Edge} (held : m.Holds k)
    (left : (m.node k).target? e = some c) (right : (m.node k).target? e' = some d)
    (differ : e ≠ e') (atop : m.Over c x) : ¬ m.Over d x := by
  intro other
  obtain ⟨heldC, parentC⟩ := linked.back held left
  obtain ⟨heldD, parentD⟩ := linked.back held right
  -- One of the two would stand over the other, and hence over their parent.
  rcases atop.total other with upper | upper
  · by_cases same : c = d
    · subst same
      rw [parentC] at parentD
      exact differ (by cases parentD; rfl)
    · exact linked.not_over_parent heldC parentC (upper.parent_of_ne same parentD)
  · by_cases same : d = c
    · subst same
      rw [parentC] at parentD
      exact differ (by cases parentD; rfl)
    · exact linked.not_over_parent heldD parentD (upper.parent_of_ne same parentC)

/-- No node stands twice in the trees of a link. -/
theorem nodup_treesAt_some (held : m.Holds k) :
    (Tree.preorderAll (m.treesAt (some k))).Nodup := by
  refine linked.descend (motive := fun k => (Tree.preorderAll (m.treesAt (some k))).Nodup)
    (fun k held ih => ?_) held
  have part : ∀ e link, (m.node k).target? e = link →
      (Tree.preorderAll (m.treesAt link)).Nodup ∧ ∀ x ∈ Tree.preorderAll (m.treesAt link),
        ∃ c, (m.node k).target? e = some c ∧ m.Over c x := by
    intro e link target
    cases link with
    | none => simp
    | some c =>
      have child := (linked.back held target).1
      exact ⟨ih c ⟨e, target⟩, fun x member =>
        ⟨c, target, (linked.mem_treesAt_some child).1 member⟩⟩
  obtain ⟨belowNodup, belowOver⟩ := part .child (m.node k).head rfl
  obtain ⟨afterNodup, afterOver⟩ := part .next (m.node k).next rfl
  rw [linked.treesAt_some held, tree_eq, Tree.preorderAll_cons, Tree.preorder_node,
    List.cons_append, List.nodup_cons, List.nodup_append']
  refine ⟨fun member => ?_, belowNodup, afterNodup, fun x below after => ?_⟩
  · -- The node itself would stand under one of its own links.
    have under : ∃ e c, (m.node k).target? e = some c ∧ m.Over c k := by
      rcases List.mem_append.1 member with below | after
      · exact ⟨.child, belowOver k below⟩
      · exact ⟨.next, afterOver k after⟩
    obtain ⟨e, c, target, atop⟩ := under
    obtain ⟨child, parent⟩ := linked.back held target
    exact linked.not_over_parent child parent atop
  · obtain ⟨c, left, atop⟩ := belowOver x below
    obtain ⟨d, right, other⟩ := afterOver x after
    exact linked.not_over_both held left right (by decide) atop other

/-- A chain consists of its first node and of whatever follows one of its members. -/
theorem mem_chainAt_some (held : m.Holds k) :
    x ∈ m.chainAt (some k) ↔ x = k ∨ ∃ q ∈ m.chainAt (some k), (m.node q).next = some x := by
  -- Links lead down, so a chain is known once the chain from the next node is.
  refine linked.descend (motive := fun k => x ∈ m.chainAt (some k) ↔
    x = k ∨ ∃ q ∈ m.chainAt (some k), (m.node q).next = some x) (fun k held ih => ?_) held
  rw [linked.chainAt_some held]
  cases next : (m.node k).next with
  | none => simp [next]
  | some c =>
    have tail := ih c ⟨.next, next⟩
    simp only [List.mem_cons, tail, exists_eq_or_imp, next, Option.some.injEq]
    constructor
    · rintro (same | same | later)
      · exact .inl same
      · exact .inr (.inl same.symm)
      · exact .inr (.inr later)
    · rintro (same | same | later)
      · exact .inl same
      · exact .inr (.inl same.symm)
      · exact .inr (.inr later)

/-- The members of a chain stand under its first node. -/
theorem over_of_mem_chainAt (held : m.Holds k)
    (member : x ∈ m.chainAt (some k)) : m.Over k x ∧ m.Holds x := by
  revert member
  refine linked.descend (motive := fun k => x ∈ m.chainAt (some k) → m.Over k x ∧ m.Holds x)
    (fun k held ih member => ?_) held
  rw [linked.chainAt_some held] at member
  rcases List.mem_cons.1 member with same | later
  · subst same
    exact ⟨.refl, held⟩
  · cases next : (m.node k).next with
    | none => simp [next] at later
    | some c =>
      rw [next] at later
      have leads : m.Leads k c := ⟨.next, next⟩
      obtain ⟨atop, child⟩ := ih c leads later
      exact ⟨(linked.over_of_leads held leads).trans atop, child⟩

/-- The children of a node of the model stand under it and belong to the model. -/
theorem over_of_mem_children (held : m.Holds k)
    (member : x ∈ m.children k) : m.Over k x ∧ m.Holds x := by
  rw [children_eq] at member
  cases head : (m.node k).head with
  | none => simp [head] at member
  | some c =>
    rw [head] at member
    have leads : m.Leads k c := ⟨.child, head⟩
    obtain ⟨atop, child⟩ := linked.over_of_mem_chainAt (linked.holds_of_leads held leads) member
    exact ⟨(linked.over_of_leads held leads).trans atop, child⟩

/-- The trees of a chain are those of its nodes. -/
theorem treesAt_eq_map_tree (held : ∀ c, link = some c → m.Holds c) :
    m.treesAt link = (m.chainAt link).map m.tree := by
  cases link with
  | none => simp
  | some k =>
    refine linked.descend (motive := fun k => m.treesAt (some k) = (m.chainAt (some k)).map m.tree)
      (fun k held ih => ?_) (held k rfl)
    rw [linked.treesAt_some held, linked.chainAt_some held, List.map_cons]
    cases next : (m.node k).next with
    | none => simp
    | some c => rw [ih c ⟨.next, next⟩]

/-- Below a node there are the trees of its children. -/
theorem treesAt_head (held : m.Holds k) :
    m.treesAt (m.node k).head = (m.children k).map m.tree :=
  linked.treesAt_eq_map_tree fun _ head => linked.holds_of_leads held ⟨.child, head⟩

theorem tree_children (held : m.Holds k) : m.tree k = .node k ((m.children k).map m.tree) := by
  rw [tree_eq, linked.treesAt_head held]

/-- A node comes first of what hangs on it, and then comes what hangs on its children. -/
theorem subtree_eq (held : m.Holds k) : m.subtree k = k :: (m.children k).flatMap m.subtree := by
  rw [subtree, linked.tree_children held, Tree.preorder_node, Tree.preorderAll_eq_flatMap,
    List.flatMap_map]
  rfl

/-- What hangs on a node is the node and whatever hangs on its children. -/
theorem mem_subtree_iff (held : m.Holds k) :
    x ∈ m.subtree k ↔ x = k ∨ ∃ c ∈ m.children k, x ∈ m.subtree c := by
  rw [linked.subtree_eq held, List.mem_cons, List.mem_flatMap]

/-- What hangs on a node is the node, and whatever its first child stands over. -/
theorem mem_subtree_iff_over (held : m.Holds k) :
    x ∈ m.subtree k ↔ x = k ∨ ∃ c, (m.node k).head = some c ∧ m.Over c x := by
  rw [subtree, tree_eq, Tree.preorder_node, List.mem_cons]
  cases head : (m.node k).head with
  | none => simp
  | some c => simp [linked.mem_treesAt_some (linked.holds_of_leads held ⟨.child, head⟩)]

/-- With a node its children hang on whatever it hangs on. -/
theorem mem_subtree_of_mem_children (held : m.Holds k) (inside : j ∈ m.subtree k)
    (child : c ∈ m.children j) : c ∈ m.subtree k := by
  have heldJ := (linked.over_of_mem_subtree held inside).2
  rcases (linked.mem_subtree_iff_over held).1 inside with rfl | ⟨top, head, atop⟩
  · exact (linked.mem_subtree_iff held).2 (.inr ⟨c, child, m.mem_subtree_self c⟩)
  · exact (linked.mem_subtree_iff_over held).2
      (.inr ⟨top, head, atop.trans (linked.over_of_mem_children heldJ child).1⟩)

theorem isEmpty_children (held : m.Holds k) :
    (m.children k).isEmpty = (m.node k).head.isNone := by
  rw [children_eq]
  cases head : (m.node k).head with
  | none => simp
  | some c => simp [linked.chainAt_some (linked.holds_of_leads held ⟨.child, head⟩)]

/-- What holds of a node once it holds of its children holds of every node. -/
theorem descend_children {motive : Key → Prop}
    (step : ∀ k, m.Holds k → (∀ c ∈ m.children k, motive c) → motive k) (held : m.Holds k) :
    motive k := by
  -- Along the links what is carried down is that it holds of a node and its following siblings.
  have along : ∀ x ∈ m.chainAt (some k), motive x := by
    refine linked.descend (motive := fun k => ∀ x ∈ m.chainAt (some k), motive x) (fun k held ih => ?_) held
    rw [linked.chainAt_some held, List.forall_mem_cons]
    refine ⟨step k held ?_, ?_⟩
    · rw [children_eq]
      cases head : (m.node k).head with
      | none => simp
      | some c => exact ih c ⟨.child, head⟩
    · cases next : (m.node k).next with
      | none => simp
      | some c => exact ih c ⟨.next, next⟩
  rw [linked.chainAt_some held] at along
  exact along k List.mem_cons_self

end Linked

end Model

end DocSync
