import DocSync.Proofs.Model.Relink

/-!
The primitive edits of a sound model: when each of them succeeds, the model it leads to, and that
this model is sound again. An edit that is refused leaves the model alone.
-/

namespace DocSync

/-- The state that a computation ends in, whether it succeeds or fails. -/
def endOf {ε σ α : Type} (run : EStateM ε σ α) (s : σ) : σ :=
  match run s with
  | .ok _ s' => s'
  | .error _ s' => s'

section EndOf

variable {ε σ α β : Type} {x : EStateM ε σ α} {s : σ}

theorem endOf_bind (f : α → EStateM ε σ β) : endOf (x >>= f) s =
    match x s with
    | .ok a s' => endOf (f a) s'
    | .error _ s' => s' := by
  simp only [endOf, bind, EStateM.bind]
  cases x s <;> rfl

/-- A run that returns something else in the end ends where it would. -/
theorem endOf_bind_pure (f : α → β) : endOf (x >>= fun a => pure (f a)) s = endOf x s := by
  rw [endOf_bind, endOf]
  cases x s <;> rfl

theorem endOf_discard : endOf (discard x) s = endOf x s := by
  simp only [endOf, discard, Functor.discard, Functor.mapConst, EStateM.map, Function.comp]
  cases x s <;> rfl

end EndOf

namespace Model

variable {m m' : Model} {a b c k p x parent child : Key} {e edge : Edge} {owner : Option Key}

/-- Two models that differ at most in what their nodes hold and in the text around them. -/
structure SameForest (m m' : Model) : Prop extends SameLinks m m' where
  roots : m'.roots = m.roots
  owner : ∀ k, (m'.node k).owner = (m.node k).owner
  id : ∀ k, (m'.node k).id = (m.node k).id
  kind : ∀ k, (m'.node k).kind = (m.node k).kind

/-- What nodes hold has no part in soundness. -/
theorem SameForest.sound (same : SameForest m m') (sound : m.Sound) : m'.Sound where
  toLinked := same.toSameLinks.linked sound.toLinked
  root_iff {k} := by rw [same.roots, same.holds_iff, same.parent]; exact sound.root_iff
  roots_nodup := same.roots ▸ sound.roots_nodup
  owner {k} held := by
    rw [same.owner, same.parent, sound.owner (same.holds_iff.1 held)]
    -- A chain's owner is read off the same nodes.
    cases (m.node k).parent with
    | none => simp
    | some link => obtain ⟨p, e⟩ := link; cases e <;> simp [ownerAt, same.owner]
  slotted {k} held head := by
    rw [same.kind]
    have target : (m'.node k).head = (m.node k).head := same.target k .child
    exact sound.slotted (same.holds_iff.1 held) (target ▸ head)
  named {a b} heldA heldB name := by
    rw [same.id, same.id] at name
    exact sound.named (same.holds_iff.1 heldA) (same.holds_iff.1 heldB) name
  solid {k} held := by
    rw [same.id]
    exact sound.solid (same.holds_iff.1 held)

theorem SameForest.refl (m : Model) : SameForest m m :=
  ⟨⟨rfl, fun _ => rfl, fun _ _ => rfl, fun _ => rfl⟩, rfl, fun _ => rfl, fun _ => rfl, fun _ => rfl⟩

theorem SameForest.trans {m'' : Model} (first : SameForest m m') (second : SameForest m' m'') :
    SameForest m m'' where
  size := second.size.trans first.size
  live k := (second.live k).trans (first.live k)
  target k e := (second.target k e).trans (first.target k e)
  parent k := (second.parent k).trans (first.parent k)
  roots := second.roots.trans first.roots
  owner k := (second.owner k).trans (first.owner k)
  id k := (second.id k).trans (first.id k)
  kind k := (second.kind k).trans (first.kind k)

/-- A change to what one node holds. -/
theorem sameForest_update (m : Model) (k : Key) (change : Node → Node)
    (kept : ∀ n, change n = { n with toContent := (change n).toContent }) :
    SameForest m (m.update k change) := by
  have node : ∀ j, ∃ content : Content,
      (m.update k change).node j = { m.node j with toContent := content } := by
    intro j
    rw [node_update]
    by_cases both : j = k ∧ k < m.nodes.size
    · rw [if_pos both, both.1]
      exact ⟨_, kept (m.node k)⟩
    · rw [if_neg both]
      exact ⟨(m.node j).toContent, rfl⟩
  refine ⟨⟨m.size_update k change, fun j => ?_, fun j e => ?_, fun j => ?_⟩, rfl, fun j => ?_,
    fun j => ?_, fun j => ?_⟩ <;> obtain ⟨content, same⟩ := node j <;> rw [same]
  cases e <;> rfl

/-! ### Creation -/

/-- The model with one more node, at the end of the top level. -/
def grown (m : Model) (id : NodeId) (kind : Kind) (content : Content) : Model :=
  { m with
    nodes := m.nodes.push { content with id := id, kind := kind }
    roots := m.roots ++ [m.nodes.size] }

theorem createNode_eq {id : NodeId} (kind : Kind) (content : Content) (free : m.find? id = none) :
    createNode id kind content m = .ok (m.nodes.size, .create id) (m.grown id kind content) := by
  simp [createNode, free, grown]

section Grown

variable (m) (id : NodeId) (kind : Kind) (content : Content) (j : Key)

theorem node_grown : (m.grown id kind content).node j =
    if j = m.nodes.size then { content with id := id, kind := kind } else m.node j := by
  simp only [node, grown, Array.getD_eq_getD_getElem?, Array.getElem?_push]
  split <;> rfl

@[simp] theorem size_grown : (m.grown id kind content).nodes.size = m.nodes.size + 1 := by
  simp [grown]

theorem holds_grown :
    (m.grown id kind content).Holds j ↔ m.Holds j ∨ j = m.nodes.size := by
  rw [Holds, Holds, node_grown, size_grown]
  by_cases new : j = m.nodes.size
  · simp [new]
  · simp [new, Nat.lt_succ_iff_lt_or_eq.trans (or_iff_left new)]

end Grown

/-- A new node has no links, and all others keep theirs. -/
theorem Linked.grown (linked : m.Linked) (id : NodeId) (kind : Kind) (content : Content) :
    (m.grown id kind content).Linked := by
  have node := m.node_grown id kind content
  have holds := m.holds_grown id kind content
  have old : ∀ {j}, m.Holds j → (m.grown id kind content).node j = m.node j := fun {j} held => by
    rw [node, if_neg (Nat.ne_of_lt held.1)]
  have new : (m.grown id kind content).node m.nodes.size = { content with id := id, kind := kind } := by
    rw [node, if_pos rfl]
  -- So what has a target is one of the old nodes.
  have source : ∀ {p e c}, (m.grown id kind content).Holds p →
      ((m.grown id kind content).node p).target? e = some c → m.Holds p ∧ (m.node p).target? e = some c := by
    intro p e c held target
    rcases (holds p).1 held with held | same
    · exact ⟨held, old held ▸ target⟩
    · rw [same, new] at target
      cases e <;> cases target
  refine ⟨fun {p e c} held target => ?_, fun {p e c} held parent => ?_, ?_⟩
  · obtain ⟨held, target⟩ := source held target
    obtain ⟨heldC, parent⟩ := linked.back held target
    rw [old heldC]
    exact ⟨(holds c).2 (.inl heldC), parent⟩
  · rcases (holds c).1 held with held | same
    · rw [old held] at parent
      obtain ⟨heldP, target⟩ := linked.forth held parent
      rw [old heldP]
      exact ⟨(holds p).2 (.inl heldP), target⟩
    · rw [same, new] at parent
      cases parent
  · obtain ⟨rank, grows⟩ := linked.ranked
    refine ⟨rank, fun p c held leads => ?_⟩
    obtain ⟨e, target⟩ := leads
    obtain ⟨held, target⟩ := source held target
    exact grows p c held ⟨e, target⟩

/-- A new node of a new name keeps a model sound. -/
theorem Sound.grown (sound : m.Sound) {id : NodeId} (solid : id.isVoid = false)
    (free : m.find? id = none) (kind : Kind) (content : Content) :
    (m.grown id kind content).Sound := by
  have node := m.node_grown id kind content
  have holds := m.holds_grown id kind content
  have old : ∀ {j}, m.Holds j → (m.grown id kind content).node j = m.node j := fun {j} held => by
    rw [node, if_neg (Nat.ne_of_lt held.1)]
  have new : (m.grown id kind content).node m.nodes.size = { content with id := id, kind := kind } := by
    rw [node, if_pos rfl]
  have apart : ∀ {j}, m.Holds j → (m.node j).id.name ≠ id.name := fun held same => by
    rw [sound.find?_eq_some_iff.2 ⟨held, same⟩] at free
    cases free
  refine { sound.toLinked.grown id kind content with
    root_iff := fun {k} => ?_, roots_nodup := ?_, owner := fun {k} held => ?_,
    slotted := fun {k} held => ?_, named := fun {a b} heldA heldB name => ?_, solid := fun {k} held => ?_ }
  · -- The new node comes last at top level.
    change k ∈ m.roots ++ [m.nodes.size] ↔ _
    rw [List.mem_append, List.mem_singleton, holds]
    by_cases same : k = m.nodes.size
    · subst same
      simp [new]
    · rw [sound.root_iff, node, if_neg same]
      simp [same]
  · change (m.roots ++ [m.nodes.size]).Nodup
    rw [List.nodup_append]
    refine ⟨sound.roots_nodup, List.nodup_singleton _, fun r root s last => ?_⟩
    rw [List.mem_singleton.1 last]
    exact Nat.ne_of_lt (sound.holds_root root).1
  · rcases (holds k).1 held with held | same
    · rw [old held, sound.owner held]
      cases parent : (m.node k).parent with
      | none => simp
      | some link =>
        obtain ⟨p, e⟩ := link
        cases e <;> simp [ownerAt, old (sound.forth held parent).1]
    · subst same
      rw [new]
      rfl
  · rcases (holds k).1 held with held | same
    · rw [old held]
      exact sound.slotted held
    · subst same
      simp [new]
  · -- Two of the old nodes have two names, and the new one has a name of its own.
    rcases (holds a).1 heldA with heldA | sameA <;> rcases (holds b).1 heldB with heldB | sameB
    · rw [old heldA, old heldB] at name
      exact sound.named heldA heldB name
    · subst sameB
      rw [old heldA, new] at name
      exact absurd name (apart heldA)
    · subst sameA
      rw [old heldB, new] at name
      exact absurd name.symm (apart heldB)
    · rw [sameA, sameB]
  · rcases (holds k).1 held with held | same
    · rw [old held]
      exact sound.solid held
    · subst same
      simpa [new] using solid

/-! ### Deletion -/

/-- The model without a node. -/
def pruned (m : Model) (k : Key) : Model :=
  { m.update k fun n => { n with live := false } with roots := m.roots.erase k }

theorem deleteNode_eq (held : m.Holds k) (root : (m.node k).parent = none)
    (last : (m.node k).next = none) (leaf : (m.node k).head = none) :
    deleteNode k m = .ok (.delete (m.node k).id) (m.pruned k) := by
  simp [deleteNode, held.2, root, last, leaf, pruned]

section Pruned

variable (m) (k j : Key)

theorem node_pruned : (m.pruned k).node j =
    if j = k ∧ k < m.nodes.size then { m.node k with live := false } else m.node j :=
  m.node_update k j _

theorem node_pruned_of_ne {k j : Key} (differ : j ≠ k) : (m.pruned k).node j = m.node j := by
  rw [node_pruned, if_neg fun both => differ both.1]

@[simp] theorem size_pruned : (m.pruned k).nodes.size = m.nodes.size := m.size_update k _

theorem holds_pruned : (m.pruned k).Holds j ↔ m.Holds j ∧ j ≠ k := by
  rw [Holds, Holds, node_pruned, size_pruned]
  by_cases same : j = k
  · subst same
    by_cases inside : j < m.nodes.size <;> simp [inside]
  · simp [same]

end Pruned

/-- A node without links goes, and all others keep theirs. -/
theorem Linked.pruned (linked : m.Linked) (root : (m.node k).parent = none)
    (leaf : ∀ e, (m.node k).target? e = none) : (m.pruned k).Linked := by
  have holds := m.holds_pruned k
  have old : ∀ {j}, j ≠ k → (m.pruned k).node j = m.node j := fun {j} differ =>
    m.node_pruned_of_ne differ
  -- Nothing links to the node, and it links to nothing.
  have source : ∀ {p e c}, m.Holds p → (m.node p).target? e = some c → c ≠ k := by
    intro p e c heldP target same
    have parent := (linked.back heldP target).2
    rw [same, root] at parent
    cases parent
  have target : ∀ {p e c}, (m.node p).target? e = some c → p ≠ k := by
    rintro p e c leads rfl
    rw [leaf] at leads
    cases leads
  refine ⟨fun {p e c} heldP leads => ?_, fun {p e c} heldC parent => ?_, ?_⟩
  · obtain ⟨heldP, differ⟩ := (holds p).1 heldP
    rw [old differ] at leads
    obtain ⟨heldC, parent⟩ := linked.back heldP leads
    have other := source heldP leads
    rw [old other]
    exact ⟨(holds c).2 ⟨heldC, other⟩, parent⟩
  · obtain ⟨heldC, differ⟩ := (holds c).1 heldC
    rw [old differ] at parent
    obtain ⟨heldP, leads⟩ := linked.forth heldC parent
    have other := target leads
    rw [old other]
    exact ⟨(holds p).2 ⟨heldP, other⟩, leads⟩
  · obtain ⟨rank, grows⟩ := linked.ranked
    refine ⟨rank, fun p c heldP leads => ?_⟩
    obtain ⟨heldP, differ⟩ := (holds p).1 heldP
    obtain ⟨e, leads⟩ := leads
    rw [old differ] at leads
    exact grows p c heldP ⟨e, leads⟩

/-- Without a node that is linked nowhere a model is as sound as with it. -/
theorem Sound.pruned (sound : m.Sound) (root : (m.node k).parent = none)
    (last : (m.node k).next = none) (leaf : (m.node k).head = none) : (m.pruned k).Sound := by
  have holds := m.holds_pruned k
  have old : ∀ {j}, j ≠ k → (m.pruned k).node j = m.node j := fun {j} differ =>
    m.node_pruned_of_ne differ
  have free : ∀ e, (m.node k).target? e = none := fun e => by cases e <;> assumption
  refine { sound.toLinked.pruned root free with
    root_iff := fun {j} => ?_, roots_nodup := sound.roots_nodup.erase k, owner := fun {j} heldJ => ?_,
    slotted := fun {j} heldJ => ?_, named := fun {a b} heldA heldB name => ?_,
    solid := fun {j} heldJ => ?_ }
  · change j ∈ m.roots.erase k ↔ _
    rw [sound.roots_nodup.mem_erase_iff, sound.root_iff, holds]
    by_cases same : j = k
    · simp [same]
    · simp [same, old same]
  · obtain ⟨heldJ, differ⟩ := (holds j).1 heldJ
    rw [old differ, sound.owner heldJ]
    cases parent : (m.node j).parent with
    | none => simp
    | some link =>
      obtain ⟨p, e⟩ := link
      -- The node is nobody's parent.
      have other : p ≠ k := fun same => by
        have leads := (sound.forth heldJ parent).2
        rw [same, free] at leads
        cases leads
      cases e <;> simp [ownerAt, old other]
  · obtain ⟨heldJ, differ⟩ := (holds j).1 heldJ
    rw [old differ]
    exact sound.slotted heldJ
  · obtain ⟨heldA, differA⟩ := (holds a).1 heldA
    obtain ⟨heldB, differB⟩ := (holds b).1 heldB
    rw [old differA, old differB] at name
    exact sound.named heldA heldB name
  · obtain ⟨heldJ, differ⟩ := (holds j).1 heldJ
    rw [old differ]
    exact sound.solid heldJ

/-! ### Links -/

/-- A link of a sound model made or cut, as far as links agree afterwards. -/
theorem Sound.rehang (sound : m.Sound) (heldParent : m.Holds parent) (heldChild : m.Holds child)
    (differ : parent ≠ child) (made : Bool) (linked : (m.relink parent edge child made).Linked)
    (fits : edge = .child → made = true → (m.node parent).kind.slot?.isSome)
    (before : (m.node child).parent = if made then none else some (parent, edge)) :
    (m.rehang parent edge child made).Sound := by
  have holds := holds_rehang edge heldParent heldChild differ made
  have above := parent_rehang edge heldParent heldChild differ made
  have target := target?_rehang edge heldParent heldChild differ made
  have bare := bare_rehang edge heldParent heldChild differ made
  constructor
  · exact (sameLinks_rehang made).linked linked
  · -- A child that is linked leaves the top level, and one that is cut off comes last there.
    intro k
    rw [holds, above]
    cases made with
    | true =>
      change k ∈ m.roots.erase child ↔ _
      rw [sound.roots_nodup.mem_erase_iff, sound.root_iff]
      by_cases same : k = child <;> simp [same]
    | false =>
      change k ∈ m.roots ++ [child] ↔ _
      rw [List.mem_append, List.mem_singleton, sound.root_iff]
      by_cases same : k = child
      · simp [same, heldChild]
      · simp [same]
  · cases made with
    | true => exact sound.roots_nodup.erase child
    | false =>
      change (m.roots ++ [child]).Nodup
      rw [List.nodup_append]
      refine ⟨sound.roots_nodup, List.nodup_singleton _, fun r root s last same => ?_⟩
      rw [List.mem_singleton.1 last] at same
      rw [same] at root
      have none := sound.parent_root root
      rw [before] at none
      cases none
  · intro k held
    exact sound.owner_rehang heldParent heldChild differ made linked ((holds k).1 held)
  · -- Only a node that has a slot for it is given a first child.
    intro k held head
    rw [(bare k).2.1]
    have same := target k .child
    by_cases new : k = parent ∧ Edge.child = edge
    · rw [if_pos new] at same
      cases made with
      | true => exact new.1 ▸ fits new.2.symm rfl
      | false =>
        change ((m.rehang parent edge child false).node k).head = none at same
        rw [same] at head
        cases head
    · rw [if_neg new] at same
      change ((m.rehang parent edge child made).node k).head = (m.node k).head at same
      exact sound.slotted ((holds k).1 held) (same ▸ head)
  · intro a b heldA heldB name
    rw [(bare a).1, (bare b).1] at name
    exact sound.named ((holds a).1 heldA) ((holds b).1 heldB) name
  · intro k held
    rw [(bare k).1]
    exact sound.solid ((holds k).1 held)

/-- The link of a name that a node has: a slot needs a kind with a slot. -/
theorem slot?_of_edge? {slot : String} {n : Node} (named : n.edge? slot = some edge)
    (isChild : edge = .child) : n.kind.slot?.isSome := by
  subst isChild
  unfold Node.edge? at named
  split at named
  · cases named
  · split at named
    · next found => simp [found]
    · cases named

theorem link_eq_of_mem {slot : String} (named : (m.node parent).edge? slot = some edge)
    (free : (m.node parent).target? edge = none) (root : (m.node child).parent = none)
    (apart : m.top parent ≠ child) (top : child ∈ m.roots) : link parent slot child m =
      .ok (.link (m.node parent).id slot (m.node child).id) (m.rehang parent edge child true) := by
  simp only [link, named, free, root, apart, top, Option.isSome_none, Bool.false_eq_true, if_false,
    if_true]
  rfl

/-- A link is made between nodes that it may join. -/
theorem exists_edge_of_link {slot : String} {event : Event}
    (made : link parent slot child m = .ok event m') : ∃ edge,
      (m.node parent).edge? slot = some edge ∧ (m.node parent).target? edge = none ∧
      (m.node child).parent = none ∧ m.top parent ≠ child ∧ child ∈ m.roots := by
  simp only [link] at made
  -- A link that was made has passed all checks.
  cases named : (m.node parent).edge? slot with
  | none =>
    simp only [named] at made
    cases made
  | some edge =>
    simp only [named] at made
    split at made
    · cases made
    split at made
    · cases made
    split at made
    · cases made
    split at made
    · next free root apart top =>
      simp only [Option.not_isSome_iff_eq_none] at free root
      exact ⟨edge, rfl, free, root, apart, top⟩
    · cases made

theorem link_eq (sound : m.Sound) (heldChild : m.Holds child) {slot : String}
    (named : (m.node parent).edge? slot = some edge) (free : (m.node parent).target? edge = none)
    (root : (m.node child).parent = none) (apart : m.top parent ≠ child) :
    link parent slot child m =
      .ok (.link (m.node parent).id slot (m.node child).id) (m.rehang parent edge child true) :=
  link_eq_of_mem named free root apart (sound.root_iff.2 ⟨heldChild, root⟩)

/-- A link that is made keeps a model sound. -/
theorem Sound.link (sound : m.Sound) (heldParent : m.Holds parent) (heldChild : m.Holds child)
    {slot : String} (named : (m.node parent).edge? slot = some edge)
    (free : (m.node parent).target? edge = none) (root : (m.node child).parent = none)
    (apart : m.top parent ≠ child) : (m.rehang parent edge child true).Sound := by
  have atop : ¬ m.Over child parent := fun atop =>
    apart ((sound.top_eq_iff heldParent root).2 atop)
  exact sound.rehang heldParent heldChild (fun same => atop (same ▸ .refl)) true
    (sound.relink_true heldParent heldChild free root atop)
    (fun isChild _ => slot?_of_edge? named isChild) root

theorem unlink_eq {slot : String} (named : (m.node parent).edge? slot = some edge)
    (leads : (m.node parent).target? edge = some child) :
    unlink parent slot m = .ok (child, .unlink (m.node parent).id slot (m.node child).id)
      (m.rehang parent edge child false) := by
  simp only [unlink, named, leads]
  rfl

/-- A link that is cut keeps a model sound. -/
theorem Sound.unlink (sound : m.Sound) (heldParent : m.Holds parent)
    (leads : (m.node parent).target? edge = some child) :
    (m.rehang parent edge child false).Sound := by
  obtain ⟨heldChild, parentChild⟩ := sound.back heldParent leads
  have differ : parent ≠ child := fun same =>
    sound.not_over_parent heldChild parentChild (same ▸ .refl)
  exact sound.rehang heldParent heldChild differ false (sound.relink_false heldParent leads)
    (fun _ made => by cases made) parentChild

/-! ### Fields -/

/-- The model with a field of a node set or removed. -/
def withField (m : Model) (k : Key) (name : String) (value : Option String) : Model :=
  m.update k fun n =>
    match value with
    | some text => { n with fields := n.fields.insert name text }
    | none => { n with fields := n.fields.erase name }

theorem setField_eq (m : Model) (k : Key) (name : String) (value : Option String) :
    setField k name value m =
      .ok (.field (m.node k).id name ((m.node k).fields.get? name) value)
        (m.withField k name value) := rfl

theorem sameForest_withField (m : Model) (k : Key) (name : String) (value : Option String) :
    SameForest m (m.withField k name value) :=
  m.sameForest_update k _ fun _ => by cases value <;> rfl

/-! ### All that an edit can do -/

/-- A creation makes a node of a new name or changes nothing. -/
theorem createNode_cases (id : NodeId) (kind : Kind) (content : Content) :
    (m.find? id = none ∧ createNode id kind content m =
      .ok (m.nodes.size, .create id) (m.grown id kind content)) ∨
    ∃ e, createNode id kind content m = .error e m := by
  cases found : m.find? id with
  | none => exact .inl ⟨rfl, createNode_eq kind content found⟩
  | some k => exact .inr ⟨_, by simp [createNode, found]; rfl⟩

/-- A deletion takes a node that is linked nowhere out of the model or changes nothing. -/
theorem deleteNode_cases (inside : k < m.nodes.size) :
    (m.Holds k ∧ (m.node k).parent = none ∧ (m.node k).next = none ∧ (m.node k).head = none ∧
      deleteNode k m = .ok (.delete (m.node k).id) (m.pruned k)) ∨
    ∃ e, deleteNode k m = .error e m := by
  by_cases live : (m.node k).live = true
  · by_cases free : (m.node k).parent = none ∧ (m.node k).next = none ∧ (m.node k).head = none
    · obtain ⟨root, last, leaf⟩ := free
      exact .inl ⟨⟨inside, live⟩, root, last, leaf, deleteNode_eq ⟨inside, live⟩ root last leaf⟩
    · have linked : ((m.node k).parent.isSome || (m.node k).next.isSome ||
          (m.node k).head.isSome) = true := by
        by_contra none
        simp only [Bool.or_eq_true, not_or, Option.not_isSome_iff_eq_none] at none
        exact free ⟨none.1.1, none.1.2, none.2⟩
      exact .inr ⟨_, by simp only [deleteNode, live, linked]; rfl⟩
  · exact .inr ⟨_, by simp only [deleteNode, live]; rfl⟩

/-- A link is made, between nodes that it may join, or it is refused and nothing changes. -/
theorem Sound.link_cases (sound : m.Sound) (parent : Key) (heldChild : m.Holds child)
    (slot : String) :
    (∃ edge, (m.node parent).edge? slot = some edge ∧ (m.node parent).target? edge = none ∧
      (m.node child).parent = none ∧ m.top parent ≠ child ∧
      Model.link parent slot child m =
        .ok (.link (m.node parent).id slot (m.node child).id) (m.rehang parent edge child true)) ∨
    ∃ subject fault, Model.link parent slot child m = .error (.refused subject fault) m := by
  -- The first check that fails decides.
  cases named : (m.node parent).edge? slot with
  | none => exact .inr ⟨_, _, by simp [Model.link, named]; exact ⟨rfl, rfl⟩⟩
  | some edge =>
    cases free : (m.node parent).target? edge with
    | some other => exact .inr ⟨_, _, by simp [Model.link, named, free]; exact ⟨rfl, rfl⟩⟩
    | none =>
      cases root : (m.node child).parent with
      | some above => exact .inr ⟨_, _, by simp [Model.link, named, free, root]; exact ⟨rfl, rfl⟩⟩
      | none =>
        by_cases apart : m.top parent = child
        · exact .inr ⟨_, _, by simp [Model.link, named, free, root, apart]; exact ⟨rfl, rfl⟩⟩
        · exact .inl ⟨edge, rfl, free, rfl, apart,
            link_eq sound heldChild named free root apart⟩

/-- A link is cut or nothing changes. -/
theorem unlink_cases (parent : Key) (slot : String) :
    (∃ edge child, (m.node parent).edge? slot = some edge ∧
      (m.node parent).target? edge = some child ∧
      unlink parent slot m = .ok (child, .unlink (m.node parent).id slot (m.node child).id)
        (m.rehang parent edge child false)) ∨
    ∃ e, unlink parent slot m = .error e m := by
  cases named : (m.node parent).edge? slot with
  | none => exact .inr ⟨_, by simp [unlink, named]; rfl⟩
  | some edge =>
    cases leads : (m.node parent).target? edge with
    | none => exact .inr ⟨_, by simp [unlink, named, leads]; rfl⟩
    | some child => exact .inl ⟨edge, child, rfl, leads, unlink_eq named leads⟩

end Model

end DocSync
