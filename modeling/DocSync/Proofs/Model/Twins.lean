import DocSync.Proofs.Model.Built

/-!
Models that the same edits have led to, with other ids handed out on the way. An edit reads the kinds,
the fields and the links of nodes, and ids only to see whether one is taken. So an edit that succeeds in
one of two such models succeeds in the other, and leads to two such models again.
-/

namespace DocSync

/-- A node without its id and without what it was read from. -/
def Node.body (n : Node) : Node := { n with id := .null, frames := .empty, origin := none }

/-- Two ids that a node may have come to have: the same one, which is none of those handed out since
then, or two of these. On the second side, so many have been handed out by now. -/
def NodeId.Twins (start count : Nat) (a b : NodeId) : Prop :=
  (b = a ∧ ∀ i, start < i → b ≠ freshId i) ∨
    ∃ i j, start < i ∧ a = freshId i ∧ start < j ∧ j ≤ count ∧ b = freshId j

namespace Model

variable {m m' m'' n n' : Model} {a b c k p parent child : Key} {edge : Edge} {slot : String}
  {start count count' : Nat} {event : Event}

/-! ### The same nodes under other ids -/

/-- Two models with the same nodes in the same places, of the same kinds and with the same fields and
links. -/
structure SameBodies (m m' : Model) : Prop where
  size : m'.nodes.size = m.nodes.size
  roots : m'.roots = m.roots
  body : ∀ k, (m'.node k).body = (m.node k).body

namespace SameBodies

theorem refl (m : Model) : SameBodies m m := ⟨rfl, rfl, fun _ => rfl⟩

theorem trans (first : SameBodies m m') (second : SameBodies m' m'') : SameBodies m m'' where
  size := second.size.trans first.size
  roots := second.roots.trans first.roots
  body k := (second.body k).trans (first.body k)

/-- A change to the id, the frames or the origin of a node. -/
theorem of_update (m : Model) (k : Key) {change : Node → Node} (kept : ∀ n, (change n).body = n.body) :
    SameBodies m (m.update k change) where
  size := m.size_update k change
  roots := rfl
  body j := by
    rw [node_update]
    split
    · next here => rw [kept, here.1]
    · rfl

variable (same : SameBodies m m')
include same

theorem kind (k : Key) : (m'.node k).kind = (m.node k).kind := (congrArg Node.kind (same.body k) :)

theorem fields (k : Key) : (m'.node k).fields = (m.node k).fields :=
  (congrArg (fun n => n.fields) (same.body k) :)

theorem head (k : Key) : (m'.node k).head = (m.node k).head := (congrArg Node.head (same.body k) :)

theorem next (k : Key) : (m'.node k).next = (m.node k).next := (congrArg Node.next (same.body k) :)

theorem above (k : Key) : (m'.node k).parent = (m.node k).parent :=
  (congrArg Node.parent (same.body k) :)

theorem owner (k : Key) : (m'.node k).owner = (m.node k).owner := (congrArg Node.owner (same.body k) :)

theorem live (k : Key) : (m'.node k).live = (m.node k).live := (congrArg Node.live (same.body k) :)

theorem target (k : Key) (e : Edge) : (m'.node k).target? e = (m.node k).target? e := by
  cases e with
  | child => exact same.head k
  | next => exact same.next k

theorem edgeName (k : Key) (e : Edge) : (m'.node k).edgeName e = (m.node k).edgeName e := by
  cases e with
  | child => exact congrArg (fun kind => kind.slot?.getD "") (same.kind k)
  | next => rfl

theorem edge? (k : Key) (name : String) : (m'.node k).edge? name = (m.node k).edge? name := by
  rw [Node.edge?, Node.edge?, same.kind]

theorem holds_iff : m'.Holds k ↔ m.Holds k := by
  rw [Holds, Holds, same.size, same.live]

/-! ### What an edit reads of the links -/

theorem chainFrom (fuel : Nat) (link : Option Key) : m'.chainFrom fuel link = m.chainFrom fuel link := by
  induction fuel generalizing link with
  | zero => rfl
  | succ fuel ih =>
    cases link with
    | none => rfl
    | some k => rw [Model.chainFrom, Model.chainFrom, same.next, ih]

theorem chain (k : Key) : m'.chain k = m.chain k := by
  rw [Model.chain, Model.chain, same.size, same.chainFrom]

theorem childrenAt (k : Key) (slot : String) : m'.childrenAt k slot = m.childrenAt k slot := by
  rw [Model.childrenAt, Model.childrenAt, same.kind, children, children, same.size, same.head,
    same.chainFrom]

theorem topFrom (fuel : Nat) (k : Key) : m'.topFrom fuel k = m.topFrom fuel k := by
  induction fuel generalizing k with
  | zero => rfl
  | succ fuel ih =>
    rw [Model.topFrom, Model.topFrom, same.above, same.owner]
    cases (m.node k).parent with
    | none => rfl
    | some above => exact ih _

theorem top (k : Key) : m'.top k = m.top k := by
  rw [Model.top, Model.top, same.size, same.topFrom]

theorem treesFrom (fuel : Nat) (link : Option Key) : m'.treesFrom fuel link = m.treesFrom fuel link := by
  induction fuel generalizing link with
  | zero => rfl
  | succ fuel ih =>
    cases link with
    | none => rfl
    | some k => rw [Model.treesFrom, Model.treesFrom, same.head, same.next, ih, ih]

theorem subtree (k : Key) : m'.subtree k = m.subtree k := by
  rw [Model.subtree, Model.subtree, tree, tree, same.size, same.head, same.treesFrom]

theorem ownerAt (k : Key) (e : Edge) : m'.ownerAt k e = m.ownerAt k e := by
  cases e with
  | child => rfl
  | next => exact same.owner k

/-! ### What an edit does to the nodes -/

/-- The same change of a node under one key, which pays no heed to ids, frames and origins. -/
theorem update (k : Key) {change : Node → Node} (blind : ∀ n, (change n).body = change n.body) :
    SameBodies (m.update k change) (m'.update k change) where
  size := by rw [size_update, size_update, same.size]
  roots := same.roots
  body j := by
    rw [node_update, node_update, same.size]
    split
    · rw [blind, same.body, ← blind]
    · exact same.body j

theorem setOwner (owner : Option Key) (chain : List Key) :
    SameBodies (m.setOwner owner chain) (m'.setOwner owner chain) := by
  unfold Model.setOwner
  induction chain generalizing m m' with
  | nil => exact same
  | cons k rest ih => exact ih (same.update k fun _ => rfl)

theorem relink (parent : Key) (edge : Edge) (child : Key) (made : Bool) :
    SameBodies (m.relink parent edge child made) (m'.relink parent edge child made) :=
  (same.update parent fun n => by cases edge <;> rfl).update child fun _ => rfl

theorem rehang (parent : Key) (edge : Edge) (child : Key) (made : Bool) :
    SameBodies (m.rehang parent edge child made) (m'.rehang parent edge child made) := by
  have linked := same.relink parent edge child made
  refine ⟨?_, ?_, fun k => ?_⟩
  · rw [size_rehang, size_rehang, same.size]
  · rw [Model.rehang, Model.rehang, same.roots]
  · -- The same chain comes to the same owner.
    show (((m'.relink parent edge child made).setOwner (if made then m'.ownerAt parent edge else none)
      ((m'.relink parent edge child made).chain child)).node k).body = _
    rw [same.ownerAt, linked.chain]
    exact (linked.setOwner _ _).body k

theorem grown (id id' : NodeId) (kind : Kind) (content : Content) :
    SameBodies (m.grown id kind content) (m'.grown id' kind content) where
  size := by rw [size_grown, size_grown, same.size]
  roots := by rw [Model.grown, Model.grown, same.size, same.roots]
  body k := by
    rw [node_grown, node_grown, same.size]
    split
    · rfl
    · exact same.body k

theorem pruned (k : Key) : SameBodies (m.pruned k) (m'.pruned k) := by
  have gone : SameBodies (m.update k fun n => { n with live := false })
      (m'.update k fun n => { n with live := false }) := same.update k fun _ => rfl
  -- Only the top level is brought up to date after that.
  exact ⟨gone.size, congrArg (·.erase k) same.roots, gone.body⟩

theorem withField (k : Key) (name : String) (value : Option String) :
    SameBodies (m.withField k name value) (m'.withField k name value) :=
  same.update k fun n => by cases value <;> rfl

end SameBodies

/-! ### Nodes under the ids that they had -/

/-- No node has come to be held, and none has got another id. -/
structure SameNames (m m' : Model) : Prop where
  size : m'.nodes.size = m.nodes.size
  id : ∀ k, (m'.node k).id = (m.node k).id
  live : ∀ k, (m'.node k).live = true → (m.node k).live = true

namespace SameNames

theorem refl (m : Model) : SameNames m m := ⟨rfl, fun _ => rfl, fun _ live => live⟩

theorem trans (first : SameNames m m') (second : SameNames m' m'') : SameNames m m'' where
  size := second.size.trans first.size
  id k := (second.id k).trans (first.id k)
  live k held := first.live k (second.live k held)

theorem holds (same : SameNames m m') (held : m'.Holds k) : m.Holds k :=
  ⟨same.size ▸ held.1, same.live k held.2⟩

theorem update (m : Model) (k : Key) {change : Node → Node} (id : ∀ n, (change n).id = n.id)
    (live : ∀ n, (change n).live = true → n.live = true) : SameNames m (m.update k change) where
  size := m.size_update k change
  id j := by
    rw [node_update]
    split
    · next here => rw [id, here.1]
    · rfl
  live j held := by
    rw [node_update] at held
    split at held
    · next here => exact here.1 ▸ live _ held
    · exact held

theorem setOwner (m : Model) (owner : Option Key) (chain : List Key) :
    SameNames m (m.setOwner owner chain) := by
  unfold Model.setOwner
  induction chain generalizing m with
  | nil => exact refl m
  | cons k rest ih =>
    have first : SameNames m (m.update k fun n => { n with owner := owner }) :=
      update m k (fun _ => rfl) fun _ live => live
    exact first.trans (ih _)

theorem rehang (m : Model) (parent : Key) (edge : Edge) (child : Key) (made : Bool) :
    SameNames m (m.rehang parent edge child made) := by
  have led : SameNames m
      (m.update parent fun n => n.retarget edge (if made then some child else none)) :=
    update m parent (fun n => by cases edge <;> rfl) fun n live => by cases edge <;> exact live
  have linked : SameNames m (m.relink parent edge child made) :=
    led.trans (update _ child (fun _ => rfl) fun _ live => live)
  have owned := linked.trans (setOwner _ (if made then m.ownerAt parent edge else none)
    ((m.relink parent edge child made).chain child))
  -- What is left is the top level, which is no matter of names.
  exact ⟨owned.size, owned.id, owned.live⟩

theorem pruned (m : Model) (k : Key) : SameNames m (m.pruned k) := by
  have gone : SameNames m (m.update k fun n => { n with live := false }) :=
    update m k (fun _ => rfl) fun _ live => by cases live
  exact ⟨gone.size, gone.id, gone.live⟩

theorem withField (m : Model) (k : Key) (name : String) (value : Option String) :
    SameNames m (m.withField k name value) :=
  update m k (fun n => by cases value <;> rfl) fun n live => by cases value <;> exact live

end SameNames

/-- An id is free just when no node goes by its name. -/
theorem find?_eq_none_iff {id : NodeId} :
    m.find? id = none ↔ ∀ k, m.Holds k → (m.node k).id.name ≠ id.name := by
  rw [find?, named?, Array.findIdx?_eq_none_iff]
  constructor
  · intro free k held same
    -- The node itself is one that the search has passed by.
    have inside : m.node k ∈ m.nodes := by simp [node, held.1]
    have other := free (m.node k) inside
    rw [held.2, same] at other
    simp at other
  · intro free node inside
    obtain ⟨k, bound, rfl⟩ := Array.mem_iff_getElem.1 inside
    have here : m.node k = m.nodes[k] := by simp [Model.node, bound]
    -- The search looks at the nodes that the model holds, and passes by all others.
    by_cases live : (m.nodes[k]).live = true
    · simpa [here, live] using free k ⟨bound, here ▸ live⟩
    · simp [live]

/-! ### Twins -/

/-- Two models that the same edits have led to since so many ids had been handed out: they have the
same nodes, under the same ids or under such as have been handed out since then. -/
structure Twins (start count : Nat) (m n : Model) : Prop extends SameBodies m n where
  id : ∀ {k}, n.Holds k → NodeId.Twins start count (m.node k).id (n.node k).id

namespace Twins

/-- A model is its own twin, as long as it uses no id that is to come. -/
theorem refl (unspent : ∀ {k i}, m.Holds k → start < i → (m.node k).id ≠ freshId i) :
    Twins start start m m where
  toSameBodies := .refl m
  id held := .inl ⟨rfl, fun _ later => unspent held later⟩

variable (twins : Twins start count m n)
include twins

/-- More ids may be handed out. -/
theorem mono (more : count ≤ count') : Twins start count' m n where
  toSameBodies := twins.toSameBodies
  id held := (twins.id held).imp_right fun ⟨i, j, later, id, later', bound, id'⟩ =>
    ⟨i, j, later, id, later', bound.trans more, id'⟩

/-- A change of the second model that its bodies and names do not show. -/
theorem trans (same : SameBodies n n') (names : SameNames n n') : Twins start count m n' where
  toSameBodies := twins.toSameBodies.trans same
  id {k} held := by
    rw [names.id]
    exact twins.id (names.holds held)

/-- Changes that bodies show alike, and names do not show. -/
theorem changed (same : SameBodies m' n') (names : SameNames m m') (names' : SameNames n n') :
    Twins start count m' n' where
  toSameBodies := same
  id {k} held := by
    rw [names.id, names'.id]
    exact twins.id (names'.holds held)

/-! ### Edits of twins -/

/-- An id that is given to both models is free in the second if it is free in the first. -/
theorem find?_given {id : NodeId} (free : m.find? id = none) (given : ∀ i, start < i → id ≠ freshId i) :
    n.find? id = none := by
  rw [find?_eq_none_iff] at free ⊢
  intro k held name
  -- A node of that name is one of the first model too, or it has an id that is never given.
  rcases twins.id held with ⟨same, -⟩ | ⟨i, j, -, -, later, -, id'⟩
  · exact free k (twins.holds_iff.1 held) (same ▸ name)
  · rw [id'] at name
    exact given j later (NodeId.name_eq_text_iff.1 name.symm)

/-- The id that comes next is free. -/
theorem find?_freshId (started : start ≤ count) : n.find? (freshId (count + 1)) = none := by
  rw [find?_eq_none_iff]
  intro k held name
  have same : (n.node k).id = freshId (count + 1) := NodeId.name_eq_text_iff.1 name
  -- It is none of the ids that were there, nor of those that have come since.
  rcases twins.id held with ⟨-, other⟩ | ⟨i, j, -, -, -, bound, id⟩
  · exact other (count + 1) (Nat.lt_succ_of_le started) same
  · have := Build.freshId_injective (id.symm.trans same)
    omega

/-- A node that is made in both models. -/
theorem grown {id id' : NodeId} (ids : NodeId.Twins start count id id') (kind : Kind)
    (content : Content) : Twins start count (m.grown id kind content) (n.grown id' kind content) where
  toSameBodies := twins.toSameBodies.grown id id' kind content
  id {k} held := by
    rw [node_grown, node_grown, twins.size]
    -- The new nodes have the same key, because the models have made equally many.
    by_cases new : k = m.nodes.size
    · rw [if_pos new, if_pos new]
      exact ids
    · rw [if_neg new, if_neg new]
      exact twins.id (((n.holds_grown id' kind content k).1 held).resolve_right (twins.size ▸ new))

theorem createNode {id id' : NodeId} {kind : Kind} {content : Content}
    (ids : NodeId.Twins start count id id') (free : m.find? id = none → n.find? id' = none)
    (made : Model.createNode id kind content m = .ok (k, event) m') :
    ∃ event' n', Model.createNode id' kind content n = .ok (k, event') n' ∧ Twins start count m' n' := by
  rcases m.createNode_cases id kind content with ⟨new, does⟩ | ⟨e, failed⟩
  · cases made.symm.trans does
    exact ⟨_, _, twins.size ▸ createNode_eq kind content (free new), twins.grown ids kind content⟩
  · cases made.symm.trans failed

theorem deleteNode (made : Model.deleteNode k m = .ok event m') :
    ∃ event' n', Model.deleteNode k n = .ok event' n' ∧ Twins start count m' n' := by
  simp only [Model.deleteNode] at made ⊢
  rw [twins.live, twins.above, twins.next, twins.head]
  split at made
  · cases made
  · next live =>
    rw [if_neg live]
    split at made
    · cases made
    · next free =>
      rw [if_neg free]
      cases made
      exact ⟨_, _, rfl, twins.changed (twins.toSameBodies.pruned k) (.pruned m k) (.pruned n k)⟩

theorem link (made : Model.link parent slot child m = .ok event m') :
    ∃ event' n', Model.link parent slot child n = .ok event' n' ∧ Twins start count m' n' := by
  -- All that a link asks for is asked of bodies.
  obtain ⟨edge, named, free, root, apart, top⟩ := exists_edge_of_link made
  cases made.symm.trans (link_eq_of_mem named free root apart top)
  have linked : Model.link parent slot child n = .ok _ _ :=
    link_eq_of_mem ((twins.edge? parent slot).trans named) ((twins.target parent edge).trans free)
      ((twins.above child).trans root) (twins.top parent ▸ apart) (twins.roots ▸ top)
  exact ⟨_, _, linked, twins.changed (twins.toSameBodies.rehang parent edge child true)
    (.rehang m parent edge child true) (.rehang n parent edge child true)⟩

theorem unlink (made : Model.unlink parent slot m = .ok (child, event) m') :
    ∃ event' n', Model.unlink parent slot n = .ok (child, event') n' ∧ Twins start count m' n' := by
  rcases m.unlink_cases parent slot with ⟨edge, c, named, leads, does⟩ | ⟨e, failed⟩
  · cases made.symm.trans does
    exact ⟨_, _, unlink_eq ((twins.edge? parent slot).trans named) ((twins.target parent edge).trans leads),
      twins.changed (twins.toSameBodies.rehang parent edge child false)
        (.rehang m parent edge child false) (.rehang n parent edge child false)⟩
  · cases made.symm.trans failed

theorem setField {name : String} {value : Option String}
    (made : Model.setField k name value m = .ok event m') :
    ∃ event' n', Model.setField k name value n = .ok event' n' ∧ Twins start count m' n' := by
  rw [setField_eq] at made
  cases made
  exact ⟨_, _, n.setField_eq k name value, twins.changed (twins.toSameBodies.withField k name value)
    (.withField m k name value) (.withField n k name value)⟩

end Twins

end Model

end DocSync
