import DocSync.Proofs.Model.Reachable
import Mathlib.Logic.Relation

/-!
What an editor may rely on in every model it comes to. The index of ids, the order of the document,
the top level, the links back and the owners of chains are kept side by side; they are views of one
forest, also after a call that was refused half-way.
-/

namespace DocSync

variable {m : Model} {c k p r x : Key} {e : Edge} {link : Option Key}

namespace Model

/-- A chain leads from one of its nodes to another one, or to the same. -/
def Follows (m : Model) : Key → Key → Prop :=
  Relation.ReflTransGen fun a b => (m.node a).next = some b

/-- A node of the model links to another node. -/
def Holding (m : Model) (p c : Key) : Prop := m.Holds p ∧ m.Leads p c

/-- The nodes met by a walk that starts at a link. -/
def orderAt (m : Model) (link : Option Key) : List Key := link.elim [] m.subtreeAndNext

/-- The views that a model offers of its nodes are views of one forest. -/
structure Coherent (m : Model) : Prop where
  /-- An id finds the one node of the model that goes by its name. -/
  index : ∀ {id k}, m.find? id = some k ↔ m.Holds k ∧ (m.node k).id.name = id.name
  /-- The document lists every node of the index and nothing else. -/
  listed : ∀ {k}, k ∈ m.order ↔ m.find? (m.node k).id = some k
  listed_once : m.order.Nodup
  /-- Each node comes first, then all that its slot holds, and only then its next sibling. -/
  preorder : ∀ {k}, m.Holds k → m.subtreeAndNext k =
    k :: (m.orderAt (m.node k).head ++ m.orderAt (m.node k).next)
  /-- The top level lists the nodes without parent. -/
  top : ∀ {k}, k ∈ m.roots ↔ m.Holds k ∧ (m.node k).parent = none
  top_once : m.roots.Nodup
  /-- A node has a parent just when that node's link holds it. -/
  parent : ∀ {p e c}, m.Holds c →
    ((m.node c).parent = some (p, e) ↔ m.Holds p ∧ (m.node p).target? e = some c)
  /-- No link leads out of the model. -/
  target : ∀ {p e c}, m.Holds p → (m.node p).target? e = some c → m.Holds c
  /-- A container is the slot whose chain comes to the node. -/
  contained : ∀ {x p slot}, m.Holds x → (m.container? x = some (p, slot) ↔
    m.Holds p ∧ (m.node p).kind.slot? = some slot ∧
      ∃ head, (m.node p).head = some head ∧ m.Follows head x)
  /-- Without container are the nodes of the chains at top level. -/
  uncontained : ∀ {x}, m.Holds x → (m.container? x = none ↔ ∃ r ∈ m.roots, m.Follows r x)
  acyclic : ∀ {k}, ¬ Relation.TransGen m.Holding k k

theorem container?_eq_some_iff {slot : String} : m.container? x = some (p, slot) ↔
    (m.node x).owner = some p ∧ (m.node p).edgeName .child = slot := by
  cases owner : (m.node x).owner with
  | none => simp [container?, owner]
  | some a =>
    simp only [container?, owner, Option.map_some, Option.some.injEq, Prod.mk.injEq]
    constructor
    · rintro ⟨rfl, name⟩
      exact ⟨rfl, name⟩
    · rintro ⟨rfl, name⟩
      exact ⟨rfl, name⟩

theorem container?_eq_none_iff : m.container? x = none ↔ (m.node x).owner = none := by
  simp [container?]

/-- A chain consists of the nodes that its first one leads to. -/
theorem Linked.mem_chainAt_iff_follows (linked : m.Linked) (held : m.Holds k) :
    x ∈ m.chainAt (some k) ↔ m.Follows k x := by
  constructor
  · -- The chain is taken apart from its first node on.
    refine linked.descend (motive := fun k => x ∈ m.chainAt (some k) → m.Follows k x)
      (fun k held ih member => ?_) held
    rw [linked.chainAt_some held] at member
    rcases List.mem_cons.1 member with same | later
    · exact same ▸ .refl
    · cases next : (m.node k).next with
      | none => simp [next] at later
      | some c =>
        rw [next] at later
        exact Relation.ReflTransGen.head next (ih c ⟨.next, next⟩ later)
  · intro follows
    induction follows with
    | refl => rw [linked.chainAt_some held]; exact List.mem_cons_self
    | tail _ next ih => exact (linked.mem_chainAt_some held).2 (.inr ⟨_, ih, next⟩)

namespace Sound

variable (sound : m.Sound)
include sound

theorem subtreeAndNext_eq (held : m.Holds k) : m.subtreeAndNext k =
    k :: (m.orderAt (m.node k).head ++ m.orderAt (m.node k).next) := by
  -- A link without target has no trees, and the trees of any other are those of its node.
  have part : ∀ link, Tree.preorderAll (m.treesAt link) = m.orderAt link := by
    intro link
    cases link with
    | none => simp [orderAt]
    | some c => rfl
  rw [subtreeAndNext, chainTrees_eq, sound.treesAt_some held, tree_eq, Tree.preorderAll_cons,
    Tree.preorder_node, part, part, List.cons_append]

/-- The slot around a node is the one whose chain it stands in. -/
theorem owner_eq_some_iff (held : m.Holds x) : (m.node x).owner = some p ↔
    m.Holds p ∧ ∃ head, (m.node p).head = some head ∧ m.Follows head x := by
  -- A node of the model owns what stands in the chain of its slot.
  have owns : m.Holds p → ((m.node x).owner = some p ↔
      ∃ head, (m.node p).head = some head ∧ m.Follows head x) := by
    intro above
    rw [← sound.mem_children_iff above held, children_eq]
    cases head : (m.node p).head with
    | none => simp
    | some c =>
      simp [sound.mem_chainAt_iff_follows (sound.back (e := .child) above head).1]
  constructor
  · intro owned
    have above := sound.holds_of_over held (sound.over_of_owner held owned).1
    exact ⟨above, (owns above).1 owned⟩
  · rintro ⟨above, chain⟩
    exact (owns above).2 chain

/-- A node without a slot around it stands in a chain at top level. -/
theorem owner_eq_none_iff (held : m.Holds x) :
    (m.node x).owner = none ↔ ∃ r ∈ m.roots, m.Follows r x := by
  constructor
  · -- The way back along the chain ends at a node without parent.
    intro free
    obtain ⟨rank, grows⟩ := sound.ranked
    induction size : rank x using Nat.strongRecOn generalizing x with
    | ind n ih =>
      have owner := sound.owner held
      rw [free] at owner
      cases parent : (m.node x).parent with
      | none => exact ⟨x, sound.root_iff.2 ⟨held, parent⟩, .refl⟩
      | some above =>
        obtain ⟨p, e⟩ := above
        obtain ⟨heldP, target⟩ := sound.forth held parent
        rw [parent, Option.bind_some] at owner
        cases e with
        | child => cases owner
        | next =>
          obtain ⟨r, root, follows⟩ :=
            ih (rank p) (size ▸ grows p x heldP ⟨.next, target⟩) heldP owner.symm rfl
          exact ⟨r, root, follows.tail target⟩
  · rintro ⟨r, root, follows⟩
    have top := sound.holds_root root
    rw [sound.owner_of_mem_chainAt top ((sound.mem_chainAt_iff_follows top).2 follows),
      sound.owner_root root]

/-- At top level are the nodes without a slot around them. -/
theorem mem_top_iff : x ∈ m.roots.flatMap m.chain ↔ m.Holds x ∧ (m.node x).owner = none := by
  rw [List.mem_flatMap]
  constructor
  · rintro ⟨r, root, inside⟩
    have top := sound.holds_root root
    exact ⟨(sound.over_of_mem_chainAt top inside).2,
      by rw [sound.owner_of_mem_chainAt top inside, sound.owner_root root]⟩
  · rintro ⟨held, free⟩
    obtain ⟨r, root, follows⟩ := (sound.owner_eq_none_iff held).1 free
    exact ⟨r, root, (sound.mem_chainAt_iff_follows (sound.holds_root root)).2 follows⟩

/-- Whoever has a slot around it is in a slot of a kind that has one. -/
theorem slot_of_head {head : Key} (held : m.Holds p) (target : (m.node p).head = some head) :
    (m.node p).kind.slot? = some ((m.node p).edgeName .child) := by
  obtain ⟨slot, known⟩ := Option.isSome_iff_exists.1 (sound.slotted held (by simp [target]))
  simp [Node.edgeName, known]

/-- No walk along links comes back to where it started. -/
theorem not_transGen_holding : ¬ Relation.TransGen m.Holding k k := by
  obtain ⟨rank, grows⟩ := sound.ranked
  have rises : ∀ {a b}, Relation.TransGen m.Holding a b → rank a < rank b := by
    intro a b walk
    induction walk with
    | single link => exact grows _ _ link.1 link.2
    | tail _ link ih => exact Nat.lt_trans ih (grows _ _ link.1 link.2)
  exact fun walk => Nat.lt_irrefl _ (rises walk)

theorem coherent : m.Coherent where
  index := sound.find?_eq_some_iff
  listed := by
    intro k
    rw [sound.mem_order, sound.find?_eq_some_iff]
    simp
  listed_once := sound.nodup_order
  preorder := sound.subtreeAndNext_eq
  top := sound.root_iff
  top_once := sound.roots_nodup
  parent := fun held => ⟨fun parent => sound.forth held parent, fun ⟨above, target⟩ =>
    (sound.back above target).2⟩
  target := fun held target => (sound.back held target).1
  contained := by
    intro x p slot held
    -- An owner is kept for each node of a chain, and its slot is that of the kind.
    rw [container?_eq_some_iff, sound.owner_eq_some_iff held]
    constructor
    · rintro ⟨⟨above, head, target, follows⟩, rfl⟩
      exact ⟨above, sound.slot_of_head above target, head, target, follows⟩
    · rintro ⟨above, slot, head, target, follows⟩
      exact ⟨⟨above, head, target, follows⟩,
        Option.some.inj ((sound.slot_of_head above target).symm.trans slot)⟩
  uncontained := fun held => container?_eq_none_iff.trans (sound.owner_eq_none_iff held)
  acyclic := sound.not_transGen_holding

end Sound

end Model

/-- What was replayed can be taken back, in whole or not at all, and the editor stays where it can
come to by calls. -/
theorem Reachable.undone {w : Workspace} (reached : Reachable w) (applied : Applied) :
    Reachable (endOf (Build.host.undo applied) w) := by
  have step := reached.edited (.apply applied.inverses.reverse)
  -- The call drops what the replay returns, and ends where the replay ends.
  have same : endOf ((Call.apply applied.inverses.reverse).run Build.host) w =
      endOf (Build.host.undo applied) w := by
    simp only [Call.run, Host.undo, endOf, discard, Functor.discard, Functor.mapConst, EStateM.map,
      Function.comp]
    cases Build.host.applyEntries applied.inverses.reverse w <;> rfl
  exact same ▸ step

/-- In whatever the editor comes to, the index, the order, the top level, the links and the
containers agree. -/
theorem coherent_of_reachable {w : Workspace} (reached : Reachable w) : w.model.Coherent :=
  reached.sound.coherent

/-- A call that puts an item behind the one before it, where it stands already. The items are parted
and joined again before the call is refused. -/
def misplacing : Call := .insertAfter "n2" "n3"

theorem coherent_of_misplacing :
    (misplacing.run Build.host (readIn "[1, 2, 3]" 0) matches .error ..) = true ∧
      (afterCalls (readIn "[1, 2, 3]" 0) [misplacing]).model.order = [0, 1, 2, 3] ∧
      (afterCalls (readIn "[1, 2, 3]" 0) [misplacing]).model.Coherent :=
  ⟨by decide +kernel, by decide +kernel,
    coherent_of_reachable ((reachable_readIn "[1, 2, 3]" 0).afterCalls [misplacing])⟩

end DocSync
