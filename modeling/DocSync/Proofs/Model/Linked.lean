import DocSync.Model.Edit
import DocSync.Model.Forest
import Mathlib.Data.List.Chain
import Mathlib.Data.List.Nodup
import Mathlib.Data.List.Perm.Subperm

/-!
The links of a model: what it holds, which node stands above which, and why every walk along links
comes to an end. The walks of the model count their steps down from its size; a walk never meets a
node twice, so that count is enough.
-/

namespace DocSync

theorem Kind.slot?_ne_nextName (kind : Kind) : kind.slot?.getD "" ≠ nextName := by
  cases kind <;> decide

/-- Slots have names of their own, so the name of a link tells its edge. -/
theorem Node.edgeName_injective (n : Node) {e e' : Edge} (same : n.edgeName e = n.edgeName e') :
    e = e' := by
  cases e <;> cases e'
  · rfl
  · exact absurd same n.kind.slot?_ne_nextName
  · exact absurd same.symm n.kind.slot?_ne_nextName
  · rfl

/-- Nodes of one kind call their links alike. -/
theorem Node.edgeName_congr {n n' : Node} (same : n.kind = n'.kind) (e : Edge) :
    n.edgeName e = n'.edgeName e := by
  cases e <;> simp [edgeName, same]

/-- The name of a link is that of the edge it takes. -/
theorem Node.edge?_edgeName (n : Node) (e : Edge)
    (slotted : e = .child → n.kind.slot?.isSome) : n.edge? (n.edgeName e) = some e := by
  cases e with
  | next => rfl
  | child =>
    obtain ⟨slot, found⟩ := Option.isSome_iff_exists.1 (slotted rfl)
    have other := n.kind.slot?_ne_nextName
    simp only [found, Option.getD_some] at other
    simp [Node.edge?, Node.edgeName, found, other]

theorem Node.edgeName_of_edge? {n : Node} {slot : String} {edge : Edge}
    (named : n.edge? slot = some edge) : n.edgeName edge = slot := by
  unfold Node.edge? at named
  split at named
  · next same =>
    cases named
    exact same.symm
  · split at named
    · next found =>
      cases named
      simp [Node.edgeName, found]
    · cases named

namespace Model

variable {m : Model} {a b c k p : Key} {e : Edge}

/-- The model holds a node under a key. -/
def Holds (m : Model) (k : Key) : Prop := k < m.nodes.size ∧ (m.node k).live = true

instance (m : Model) (k : Key) : Decidable (m.Holds k) := inferInstanceAs (Decidable (_ ∧ _))

/-- A link leads from one node to another. -/
def Leads (m : Model) (p c : Key) : Prop := ∃ e, (m.node p).target? e = some c

/-- Links and the links back agree, and no walk along links returns: some rank grows with every
link. -/
structure Linked (m : Model) : Prop where
  back : ∀ {p e c}, m.Holds p → (m.node p).target? e = some c →
    m.Holds c ∧ (m.node c).parent = some (p, e)
  forth : ∀ {p e c}, m.Holds c → (m.node c).parent = some (p, e) →
    m.Holds p ∧ (m.node p).target? e = some c
  ranked : ∃ rank : Key → Nat, ∀ p c, m.Holds p → m.Leads p c → rank p < rank c

/-- A node is another one, or stands above it. -/
inductive Over (m : Model) (a : Key) : Key → Prop
  | refl : Over m a a
  | step {p c : Key} {e : Edge} : Over m a p → m.Holds c → (m.node c).parent = some (p, e) →
      Over m a c

/-- Nodes along links, each from the one before it. -/
structure Walk (m : Model) (walk : List Key) : Prop where
  linked : walk.IsChain m.Leads
  held : ∀ k ∈ walk, m.Holds k

/-- The node under a key after a change to one node. -/
theorem node_update (m : Model) (k j : Key) (change : Node → Node) :
    (m.update k change).node j =
      if j = k ∧ k < m.nodes.size then change (m.node k) else m.node j := by
  unfold node update
  simp only [Array.getD_eq_getD_getElem?, Array.getElem?_modify]
  by_cases same : k = j
  · subst same
    by_cases inside : k < m.nodes.size <;> simp [inside]
  · simp [same, Ne.symm same]

/-- A change to one node leaves the arena as large as it was. -/
@[simp] theorem size_update (m : Model) (k : Key) (change : Node → Node) :
    (m.update k change).nodes.size = m.nodes.size := by
  simp [update]

namespace Over

theorem trans (upper : m.Over a b) (lower : m.Over b c) : m.Over a c := by
  induction lower with
  | refl => exact upper
  | step _ held parent ih => exact ih.step held parent

/-- A node that stands over a node without parent is that node. -/
theorem eq_of_root (atop : m.Over a k) (root : (m.node k).parent = none) : a = k := by
  cases atop with
  | refl => rfl
  | step _ _ parent => rw [root] at parent; cases parent

/-- A node over another one is that node, or stands over its parent. -/
theorem parent_of_ne (atop : m.Over a k) (differ : a ≠ k) (parent : (m.node k).parent = some (p, e)) :
    m.Over a p := by
  cases atop with
  | refl => exact absurd rfl differ
  | step above _ link =>
    rw [parent] at link
    cases link
    exact above

/-- Of two nodes over a third, one stands over the other. -/
theorem total (left : m.Over a k) (right : m.Over b k) : m.Over a b ∨ m.Over b a := by
  induction left with
  | refl => exact .inr right
  | @step p c e above held parent ih =>
    by_cases same : b = c
    · subst same
      exact .inl (above.step held parent)
    · exact ih (right.parent_of_ne same parent)

end Over

namespace Linked

variable (linked : m.Linked)
include linked

/-- Whatever a node of the model leads to is a node of the model. -/
theorem holds_of_leads (held : m.Holds p) (leads : m.Leads p c) : m.Holds c :=
  (linked.back held leads.choose_spec).1

/-- A node that leads to another one stands over it. -/
theorem over_of_leads (held : m.Holds p) (leads : m.Leads p c) : m.Over p c :=
  let ⟨_, target⟩ := leads
  let ⟨child, parent⟩ := linked.back held target
  Over.refl.step child parent

theorem leads_of_parent (held : m.Holds c) (parent : (m.node c).parent = some (p, e)) :
    m.Leads p c :=
  ⟨e, (linked.forth held parent).2⟩

/-- What stands over a node of the model is a node of the model. -/
theorem holds_of_over (held : m.Holds k) (atop : m.Over a k) : m.Holds a := by
  induction atop with
  | refl => exact held
  | step _ child parent ih => exact ih (linked.forth child parent).1

/-- Whatever grows along links is greater below than above. -/
theorem lt_of_over {rank : Key → Nat} (grows : ∀ p c, m.Holds p → m.Leads p c → rank p < rank c)
    (atop : m.Over a b) : a = b ∨ rank a < rank b := by
  induction atop with
  | refl => exact .inl rfl
  | step _ child parent ih =>
    have less := grows _ _ (linked.forth child parent).1 (linked.leads_of_parent child parent)
    rcases ih with rfl | lower
    · exact .inr less
    · exact .inr (lower.trans less)

/-- No node but itself is both above and below a node. -/
theorem over_antisymm (upper : m.Over a b) (lower : m.Over b a) : a = b := by
  obtain ⟨rank, grows⟩ := linked.ranked
  rcases linked.lt_of_over grows upper with same | up
  · exact same
  · rcases linked.lt_of_over grows lower with same | down
    · exact same.symm
    · exact absurd (up.trans down) (Nat.lt_irrefl _)

/-- A child does not stand over its parent. -/
theorem not_over_parent (held : m.Holds c) (parent : (m.node c).parent = some (p, e)) :
    ¬ m.Over c p := by
  intro atop
  have same : c = p := linked.over_antisymm atop (Over.refl.step held parent)
  obtain ⟨rank, grows⟩ := linked.ranked
  have less := grows _ _ (linked.forth held parent).1 (linked.leads_of_parent held parent)
  subst same
  omega

/-- The nodes of a walk all differ. -/
theorem walk_nodup {walk : List Key} (walks : m.Walk walk) : walk.Nodup := by
  obtain ⟨rank, grows⟩ := linked.ranked
  have rising : walk.Pairwise fun a b => rank a < rank b := by
    have stepwise : walk.IsChain fun a b => rank a < rank b :=
      walks.linked.imp_of_mem_imp fun a b first _ leads => grows a b (walks.held a first) leads
    have : Trans (fun a b : Key => rank a < rank b) (fun a b => rank a < rank b)
        (fun a b => rank a < rank b) := ⟨Nat.lt_trans⟩
    exact stepwise.pairwise
  exact rising.imp fun less same => by subst same; omega

/-- A walk is no longer than the arena. -/
theorem walk_length_le {walk : List Key} (walks : m.Walk walk) : walk.length ≤ m.nodes.size := by
  -- Its nodes are different places of the arena.
  have inside : walk ⊆ List.range m.nodes.size := fun k member =>
    List.mem_range.2 (walks.held k member).1
  simpa using ((linked.walk_nodup walks).subperm inside).length_le

omit linked in
/-- A walk may start one node higher. -/
theorem walk_cons {walk : List Key} (held : m.Holds p) (leads : m.Leads p c)
    (walks : m.Walk (c :: walk)) : m.Walk (p :: c :: walk) where
  linked := .cons_cons leads walks.linked
  held := by
    intro k member
    rcases List.mem_cons.1 member with same | later
    · exact same ▸ held
    · exact walks.held k later

/-- From a node strictly above there is a longer walk. -/
theorem exists_longer_walk {walk : List Key} (atop : m.Over a k) (differ : a ≠ k)
    (walks : m.Walk (k :: walk)) : ∃ longer, m.Walk (a :: longer) ∧ walk.length < longer.length := by
  induction atop generalizing walk with
  | refl => exact absurd rfl differ
  | @step p c e above held parent ih =>
    have longer := walk_cons (linked.forth held parent).1
      (linked.leads_of_parent held parent) walks
    by_cases same : a = p
    · subst same
      exact ⟨c :: walk, longer, by simp⟩
    · obtain ⟨most, walksMost, more⟩ := ih same longer
      exact ⟨most, walksMost, by simp at more; omega⟩

/-- What holds of a node once it holds of all it leads to holds of every node. -/
theorem descend {motive : Key → Prop}
    (step : ∀ k, m.Holds k → (∀ c, m.Leads k c → motive c) → motive k) (held : m.Holds k) :
    motive k := by
  -- The induction is on the steps that the longest walk from the node can still take.
  suffices general : ∀ fuel k, (∀ walk, m.Walk (k :: walk) → walk.length < fuel) → m.Holds k →
      motive k from
    general m.nodes.size k (fun walk walks => by
      have := linked.walk_length_le walks
      simp at this
      omega) held
  intro fuel
  induction fuel with
  | zero =>
    intro k short held
    have := short [] ⟨.singleton k, by simpa using held⟩
    omega
  | succ fuel ih =>
    intro k short held
    refine step k held fun c leads => ih c (fun walk walks => ?_) (linked.holds_of_leads held leads)
    have := short (c :: walk) (walk_cons held leads walks)
    simp at this
    omega

/-- Above every node there is one without parent. -/
theorem exists_root (held : m.Holds k) : ∃ r, m.Over r k ∧ (m.node r).parent = none := by
  obtain ⟨rank, grows⟩ := linked.ranked
  induction size : rank k using Nat.strongRecOn generalizing k with
  | ind n ih =>
    cases parent : (m.node k).parent with
    | none => exact ⟨k, .refl, parent⟩
    | some link =>
      obtain ⟨p, e⟩ := link
      have above := (linked.forth held parent).1
      have less := grows p k above (linked.leads_of_parent held parent)
      obtain ⟨r, atop, root⟩ := ih (rank p) (size ▸ less) above rfl
      exact ⟨r, atop.step held parent, root⟩

end Linked

end Model

end DocSync
