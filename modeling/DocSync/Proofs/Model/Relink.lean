import DocSync.Proofs.Model.Sound

/-!
One link made or cut: what it does to the model part by part, why links go on to agree, and how the
chain behind the link comes to the owner it must have.
-/

namespace DocSync

/-- A node led to another target keeps its other link. -/
theorem Node.target?_retarget (n : Node) (edge e : Edge) (target : Option Key) :
    (n.retarget edge target).target? e = if e = edge then target else n.target? e := by
  cases edge <;> cases e <;> rfl

/-- Two models with the same nodes in the same places, whatever links these have. -/
structure SameNodes (m m' : Model) : Prop where
  size : m'.nodes.size = m.nodes.size
  holds : ∀ k, m'.Holds k ↔ m.Holds k
  id : ∀ k, (m'.node k).id = (m.node k).id
  kind : ∀ k, (m'.node k).kind = (m.node k).kind
  content : ∀ k, (m'.node k).toContent = (m.node k).toContent

namespace SameNodes

theorem refl (m : Model) : SameNodes m m :=
  ⟨rfl, fun _ => .rfl, fun _ => rfl, fun _ => rfl, fun _ => rfl⟩

theorem trans {m m' m'' : Model} (first : SameNodes m m') (second : SameNodes m' m'') : SameNodes m m'' where
  size := second.size.trans first.size
  holds k := (second.holds k).trans (first.holds k)
  id k := (second.id k).trans (first.id k)
  kind k := (second.kind k).trans (first.kind k)
  content k := (second.content k).trans (first.content k)

end SameNodes

/-- Two models have the same text around their top level, read from the same text. -/
structure SameMargins (m m' : Model) : Prop where
  leading : m'.leading = m.leading
  trailing : m'.trailing = m.trailing
  sourceHash : m'.sourceHash = m.sourceHash
  strays : m'.strays = m.strays

namespace SameMargins

theorem refl (m : Model) : SameMargins m m := ⟨rfl, rfl, rfl, rfl⟩

theorem symm {m m' : Model} (same : SameMargins m m') : SameMargins m' m :=
  ⟨same.leading.symm, same.trailing.symm, same.sourceHash.symm, same.strays.symm⟩

theorem trans {m m' m'' : Model} (first : SameMargins m m') (second : SameMargins m' m'') :
    SameMargins m m'' :=
  ⟨second.leading.trans first.leading, second.trailing.trans first.trailing,
    second.sourceHash.trans first.sourceHash, second.strays.trans first.strays⟩

end SameMargins

namespace Model

variable {m m' : Model} {a b c k p x parent child : Key} {e edge : Edge} {owner : Option Key}

/-- Two models with the same nodes in the same places, whatever these hold and whoever owns them. -/
structure SameLinks (m m' : Model) : Prop where
  size : m'.nodes.size = m.nodes.size
  live : ∀ k, (m'.node k).live = (m.node k).live
  target : ∀ k e, (m'.node k).target? e = (m.node k).target? e
  parent : ∀ k, (m'.node k).parent = (m.node k).parent

namespace SameLinks

variable (same : SameLinks m m')
include same

theorem holds_iff : m'.Holds k ↔ m.Holds k := by
  rw [Holds, Holds, same.size, same.live]

theorem leads_iff : m'.Leads p c ↔ m.Leads p c := by
  simp [Leads, same.target]

theorem linked (linked : m.Linked) : m'.Linked where
  back held target := by
    rw [same.holds_iff] at held ⊢
    rw [same.target] at target
    rw [same.parent]
    exact linked.back held target
  forth held parent := by
    rw [same.holds_iff] at held ⊢
    rw [same.parent] at parent
    rw [same.target]
    exact linked.forth held parent
  ranked := by
    obtain ⟨rank, grows⟩ := linked.ranked
    exact ⟨rank, fun p c held leads => grows p c (same.holds_iff.1 held) (same.leads_iff.1 leads)⟩

end SameLinks

/-- The node under a key once a chain has been given an owner. -/
theorem node_setOwner (m : Model) (owner : Option Key) (chain : List Key) (j : Key) :
    (m.setOwner owner chain).node j =
      if j ∈ chain ∧ j < m.nodes.size then { m.node j with owner := owner } else m.node j := by
  unfold setOwner
  induction chain generalizing m with
  | nil => simp
  | cons k rest ih =>
    rw [List.foldl_cons, ih, size_update, node_update]
    by_cases same : j = k
    · subst same
      by_cases inside : j < m.nodes.size <;> simp [inside]
    · simp [same]

@[simp] theorem size_setOwner (m : Model) (owner : Option Key) (chain : List Key) :
    (m.setOwner owner chain).nodes.size = m.nodes.size := by
  unfold setOwner
  induction chain generalizing m with
  | nil => rfl
  | cons k rest ih => rw [List.foldl_cons, ih, size_update]

/-- Owners are kept at nodes alone. -/
theorem frame_setOwner (m : Model) (owner : Option Key) (chain : List Key) :
    m.setOwner owner chain = { m with nodes := (m.setOwner owner chain).nodes } := by
  unfold setOwner
  induction chain generalizing m with
  | nil => rfl
  | cons k rest ih => exact ih _

theorem sameLinks_setOwner (m : Model) (owner : Option Key) (chain : List Key) :
    SameLinks m (m.setOwner owner chain) where
  size := m.size_setOwner owner chain
  live k := by rw [node_setOwner]; split <;> rfl
  target k e := by rw [node_setOwner]; split <;> cases e <;> rfl
  parent k := by rw [node_setOwner]; split <;> rfl

/-- The model with one link made or cut, before chains have owners. -/
def relink (m : Model) (parent : Key) (edge : Edge) (child : Key) (made : Bool) : Model :=
  (m.update parent fun n => n.retarget edge (if made then some child else none)).update child
    fun n => { n with parent := if made then some (parent, edge) else none }

@[simp] theorem size_relink (made : Bool) :
    (m.relink parent edge child made).nodes.size = m.nodes.size := by
  simp [relink]

section Relink

variable (edge) (heldParent : m.Holds parent) (heldChild : m.Holds child) (differ : parent ≠ child)
  (made : Bool) (j : Key)
include heldParent heldChild differ

theorem node_relink : (m.relink parent edge child made).node j =
    if j = child then { m.node j with parent := if made then some (parent, edge) else none }
    else if j = parent then (m.node j).retarget edge (if made then some child else none)
    else m.node j := by
  simp only [relink, node_update, size_update, heldChild.1, heldParent.1, and_true,
    Ne.symm differ, if_false]
  by_cases isChild : j = child
  · simp [isChild]
  · by_cases isParent : j = parent <;> simp [isParent, isChild, differ]

theorem target?_relink (e : Edge) : ((m.relink parent edge child made).node j).target? e =
    if j = parent ∧ e = edge then (if made then some child else none)
    else (m.node j).target? e := by
  rw [node_relink _ heldParent heldChild differ]
  by_cases isChild : j = child
  · subst isChild
    cases e <;> simp [Node.target?, Ne.symm differ]
  · by_cases isParent : j = parent
    · subst isParent
      simp [isChild, Node.target?_retarget]
    · simp [isChild, isParent]

theorem parent_relink : ((m.relink parent edge child made).node j).parent =
    if j = child then (if made then some (parent, edge) else none) else (m.node j).parent := by
  rw [node_relink _ heldParent heldChild differ]
  by_cases isChild : j = child
  · simp [isChild]
  · by_cases isParent : j = parent <;> cases edge <;>
      simp [isChild, isParent, differ, Node.retarget]

theorem holds_relink : (m.relink parent edge child made).Holds j ↔ m.Holds j := by
  rw [Holds, Holds, size_relink, node_relink _ heldParent heldChild differ]
  by_cases isChild : j = child
  · simp [isChild]
  · by_cases isParent : j = parent <;> cases edge <;>
      simp [isChild, isParent, differ, Node.retarget]

end Relink

/-- A free node may be linked to a free place that it does not stand over. -/
theorem Linked.relink_true (linked : m.Linked) (heldParent : m.Holds parent)
    (heldChild : m.Holds child) (free : (m.node parent).target? edge = none)
    (root : (m.node child).parent = none) (apart : ¬ m.Over child parent) :
    (m.relink parent edge child true).Linked := by
  have differ : parent ≠ child := fun same => apart (same ▸ .refl)
  have target := target?_relink edge heldParent heldChild differ true
  have above := parent_relink edge heldParent heldChild differ true
  have holds := holds_relink edge heldParent heldChild differ true
  simp only [if_true] at target above
  refine ⟨fun {p e c} held leads => ?_, fun {p e c} held parentC => ?_, ?_⟩
  · rw [holds] at held ⊢
    rw [target] at leads
    rw [above]
    by_cases new : p = parent ∧ e = edge
    · rw [if_pos new] at leads
      cases leads
      simp [heldChild, new]
    · rw [if_neg new] at leads
      obtain ⟨heldC, parentC⟩ := linked.back held leads
      have other : c ≠ child := fun same => by simp [same, root] at parentC
      simp [heldC, parentC, other]
  · rw [holds] at held ⊢
    rw [above] at parentC
    rw [target]
    by_cases new : c = child
    · subst new
      rw [if_pos rfl] at parentC
      cases parentC
      simp [heldParent]
    · rw [if_neg new] at parentC
      obtain ⟨heldP, leads⟩ := linked.forth held parentC
      have other : ¬ (p = parent ∧ e = edge) := by
        rintro ⟨rfl, rfl⟩
        rw [free] at leads
        cases leads
      simp [heldP, leads, other]
  · -- What hangs on the child is ranked above its new parent.
    obtain ⟨rank, grows⟩ := linked.ranked
    classical
    refine ⟨fun k => if m.Over child k then rank k + rank parent + 1 else rank k,
      fun p c held leads => ?_⟩
    obtain ⟨e, leads⟩ := leads
    rw [holds] at held
    rw [target] at leads
    by_cases new : p = parent ∧ e = edge
    · rw [if_pos new] at leads
      cases leads
      simp only [new.1, apart, Over.refl, if_true, if_false]
      omega
    · rw [if_neg new] at leads
      have less := grows p c held ⟨e, leads⟩
      obtain ⟨heldC, parentC⟩ := linked.back held leads
      have together : m.Over child c ↔ m.Over child p := by
        constructor
        · intro atop
          refine atop.parent_of_ne (fun same => ?_) parentC
          rw [← same, root] at parentC
          cases parentC
        · exact fun atop => atop.step heldC parentC
      by_cases under : m.Over child p <;> simp only [together, under, if_true, if_false] <;> omega

/-- A link may be cut. -/
theorem Linked.relink_false (linked : m.Linked) (heldParent : m.Holds parent)
    (leads : (m.node parent).target? edge = some child) :
    (m.relink parent edge child false).Linked := by
  obtain ⟨heldChild, parentChild⟩ := linked.back heldParent leads
  have differ : parent ≠ child := fun same =>
    linked.not_over_parent heldChild parentChild (same ▸ .refl)
  have target := target?_relink edge heldParent heldChild differ false
  have above := parent_relink edge heldParent heldChild differ false
  have holds := holds_relink edge heldParent heldChild differ false
  simp only [Bool.false_eq_true, if_false] at target above
  refine ⟨fun {p e c} held leadsC => ?_, fun {p e c} held parentC => ?_, ?_⟩
  · rw [holds] at held ⊢
    rw [target] at leadsC
    rw [above]
    -- Another link into the child would be the one that is cut.
    by_cases cut : p = parent ∧ e = edge
    · simp [cut] at leadsC
    · rw [if_neg cut] at leadsC
      obtain ⟨heldC, parentC⟩ := linked.back held leadsC
      have other : c ≠ child := by
        rintro rfl
        rw [parentChild] at parentC
        cases parentC
        exact cut ⟨rfl, rfl⟩
      simp [heldC, parentC, other]
  · rw [holds] at held ⊢
    rw [above] at parentC
    rw [target]
    by_cases cut : c = child
    · simp [cut] at parentC
    · rw [if_neg cut] at parentC
      obtain ⟨heldP, leadsC⟩ := linked.forth held parentC
      have other : ¬ (p = parent ∧ e = edge) := by
        rintro ⟨rfl, rfl⟩
        rw [leads] at leadsC
        cases leadsC
        exact cut rfl
      simp [heldP, leadsC, other]
  · -- What is left of the links goes up in the same ranks.
    obtain ⟨rank, grows⟩ := linked.ranked
    refine ⟨rank, fun p c held leadsC => ?_⟩
    obtain ⟨e, leadsC⟩ := leadsC
    rw [target] at leadsC
    by_cases cut : p = parent ∧ e = edge
    · simp [cut] at leadsC
    · rw [if_neg cut] at leadsC
      exact grows p c (holds p |>.1 held) ⟨e, leadsC⟩

/-- The model with one link made or cut, the chain behind it given its owner, and the top level
brought up to date. -/
def rehang (m : Model) (parent : Key) (edge : Edge) (child : Key) (made : Bool) : Model :=
  let linked := m.relink parent edge child made
  { linked.setOwner (if made then m.ownerAt parent edge else none) (linked.chain child) with
    roots := if made then m.roots.erase child else m.roots ++ [child] }

theorem sameLinks_rehang (made : Bool) :
    SameLinks (m.relink parent edge child made) (m.rehang parent edge child made) where
  size := (sameLinks_setOwner _ _ _).size
  live := (sameLinks_setOwner _ _ _).live
  target := (sameLinks_setOwner _ _ _).target
  parent := (sameLinks_setOwner _ _ _).parent

/-- A link made or cut leaves the text around the top level alone. -/
theorem sameMargins_rehang (parent : Key) (edge : Edge) (child : Key) (made : Bool) :
    SameMargins m (m.rehang parent edge child made) := by
  -- An owner is given to a node after another, and nothing but the arena changes with that.
  have owned : ∀ owner chain,
      SameMargins m ((m.relink parent edge child made).setOwner owner chain) := by
    intro owner chain
    rw [frame_setOwner]
    exact ⟨rfl, rfl, rfl, rfl⟩
  have kept := owned (if made then m.ownerAt parent edge else none)
    ((m.relink parent edge child made).chain child)
  exact ⟨kept.leading, kept.trailing, kept.sourceHash, kept.strays⟩

@[simp] theorem size_rehang (made : Bool) :
    (m.rehang parent edge child made).nodes.size = m.nodes.size := by
  rw [(sameLinks_rehang made).size, size_relink]

section Rehang

variable (edge) (heldParent : m.Holds parent) (heldChild : m.Holds child) (differ : parent ≠ child)
  (made : Bool) (j : Key)
include heldParent heldChild differ

theorem holds_rehang : (m.rehang parent edge child made).Holds j ↔ m.Holds j := by
  rw [(sameLinks_rehang made).holds_iff, holds_relink _ heldParent heldChild differ]

theorem target?_rehang (e : Edge) : ((m.rehang parent edge child made).node j).target? e =
    if j = parent ∧ e = edge then (if made then some child else none)
    else (m.node j).target? e := by
  rw [(sameLinks_rehang made).target, target?_relink _ heldParent heldChild differ]

theorem parent_rehang : ((m.rehang parent edge child made).node j).parent =
    if j = child then (if made then some (parent, edge) else none) else (m.node j).parent := by
  rw [(sameLinks_rehang made).parent, parent_relink _ heldParent heldChild differ]

theorem owner_rehang : ((m.rehang parent edge child made).node j).owner =
    if j ∈ (m.relink parent edge child made).chain child ∧ j < m.nodes.size then
      (if made then m.ownerAt parent edge else none)
    else (m.node j).owner := by
  have kept : ((m.relink parent edge child made).node j).owner = (m.node j).owner := by
    rw [node_relink _ heldParent heldChild differ]
    by_cases isChild : j = child
    · simp [isChild]
    · by_cases isParent : j = parent <;> cases edge <;>
        simp [isChild, isParent, differ, Node.retarget]
  have given := node_setOwner (m.relink parent edge child made)
    (if made then m.ownerAt parent edge else none)
    ((m.relink parent edge child made).chain child) j
  rw [size_relink] at given
  change (((m.relink parent edge child made).setOwner _ _).node j).owner = _
  rw [given]
  split <;> simp [kept]

/-- A link made or cut leaves what nodes are and hold. -/
theorem bare_rehang : ((m.rehang parent edge child made).node j).id = (m.node j).id ∧
    ((m.rehang parent edge child made).node j).kind = (m.node j).kind ∧
    ((m.rehang parent edge child made).node j).toContent = (m.node j).toContent := by
  have given := node_setOwner (m.relink parent edge child made)
    (if made then m.ownerAt parent edge else none)
    ((m.relink parent edge child made).chain child) j
  have same : ∀ n : Node, ((m.relink parent edge child made).setOwner
      (if made then m.ownerAt parent edge else none)
      ((m.relink parent edge child made).chain child)).node j = n →
      (m.rehang parent edge child made).node j = n := fun n equal => equal
  rw [same _ given, node_relink _ heldParent heldChild differ]
  by_cases isChild : j = child
  · split <;> simp [isChild]
  · rw [if_neg isChild]
    by_cases isParent : j = parent <;> cases edge <;> split <;> simp [isParent, Node.retarget]

end Rehang

/-- A link made or cut leaves the nodes in their places. -/
theorem sameNodes_rehang (edge : Edge) (heldParent : m.Holds parent) (heldChild : m.Holds child)
    (differ : parent ≠ child) (made : Bool) : SameNodes m (m.rehang parent edge child made) where
  size := m.size_rehang made
  holds := holds_rehang _ heldParent heldChild differ made
  id k := (bare_rehang _ heldParent heldChild differ made k).1
  kind k := (bare_rehang _ heldParent heldChild differ made k).2.1
  content k := (bare_rehang _ heldParent heldChild differ made k).2.2

/-- Behind the child its chain goes from a node to the one that follows it. -/
theorem Linked.mem_chainAt_relink (linked : (m.relink parent edge child made).Linked)
    (heldParent : m.Holds parent) (heldChild : m.Holds child) (differ : parent ≠ child) (held : m.Holds k)
    (isChild : k ≠ child) :
    k ∈ (m.relink parent edge child made).chainAt (some child) ↔
      ∃ q ∈ (m.relink parent edge child made).chainAt (some child), (m.node k).parent = some (q, .next) := by
  have above := parent_relink edge heldParent heldChild differ made
  have holds := holds_relink edge heldParent heldChild differ made
  rw [linked.mem_chainAt_some ((holds child).2 heldChild), or_iff_right isChild]
  constructor
  · rintro ⟨q, inside, next⟩
    -- A follower of a member is linked back to it.
    have heldQ := (linked.over_of_mem_chainAt ((holds child).2 heldChild) inside).2
    have back := (linked.back (e := .next) heldQ next).2
    rw [above, if_neg isChild] at back
    exact ⟨q, inside, back⟩
  · rintro ⟨q, inside, parentK⟩
    have forth := linked.forth ((holds k).2 held) (by rw [above, if_neg isChild, parentK])
    exact ⟨q, inside, forth.2⟩

/-- Once links agree, so do owners, when a chain is given that of the link before it. -/
theorem Sound.owner_rehang (sound : m.Sound) (heldParent : m.Holds parent)
    (heldChild : m.Holds child) (differ : parent ≠ child) (made : Bool)
    (linked : (m.relink parent edge child made).Linked) (held : m.Holds k) :
    ((m.rehang parent edge child made).node k).owner =
      ((m.rehang parent edge child made).node k).parent.bind fun above =>
        (m.rehang parent edge child made).ownerAt above.1 above.2 := by
  have owner := Model.owner_rehang edge heldParent heldChild differ made
  have above := parent_relink edge heldParent heldChild differ made
  have holds := holds_relink edge heldParent heldChild differ made
  rw [(sameLinks_rehang made).parent]
  by_cases isChild : k = child
  · subst isChild
    have first : k ∈ (m.relink parent edge k made).chainAt (some k) :=
      (linked.mem_chainAt_some ((holds k).2 heldChild)).2 (.inl rfl)
    rw [owner, chain_eq, if_pos ⟨first, heldChild.1⟩, above, if_pos rfl]
    cases made with
    | false => simp
    | true =>
      -- The parent is no member of the chain that it leads to.
      have outside : parent ∉ (m.relink parent edge k true).chainAt (some k) := fun inChain =>
        linked.not_over_parent ((holds k).2 heldChild)
          (by rw [above, if_pos rfl, if_pos rfl])
          (linked.over_of_mem_chainAt ((holds k).2 heldChild) inChain).1
      cases edge with
      | child => simp [ownerAt]
      | next =>
        have kept := owner parent
        rw [chain_eq, if_neg fun both => outside both.1] at kept
        simp [ownerAt, kept]
  · have old := sound.owner held
    have here := owner k
    have inChain := linked.mem_chainAt_relink heldParent heldChild differ held isChild
    rw [above, if_neg isChild]
    rw [chain_eq] at here
    cases parentK : (m.node k).parent with
    | none =>
      have outside : k ∉ (m.relink parent edge child made).chainAt (some child) := by
        simp [inChain, parentK]
      rw [here, if_neg fun both => outside both.1, old, parentK, Option.bind_none,
        Option.bind_none]
    | some link =>
      obtain ⟨q, e⟩ := link
      cases e with
      | child =>
        have outside : k ∉ (m.relink parent edge child made).chainAt (some child) := by
          simp [inChain, parentK]
        rw [here, if_neg fun both => outside both.1, old, parentK]
        simp only [Option.bind_some, ownerAt]
      | next =>
        -- A node and the one before it are in the chain together, so their owners change together.
        have together : k ∈ (m.relink parent edge child made).chainAt (some child) ↔
            q ∈ (m.relink parent edge child made).chainAt (some child) := by
          simp [inChain, parentK]
        have inside := (sound.forth held parentK).1.1
        have there := owner q
        rw [chain_eq] at there
        rw [parentK] at old
        change (m.node k).owner = (m.node q).owner at old
        change _ = ((m.rehang parent edge child made).node q).owner
        rw [here, there, old]
        simp only [together, held.1, inside, and_true]

end Model

end DocSync
