import DocSync.Proofs.Model.Reachable

/-!
A node taken out of its chain, alone or to be destroyed with all that hangs on it. The links that
leave the nodes to be destroyed are cut one by one, each new piece going to the top level, until all
of them are free; what has been cut so far is all there is to know on the way.
-/

namespace DocSync

/-- Two nodes that agree in all their parts are one. -/
theorem Node.eq_of_parts {n n' : Node} (id : n'.id = n.id) (kind : n'.kind = n.kind)
    (content : n'.toContent = n.toContent) (target : ∀ e, n'.target? e = n.target? e)
    (parent : n'.parent = n.parent) (owner : n'.owner = n.owner) (live : n'.live = n.live) :
    n' = n := by
  have head : n'.head = n.head := target .child
  have next : n'.next = n.next := target .next
  cases n
  cases n'
  simp_all

namespace Model

variable {m m' : Model} {cut : List (Key × Edge)} {ks : List Key} {a b c j k p q x : Key} {e f : Edge}

/-! ### The nodes that hang on a node -/

namespace Linked

variable (linked : m.Linked)
include linked

/-- The document lists no node twice below a node. -/
theorem nodup_subtree (held : m.Holds k) : (m.subtree k).Nodup := by
  have once := linked.nodup_treesAt_some held
  rw [linked.treesAt_some held, Tree.preorderAll_cons] at once
  exact (List.nodup_append.1 once).1

/-- Links lead from what hangs on a node to what hangs on it, but for the node's own link to its next
sibling. -/
theorem mem_subtree_of_leads (held : m.Holds k) (inside : j ∈ m.subtree k)
    (leads : (m.node j).target? e = some c) (below : j = k → e = .child) : c ∈ m.subtree k := by
  have heldJ := (linked.over_of_mem_subtree held inside).2
  obtain ⟨heldC, parent⟩ := linked.back heldJ leads
  rw [linked.mem_subtree_iff_over held] at inside ⊢
  rcases inside with same | ⟨top, head, atop⟩
  · -- The node's link to its children leads to the first of them.
    rw [below same, same] at leads
    exact .inr ⟨c, leads, .refl⟩
  · exact .inr ⟨top, head, atop.step heldC parent⟩

/-- The link back from what hangs on a node leads to what hangs on it. -/
theorem mem_subtree_of_parent (held : m.Holds k) (inside : j ∈ m.subtree k) (differ : j ≠ k)
    (parent : (m.node j).parent = some (p, e)) : p ∈ m.subtree k := by
  rw [linked.mem_subtree_iff_over held] at inside ⊢
  obtain ⟨top, head, atop⟩ := inside.resolve_left differ
  by_cases first : top = j
  · -- The first child is linked back to the node itself.
    subst first
    have back := (linked.back (e := .child) held head).2
    rw [parent] at back
    cases back
    exact .inl rfl
  · exact .inr ⟨top, head, atop.parent_of_ne first parent⟩

/-- The next sibling of a node does not hang on it. -/
theorem next_not_mem_subtree (held : m.Holds k) (next : (m.node k).next = some c) :
    c ∉ m.subtree k := by
  obtain ⟨heldC, parent⟩ := linked.back (e := .next) held next
  rw [linked.mem_subtree_iff_over held]
  rintro (same | ⟨top, head, atop⟩)
  · subst same
    exact linked.not_over_parent heldC parent .refl
  · have below : (m.node k).target? .child = some top := head
    have beside : (m.node k).target? .next = some c := next
    exact linked.not_over_both held below beside (by decide) atop .refl

/-- Where all that a node stands over has the same links in two models, so have the trees. -/
theorem treesAt_congr (linked' : m'.Linked) (held : m.Holds c)
    (same : ∀ x, m.Over c x → m'.Holds x ∧ ∀ e, (m'.node x).target? e = (m.node x).target? e) :
    m'.treesAt (some c) = m.treesAt (some c) := by
  revert same
  refine linked.descend (motive := fun c => (∀ x, m.Over c x → m'.Holds x ∧
    ∀ e, (m'.node x).target? e = (m.node x).target? e) → m'.treesAt (some c) = m.treesAt (some c))
    (fun c held ih same => ?_) held
  obtain ⟨held', targets⟩ := same c .refl
  have part : ∀ e, m'.treesAt ((m'.node c).target? e) = m.treesAt ((m.node c).target? e) := by
    intro e
    rw [targets e]
    cases leads : (m.node c).target? e with
    | none => rw [treesAt_none, treesAt_none]
    | some d =>
      exact ih d ⟨e, leads⟩ fun x atop =>
        same x ((linked.over_of_leads held ⟨e, leads⟩).trans atop)
  rw [linked'.treesAt_some held', linked.treesAt_some held, tree_eq, tree_eq]
  have below := part .child
  have after := part .next
  simp only [Node.target?] at below after
  rw [below, after]

end Linked

/-! ### Links cut one after the other -/

/-- A model with some of its links cut, one after the other. What a link led to is at top level since
then, behind what was there before. -/
structure Parted (m : Model) (cut : List (Key × Edge)) (m' : Model) : Prop extends SameNodes m m' where
  sound : m'.Sound
  target : ∀ j e, (m'.node j).target? e = if (j, e) ∈ cut then none else (m.node j).target? e
  parent : ∀ {j}, m.Holds j → (m'.node j).parent = (m.node j).parent.filter (· ∉ cut)
  roots : m'.roots = m.roots ++ cut.filterMap fun link => (m.node link.1).target? link.2
  margins : SameMargins m m'

namespace Parted

theorem refl (sound : m.Sound) : Parted m [] m where
  toSameNodes := .refl m
  sound := sound
  target j e := by simp
  parent {j} _ := by cases (m.node j).parent <;> simp [Option.filter]
  roots := by simp
  margins := .refl m

/-- One more link is cut. -/
theorem unlink (parted : Parted m cut m') (sound : m.Sound) (held : m.Holds p)
    (leads : (m'.node p).target? e = some c) :
    Parted m (cut ++ [(p, e)]) (m'.rehang p e c false) := by
  have held' := (parted.holds p).2 held
  obtain ⟨heldC, back⟩ := parted.sound.back held' leads
  have differ : p ≠ c := fun same => parted.sound.not_over_parent heldC back (same ▸ .refl)
  -- The link has not been cut before, so it leads where it led at first.
  have uncut : (p, e) ∉ cut ∧ (m.node p).target? e = some c := by
    rw [parted.target] at leads
    split at leads
    · cases leads
    · next fresh => exact ⟨fresh, leads⟩
  refine ⟨parted.toSameNodes.trans (sameNodes_rehang e held' heldC differ false),
    parted.sound.unlink held' leads, ?_, ?_, ?_, parted.margins.trans (sameMargins_rehang p e c false)⟩
  · intro j f
    rw [target?_rehang e held' heldC differ, parted.target]
    by_cases same : j = p ∧ f = e
    · simp [same]
    · have other : (j, f) ≠ (p, e) := fun equal => same (by cases equal; exact ⟨rfl, rfl⟩)
      simp [same, other]
  · intro j heldJ
    rw [parent_rehang e held' heldC differ, parted.parent heldJ]
    by_cases same : j = c
    · subst same
      simp [(sound.back held uncut.2).2, Option.filter]
    · rw [if_neg same]
      -- No other node is linked back along the link that is cut.
      cases parent : (m.node j).parent with
      | none => rfl
      | some link =>
        have other : link ≠ (p, e) := by
          rintro rfl
          have target := (sound.forth heldJ parent).2
          rw [uncut.2] at target
          cases target
          exact same rfl
        simp [Option.filter, other]
  · change m'.roots ++ [c] = _
    simp [parted.roots, uncut.2]

/-- A link that a node has not got counts as cut. -/
theorem skip (parted : Parted m cut m') (sound : m.Sound) (fresh : (p, e) ∉ cut)
    (absent : (m'.node p).target? e = none) : Parted m (cut ++ [(p, e)]) m' := by
  have nothing : (m.node p).target? e = none := by
    rw [parted.target, if_neg fresh] at absent
    exact absent
  refine ⟨parted.toSameNodes, parted.sound, fun j f => ?_, fun {j} heldJ => ?_, ?_, parted.margins⟩
  · rw [parted.target]
    by_cases same : (j, f) = (p, e)
    · cases same
      simp [nothing]
    · simp [same]
  · rw [parted.parent heldJ]
    cases parent : (m.node j).parent with
    | none => rfl
    | some link =>
      have other : link ≠ (p, e) := by
        rintro rfl
        have target := (sound.forth heldJ parent).2
        rw [nothing] at target
        cases target
      simp [Option.filter, other]
  · simp [parted.roots, nothing]

/-- Cutting links puts no node above another. -/
theorem atop_of_cut (parted : Parted m cut m') (atop : m'.Over a b) : m.Over a b := by
  induction atop with
  | refl => exact .refl
  | @step p c e _ held parent ih =>
    have heldC := (parted.holds c).1 held
    rw [parted.parent heldC] at parent
    exact ih.step heldC (Option.filter_eq_some_iff.1 parent).1

end Parted

/-! ### What a node leaves behind -/

/-- A node once another one has been taken out of its chain: the link that led there leads to the next
sibling of that one, which is linked back in its place. -/
def bridged (m : Model) (k x : Key) : Node :=
  let gone := m.node k
  let above :=
    match gone.parent with
    | some (p, e) => if x = p then (m.node x).retarget e gone.next else m.node x
    | none => m.node x
  if gone.next = some x then { above with parent := gone.parent } else above

theorem target?_bridged (m : Model) (k x : Key) (f : Edge) : (m.bridged k x).target? f =
    if (m.node k).parent = some (x, f) then (m.node k).next else (m.node x).target? f := by
  have kept : ∀ n : Node, (if (m.node k).next = some x then
      { n with parent := (m.node k).parent } else n).target? f = n.target? f := by
    intro n
    split
    · cases f <;> rfl
    · rfl
  rw [bridged, kept]
  cases (m.node k).parent with
  | none => simp
  | some link =>
    obtain ⟨p, e⟩ := link
    by_cases same : x = p
    · subst same
      simp [Node.target?_retarget, eq_comm]
    · simp [same, Ne.symm same]

theorem parent_bridged (m : Model) (k x : Key) : (m.bridged k x).parent =
    if (m.node k).next = some x then (m.node k).parent else (m.node x).parent := by
  rw [bridged]
  split
  · rfl
  · cases (m.node k).parent with
    | none => rfl
    | some link =>
      obtain ⟨p, e⟩ := link
      by_cases same : x = p <;> cases e <;> simp [same, Node.retarget]

/-- Apart from its links a node stays what it was. -/
theorem bare_bridged (m : Model) (k x : Key) : (m.bridged k x).id = (m.node x).id ∧
    (m.bridged k x).kind = (m.node x).kind ∧ (m.bridged k x).toContent = (m.node x).toContent ∧
    (m.bridged k x).owner = (m.node x).owner ∧ (m.bridged k x).live = (m.node x).live := by
  rw [bridged]
  cases (m.node k).parent with
  | none => split <;> simp
  | some link =>
    obtain ⟨p, e⟩ := link
    by_cases same : x = p <;> cases e <;> split <;> simp [same, Node.retarget]

/-- A node has been taken out of a model with all that hangs on it. -/
structure Removed (m m' : Model) (k : Key) : Prop where
  holds : ∀ x, m'.Holds x ↔ m.Holds x ∧ x ∉ m.subtree k
  node : ∀ {x}, m'.Holds x → m'.node x = m.bridged k x
  /-- What followed a node at top level comes last there. -/
  roots : m'.roots =
    if (m.node k).parent.isSome then m.roots else m.roots.erase k ++ (m.node k).next.toList
  margins : SameMargins m m'

/-- A node has been taken out of its chain, and comes last at top level. -/
structure Detached (m m' : Model) (k : Key) : Prop where
  holds : ∀ x, m'.Holds x ↔ m.Holds x
  node : ∀ {x}, m.Holds x → x ≠ k → m'.node x = m.bridged k x
  self : m'.node k = { m.node k with next := none, parent := none, owner := none }
  subtree : m'.subtree k = m.subtree k
  roots : m'.roots = m.roots ++ [k]
  margins : SameMargins m m'

/-- Owners are the same in two models wherever, on the way up a chain, a node has got its owner along
the link that leads to it in the other model. -/
theorem Sound.owner_congr (sound' : m'.Sound) (kept : Key → Prop) (held : ∀ x, kept x → m'.Holds x)
    (owner : ∀ x, kept x → (m.node x).owner =
      (m'.node x).parent.bind fun above => m.ownerAt above.1 above.2)
    (up : ∀ x q, kept x → (m'.node x).parent = some (q, .next) → kept q) (inside : kept x) :
    (m'.node x).owner = (m.node x).owner := by
  obtain ⟨rank, grows⟩ := sound'.ranked
  induction size : rank x using Nat.strongRecOn generalizing x with
  | ind n ih =>
    have heldX := held x inside
    rw [owner x inside, sound'.owner heldX]
    cases above : (m'.node x).parent with
    | none => rfl
    | some link =>
      obtain ⟨q, e⟩ := link
      cases e with
      | child => rfl
      | next =>
        have leads := sound'.leads_of_parent heldX above
        have less := grows q x (sound'.forth heldX above).1 leads
        exact ih (rank q) (size ▸ less) (up x q inside above) rfl

/-- Around a node that was taken out owners are what they were: the way up to the owner of a chain
passes a gap that has been closed. -/
theorem Sound.owner_of_bridged (sound : m.Sound) (sound' : m'.Sound) (heldK : m.Holds k)
    (kept : Key → Prop) (held : ∀ x, kept x → m.Holds x ∧ m'.Holds x)
    (parent : ∀ x, kept x → (m'.node x).parent = (m.bridged k x).parent)
    (up : ∀ x q, kept x → (m'.node x).parent = some (q, .next) → kept q) (inside : kept x) :
    (m'.node x).owner = (m.node x).owner := by
  apply sound'.owner_congr kept (fun x inside => (held x inside).2) _ up inside
  intro x inside
  have heldX := (held x inside).1
  rw [parent x inside, parent_bridged]
  split
  · -- The node and the one behind the gap have got their owner along the same link.
    next next =>
    have back := (sound.back (e := .next) heldK next).2
    rw [sound.owner heldX, back, ← sound.owner heldK]
    rfl
  · exact sound.owner heldX

/-! ### A node taken out of its chain -/

section Detached

variable (sound : m.Sound) (held : m.Holds k) (parentK : (m.node k).parent = some (p, e))
include sound held parentK

/-- A model is another one with a node detached if links differ as they do around the gap, and where
the node's own have been cut. -/
theorem detached_of_links (sound' : m'.Sound) (same : SameNodes m m')
    (target : ∀ j f, (m'.node j).target? f =
      if j = k ∧ f = .next then none else (m.bridged k j).target? f)
    (parent : ∀ {j}, m.Holds j → (m'.node j).parent =
      if j = k then none else (m.bridged k j).parent)
    (roots : m'.roots = m.roots ++ [k]) (margins : SameMargins m m') : Detached m m' k := by
  have holds := same.holds
  have live : ∀ {x}, m.Holds x → (m'.node x).live = (m.node x).live := fun {x} heldX => by
    rw [heldX.2, ((holds x).2 heldX).2]
  -- The node is not its own parent, so the link to its first child is untouched.
  have apart : p ≠ k := fun same => sound.not_over_parent held parentK (same ▸ .refl)
  have own : (m'.node k).target? .child = (m.node k).target? .child := by
    rw [target, if_neg (fun both => by cases both.2), target?_bridged, parentK,
      if_neg (fun same => by cases same; exact apart rfl)]
  refine ⟨holds, fun {x} heldX differ => ?_, ?_, ?_, roots, margins⟩
  · obtain ⟨id, kind, content, owner, alive⟩ := bare_bridged m k x
    refine Node.eq_of_parts ((same.id x).trans id.symm) ((same.kind x).trans kind.symm)
      ((same.content x).trans content.symm) (fun f => ?_) ?_ ?_ ((live heldX).trans alive.symm)
    · rw [target, if_neg fun both => differ both.1]
    · rw [parent heldX, if_neg differ]
    · rw [owner]
      refine sound.owner_of_bridged sound' held (fun x => m.Holds x ∧ x ≠ k)
        (fun x inside => ⟨inside.1, (holds x).2 inside.1⟩) (fun x inside => ?_)
        (fun x q inside above => ?_) ⟨heldX, differ⟩
      · rw [parent inside.1, if_neg inside.2]
      · -- Nothing follows the node any more.
        obtain ⟨heldQ, leads⟩ := sound'.forth ((holds x).2 inside.1) above
        refine ⟨(holds q).1 heldQ, fun same => ?_⟩
        rw [target, if_pos ⟨same, rfl⟩] at leads
        cases leads
  · have free : (m'.node k).parent = none := by rw [parent held, if_pos rfl]
    refine Node.eq_of_parts (same.id k) (same.kind k) (same.content k) (fun f => ?_) free ?_ (live held)
    · cases f with
      | child => exact own
      | next => rw [target, if_pos ⟨rfl, rfl⟩]; rfl
    · rw [sound'.owner ((holds k).2 held), free]
      rfl
  · -- Below the node there are the same links as before.
    have trees : m'.treesAt (m'.node k).head = m.treesAt (m.node k).head := by
      change m'.treesAt ((m'.node k).target? .child) = m.treesAt ((m.node k).target? .child)
      rw [own]
      cases head : (m.node k).target? .child with
      | none => rw [treesAt_none, treesAt_none]
      | some c =>
        obtain ⟨heldC, back⟩ := sound.back held head
        refine sound.treesAt_congr sound'.toLinked heldC fun x atop => ?_
        have heldX : m.Holds x := by
          cases atop with
          | refl => exact heldC
          | step _ child _ => exact child
        refine ⟨(holds x).2 heldX, fun f => ?_⟩
        -- Neither the node nor its parent hangs on the node's first child.
        have other : x ≠ k := fun same => sound.not_over_parent heldC back (same ▸ atop)
        have outside : (m.node k).parent ≠ some (x, f) := by
          intro equal
          exact sound.not_over_parent heldC back (atop.step held equal)
        rw [target, if_neg fun both => other both.1, target?_bridged, if_neg outside]
    rw [subtree, subtree, tree_eq, tree_eq, trees]

/-- The last node of a chain is detached by one cut. -/
theorem Parted.detached_last (parted : Parted m [(p, e)] m') (last : (m.node k).next = none) :
    Detached m m' k := by
  have leads := (sound.forth held parentK).2
  refine detached_of_links sound held parentK parted.sound parted.toSameNodes (fun j f => ?_)
    (fun {j} heldJ => ?_) ?_ parted.margins
  · rw [parted.target, target?_bridged, parentK, last]
    by_cases own : j = k ∧ f = .next
    · obtain ⟨rfl, rfl⟩ := own
      have nothing : (m.node j).target? .next = none := last
      simp [nothing]
    · rw [if_neg own]
      by_cases gap : (j, f) = (p, e)
      · cases gap
        simp
      · simp [gap, Ne.symm gap]
  · rw [parted.parent heldJ, parent_bridged, last]
    by_cases own : j = k
    · subst own
      simp [parentK, Option.filter]
    · rw [if_neg own, if_neg (fun same => by cases same)]
      cases parent : (m.node j).parent with
      | none => rfl
      | some link =>
        have other : link ≠ (p, e) := by
          rintro rfl
          rw [(sound.forth heldJ parent).2] at leads
          cases leads
          exact own rfl
        simp [Option.filter, other]
  · simp [parted.roots, leads]

/-- A node within a chain is detached by two cuts, and what followed it is linked in its place. -/
theorem Parted.detached_between {r : Key} (parted : Parted m [(p, e), (k, .next)] m')
    (next : (m.node k).next = some r) :
    (m'.rehang p e r true).Sound ∧ Detached m (m'.rehang p e r true) k := by
  obtain ⟨heldP, leads⟩ := sound.forth held parentK
  obtain ⟨heldR, back⟩ := sound.back (e := .next) held next
  have heldP' := (parted.holds p).2 heldP
  have heldR' := (parted.holds r).2 heldR
  have free : (m'.node p).target? e = none := by simp [parted.target]
  have root : (m'.node r).parent = none := by simp [parted.parent heldR, back, Option.filter]
  -- What follows the node does not stand over its parent.
  have below : ¬ m'.Over r p := by
    intro atop
    have upper : m.Over k p := (Over.refl.step heldR back).trans (parted.atop_of_cut atop)
    exact sound.not_over_parent held parentK upper
  have differ : p ≠ r := fun same => below (same ▸ .refl)
  have apart : k ≠ r := by
    intro same
    subst same
    exact sound.not_over_parent heldR back .refl
  have slotted : e = .child → true = true → (m'.node p).kind.slot?.isSome := by
    intro isChild _
    subst isChild
    rw [parted.kind]
    exact sound.slotted heldP (Option.isSome_iff_exists.2 ⟨k, leads⟩)
  have sound' : (m'.rehang p e r true).Sound := parted.sound.rehang heldP' heldR' differ true
    (parted.sound.relink_true heldP' heldR' free root below) slotted root
  have nodes := parted.toSameNodes.trans (sameNodes_rehang e heldP' heldR' differ true)
  refine ⟨sound', detached_of_links sound held parentK sound' nodes (fun j f => ?_)
    (fun {j} heldJ => ?_) ?_ (parted.margins.trans (sameMargins_rehang p e r true))⟩
  · rw [target?_rehang e heldP' heldR' differ, parted.target, target?_bridged, parentK, next]
    have other : p ≠ k := fun same => sound.not_over_parent held parentK (same ▸ .refl)
    by_cases gap : j = p ∧ f = e
    · obtain ⟨rfl, rfl⟩ := gap
      simp [other]
    · have apart : (j, f) ≠ (p, e) := fun same => gap (by cases same; exact ⟨rfl, rfl⟩)
      simp [gap, apart, Ne.symm apart]
  · rw [parent_rehang e heldP' heldR' differ, parted.parent heldJ, parent_bridged, next]
    by_cases follows : j = r
    · subst follows
      simp [Ne.symm apart, parentK]
    · by_cases own : j = k
      · subst own
        simp [follows, parentK, Option.filter]
      · simp only [follows, own, Ne.symm follows, Option.some.injEq, if_false]
        -- Each of the two links that were cut led to one node only.
        cases parent : (m.node j).parent with
        | none => rfl
        | some link =>
          have target := (sound.forth heldJ parent).2
          have first : link ≠ (p, e) := by
            rintro rfl
            rw [leads] at target
            cases target
            exact own rfl
          have second : link ≠ (k, .next) := by
            rintro rfl
            change (m.node k).next = some j at target
            rw [next] at target
            cases target
            exact follows rfl
          simp [Option.filter, first, second]
  · have last : (m.node k).target? .next = some r := next
    have listed : m'.roots = (m.roots ++ [k]) ++ [r] := by simp [parted.roots, leads, last]
    have outside : r ∉ m.roots ++ [k] := by
      intro inside
      rcases List.mem_append.1 inside with inside | inside
      · rw [sound.parent_root inside] at back
        cases back
      · exact apart (List.mem_singleton.1 inside).symm
    change m'.roots.erase r = _
    rw [listed, List.erase_append_right _ outside]
    simp

end Detached

/-! ### All below a node set free and destroyed -/

/-- The model without several nodes. -/
def without (m : Model) (ks : List Key) : Model := ks.foldl pruned m

theorem node_without (outside : x ∉ ks) : (m.without ks).node x = m.node x := by
  unfold without
  induction ks generalizing m with
  | nil => rfl
  | cons k rest ih =>
    rw [List.mem_cons, not_or] at outside
    rw [List.foldl_cons, ih outside.2, node_pruned_of_ne _ outside.1]

theorem holds_without : (m.without ks).Holds x ↔ m.Holds x ∧ x ∉ ks := by
  unfold without
  induction ks generalizing m with
  | nil => simp
  | cons k rest ih =>
    rw [List.foldl_cons, ih, holds_pruned, List.mem_cons, not_or, and_assoc]

theorem roots_without : (m.without ks).roots = m.roots.diff ks := by
  unfold without
  induction ks generalizing m with
  | nil => simp
  | cons k rest ih =>
    rw [List.foldl_cons, ih, List.diff_cons]
    rfl

theorem sameMargins_without : SameMargins m (m.without ks) := by
  unfold without
  induction ks generalizing m with
  | nil => exact .refl m
  | cons k rest ih =>
    have first : SameMargins m (m.pruned k) := ⟨rfl, rfl, rfl, rfl⟩
    exact first.trans ih

/-- The links that leave nodes, those of the last node first. -/
def linksUp (ks : List Key) : List (Key × Edge) :=
  ks.reverse.flatMap fun k => [(k, .next), (k, .child)]

theorem mem_linksUp : (j, e) ∈ linksUp ks ↔ j ∈ ks := by
  cases e <;> simp [linksUp]

section Removed

variable (sound : m.Sound) (held : m.Holds k) (root : (m.node k).parent = none)
  (parted : Parted m (linksUp (m.subtree k)) m')
include sound held root parted

/-- Once the links that leave the nodes below a top-level node are cut, these nodes are free. -/
theorem Parted.free_of_mem_subtree (inside : j ∈ m.subtree k) : m'.Holds j ∧
    (m'.node j).parent = none ∧ (m'.node j).next = none ∧ (m'.node j).head = none := by
  have heldJ := (sound.over_of_mem_subtree held inside).2
  have bare : ∀ f, (m'.node j).target? f = none := fun f => by
    rw [parted.target, if_pos (mem_linksUp.2 inside)]
  refine ⟨(parted.holds j).2 heldJ, ?_, bare .next, bare .child⟩
  rw [parted.parent heldJ]
  cases parent : (m.node j).parent with
  | none => rfl
  | some link =>
    obtain ⟨q, f⟩ := link
    -- The link into the node has left another one that hangs there too.
    have differ : j ≠ k := fun same => by
      rw [same, root] at parent
      cases parent
    have cut := mem_linksUp (e := f).2 (sound.mem_subtree_of_parent held inside differ parent)
    simp [Option.filter, cut]

/-- What the cuts have put at top level hangs on the node, but for its next sibling. -/
theorem Parted.roots_filter : m'.roots.filter (· ∉ m.subtree k) =
    m.roots.erase k ++ (m.node k).next.toList := by
  have atTop : m.roots.filter (· ∉ m.subtree k) = m.roots.erase k := by
    rw [sound.roots_nodup.erase_eq_filter]
    refine List.filter_congr fun r listed => ?_
    have only : r ∈ m.subtree k ↔ r = k := by
      constructor
      · intro inside
        have atop := (sound.over_of_mem_subtree held inside).1
        exact (atop.eq_of_root (sound.parent_root listed)).symm
      · rintro rfl
        exact (sound.mem_subtree_iff_over held).2 (.inl rfl)
    simp only [only]
    by_cases same : r = k <;> simp [same]
  obtain ⟨below, split⟩ : ∃ below, m.subtree k = k :: below := ⟨_, Tree.preorder_node _ _⟩
  have once := sound.nodup_subtree held
  rw [split, List.nodup_cons] at once
  -- The links of the nodes below the node come first among the cuts.
  have lower : ((linksUp below).filterMap fun link => (m.node link.1).target? link.2).filter
      (· ∉ m.subtree k) = [] := by
    rw [List.filter_eq_nil_iff]
    intro c freed
    obtain ⟨link, cut, leads⟩ := List.mem_filterMap.1 freed
    have inside : link.1 ∈ below := mem_linksUp.1 cut
    have differ : link.1 ≠ k := fun same => once.1 (same ▸ inside)
    have hangs := sound.mem_subtree_of_leads held (split ▸ List.mem_cons_of_mem k inside) leads
      fun same => absurd same differ
    simpa using hangs
  have order : linksUp (m.subtree k) = linksUp below ++ [(k, .next), (k, .child)] := by
    simp [linksUp, split]
  have own : ([(k, Edge.next), (k, Edge.child)].filterMap fun link =>
      (m.node link.1).target? link.2).filter (· ∉ m.subtree k) = (m.node k).next.toList := by
    have head : ∀ c, (m.node k).target? .child = some c → c ∈ m.subtree k := fun c leads =>
      (sound.mem_subtree_iff_over held).2 (.inr ⟨c, leads, .refl⟩)
    have next : ∀ c, (m.node k).target? .next = some c → c ∉ m.subtree k := fun c leads =>
      sound.next_not_mem_subtree held leads
    change _ = ((m.node k).target? .next).toList
    cases first : (m.node k).target? .child with
    | none =>
      cases after : (m.node k).target? .next with
      | none => simp [first, after]
      | some r => simp [first, after, next r after]
    | some c =>
      cases after : (m.node k).target? .next with
      | none => simp [first, after, head c first]
      | some r => simp [first, after, head c first, next r after]
  rw [parted.roots, List.filter_append, atTop, order, List.filterMap_append, List.filter_append, lower,
    own, List.nil_append]

/-- Without the nodes that were set free the model is the one before without what hangs on the node. -/
theorem Parted.removed : Removed m (m'.without (m.subtree k)) k := by
  refine ⟨fun x => ?_, fun {x} heldX => ?_, ?_, parted.margins.trans sameMargins_without⟩
  · rw [holds_without, parted.holds]
  · obtain ⟨heldX', outside⟩ := holds_without.1 heldX
    have heldOld := (parted.holds x).1 heldX'
    obtain ⟨id, kind, content, owner, alive⟩ := bare_bridged m k x
    -- Of the links into other nodes only the one into the next sibling has been cut.
    have parent : ∀ {x}, m.Holds x → x ∉ m.subtree k →
        (m'.node x).parent = (m.bridged k x).parent := by
      intro x heldX outside
      rw [parted.parent heldX, parent_bridged, root]
      cases above : (m.node x).parent with
      | none => simp
      | some link =>
        obtain ⟨q, f⟩ := link
        have leads := (sound.forth heldX above).2
        by_cases follows : (m.node k).next = some x
        · have back := (sound.back (e := .next) held follows).2
          rw [above] at back
          cases back
          have cut := mem_linksUp (e := .next).2 ((sound.mem_subtree_iff_over held).2 (.inl rfl))
          simp [follows, Option.filter, cut]
        · have uncut : q ∉ m.subtree k := by
            intro inside
            refine outside (sound.mem_subtree_of_leads held inside leads fun same => ?_)
            cases f with
            | child => rfl
            | next => exact absurd (same ▸ leads) follows
          simp [follows, Option.filter, mem_linksUp, uncut]
    rw [node_without outside]
    refine Node.eq_of_parts ((parted.id x).trans id.symm) ((parted.kind x).trans kind.symm)
      ((parted.content x).trans content.symm) (fun f => ?_) (parent heldOld outside) ?_
      (by rw [alive, heldOld.2, heldX'.2])
    · rw [parted.target, if_neg (fun cut => outside (mem_linksUp.1 cut)), target?_bridged, root,
        if_neg (fun same => by cases same)]
    · rw [owner]
      refine sound.owner_of_bridged parted.sound held (fun x => m.Holds x ∧ x ∉ m.subtree k)
        (fun x inside => ⟨inside.1, (parted.holds x).2 inside.1⟩)
        (fun x inside => parent inside.1 inside.2) (fun x q inside above => ?_) ⟨heldOld, outside⟩
      have uncut := above
      rw [parted.parent inside.1] at uncut
      have heldQ := (parted.sound.forth ((parted.holds x).2 inside.1) above).1
      have fresh := (Option.filter_eq_some_iff.1 uncut).2
      exact ⟨(parted.holds q).1 heldQ, by simpa [mem_linksUp] using fresh⟩
  · rw [root, roots_without, parted.sound.roots_nodup.sdiff_eq_filter]
    exact parted.roots_filter sound held root

end Removed

/-- What is left once a node has been detached and then removed is what is left once it is removed. -/
theorem Detached.removed {m'' : Model} (sound : m.Sound) (held : m.Holds k)
    (parentK : (m.node k).parent = some (p, e)) (detached : Detached m m' k)
    (removed : Removed m' m'' k) : Removed m m'' k := by
  refine ⟨fun x => ?_, fun {x} heldX => ?_, ?_, detached.margins.trans removed.margins⟩
  · rw [removed.holds, detached.holds, detached.subtree]
  · obtain ⟨heldX', outside⟩ := (removed.holds x).1 heldX
    have differ : x ≠ k := by
      rintro rfl
      rw [detached.subtree, sound.mem_subtree_iff_over held] at outside
      exact outside (.inl rfl)
    -- A node without links of its own leaves no gap.
    have alone : m'.bridged k x = m'.node x := by simp [bridged, detached.self]
    rw [removed.node heldX, alone, detached.node ((detached.holds x).1 heldX') differ]
  · have outside : k ∉ m.roots := fun listed => by
      rw [sound.parent_root listed] at parentK
      cases parentK
    rw [removed.roots, detached.self, detached.roots, parentK]
    simp [List.erase_append_right _ outside]

end Model

open Model

namespace Host.Ends

variable {ε σ : Type} {h : Host ε σ} {m : Model} {cut : List (Key × Edge)} {ks : List Key} {k p : Key}
  {e : Edge} {s : σ}

/-- A link that a node has is cut by its name. -/
theorem unlink_of_parted (quiet : h.Quiet) (sound : m.Sound) (held : m.Holds p)
    (parted : Parted m cut (h.model s)) {c : Key} (leads : ((h.model s).node p).target? e = some c)
    {slot : String} (named : ((h.model s).node p).edge? slot = some e) :
    h.Ends s (discard (h.unlink p slot)) (fun _ m' => Parted m (cut ++ [(p, e)]) m') fun _ => False :=
  of_gives (Gives.unlink quiet (unlink_eq named leads)).discard (parted.unlink sound held leads)

/-- A node taken out of its chain is detached, whatever follows it. -/
theorem detach (quiet : h.Quiet) (sound : (h.model s).Sound) (held : (h.model s).Holds k)
    (parentK : ((h.model s).node k).parent = some (p, e)) :
    h.Ends s (h.detach k) (fun _ m' => m'.Sound ∧ Detached (h.model s) m' k) fun _ => False := by
  obtain ⟨heldP, leads⟩ := sound.forth held parentK
  have named : ((h.model s).node p).edge? (((h.model s).node p).edgeName e) = some e :=
    Node.edge?_edgeName _ _ fun isChild => by
      subst isChild
      exact sound.slotted heldP (Option.isSome_iff_exists.2 ⟨k, leads⟩)
  have other : p ≠ k := fun same => sound.not_over_parent held parentK (same ▸ .refl)
  refine current ?_
  rw [parentK]
  refine (unlink_of_parted quiet sound heldP (.refl sound) leads named).bind fun _ s₁ parted => current ?_
  have kept : ((h.model s₁).node k).next = ((h.model s).node k).next := by
    change ((h.model s₁).node k).target? .next = ((h.model s).node k).target? .next
    rw [parted.target, if_neg (by simp [Ne.symm other])]
  cases next : ((h.model s).node k).next with
  | none =>
    -- Nothing follows the node, so there is nothing to lead back.
    rw [kept, next]
    exact pure ⟨parted.sound, parted.detached_last sound held parentK next⟩
  | some r =>
    rw [kept, next]
    simp only [Option.isSome_some, if_true]
    have leadsR : ((h.model s₁).node k).target? .next = some r := kept.trans next
    have cut := parted.unlink sound held leadsR
    obtain ⟨sound₂, detached⟩ := cut.detached_between sound held parentK next
    have heldR := (sound.back (e := .next) held next).1
    refine (gives (Gives.unlink quiet (unlink_eq rfl leadsR))).bind fun c s₂ same => ?_
    obtain ⟨rfl, same⟩ := same
    rw [← same] at cut sound₂ detached
    -- The link to what followed meets all that it needs, for the model that it leads to is sound.
    have nodes := cut.toSameNodes
    have free : ((h.model s₂).node p).target? e = none := by simp [cut.target]
    have root : ((h.model s₂).node c).parent = none := by
      simp [cut.parent heldR, (sound.back (e := .next) held next).2, Option.filter]
    have apart : (h.model s₂).top p ≠ c := by
      intro top
      have atop := cut.atop_of_cut ((cut.sound.top_eq_iff ((nodes.holds p).2 heldP) root).1 top)
      have back := (sound.back (e := .next) held next).2
      exact sound.not_over_parent held parentK ((Over.refl.step heldR back).trans atop)
    have named₂ : ((h.model s₂).node p).edge? (((h.model s).node p).edgeName e) = some e := by
      rw [Node.edge?, nodes.kind]
      exact named
    exact of_gives (Gives.link quiet
      (link_eq cut.sound ((nodes.holds c).2 heldR) named₂ free root apart)) ⟨sound₂, detached⟩

/-- A link that leaves a node is cut if the node has it, and the run goes on. -/
theorem cutting {body : EStateM ε σ Unit} {slot : String} {done : Unit → Model → Prop}
    (quiet : h.Quiet) (sound : m.Sound) (held : m.Holds k) (parted : Parted m cut (h.model s))
    (fresh : (k, e) ∉ cut) (named : ((h.model s).node k).edge? slot = some e)
    (rest : ∀ s', Parted m (cut ++ [(k, e)]) (h.model s') → h.Ends s' body done fun _ => False) :
    h.Ends s (if (((h.model s).node k).target? e).isSome = true then
      (do discard (h.unlink k slot); body) else body) done fun _ => False := by
  cases leads : ((h.model s).node k).target? e with
  | none => exact rest s (parted.skip sound fresh leads)
  | some c =>
    exact (unlink_of_parted quiet sound held parted leads named).bind fun _ s' parted => rest s' parted

/-- Both links that leave a node are cut, where it has them. -/
theorem isolate (quiet : h.Quiet) (sound : m.Sound) (held : m.Holds k)
    (parted : Parted m cut (h.model s)) (fresh : ∀ f, (k, f) ∉ cut) :
    h.Ends s (h.isolate k) (fun _ m' => Parted m (cut ++ [(k, .next), (k, .child)]) m')
      fun _ => False := by
  have both : cut ++ [(k, .next), (k, .child)] = (cut ++ [(k, .next)]) ++ [(k, .child)] := by simp
  have uncut : (k, Edge.child) ∉ cut ++ [(k, .next)] := by simp [fresh]
  rw [both]
  refine current (cutting (e := .next) quiet sound held parted (fresh .next) rfl fun s' parted => ?_)
  -- After the link to the next sibling comes the one to the children, if the kind has a slot for them.
  refine current ?_
  cases slot : ((h.model s').node k).kind.slot? with
  | none =>
    have bare : ((h.model s').node k).head = none := by
      have slotted := parted.sound.slotted ((parted.holds k).2 held)
      rw [slot] at slotted
      simpa using slotted
    exact pure (parted.skip sound uncut bare)
  | some name =>
    refine current ?_
    cases head : ((h.model s').node k).head with
    | none => exact pure (parted.skip sound uncut head)
    | some c =>
      have named := Node.edge?_edgeName ((h.model s').node k) .child fun _ => by simp [slot]
      rw [show ((h.model s').node k).edgeName .child = name by simp [Node.edgeName, slot]] at named
      exact unlink_of_parted (e := .child) quiet sound held parted head named

/-- The links that leave several nodes are cut, node by node. -/
theorem isolateAll (quiet : h.Quiet) (sound : m.Sound) (held : ∀ k ∈ ks, m.Holds k)
    (once : ks.Nodup) (parted : Parted m cut (h.model s)) (fresh : ∀ k ∈ ks, ∀ f, (k, f) ∉ cut) :
    h.Ends s (ks.forM h.isolate)
      (fun _ m' => Parted m (cut ++ ks.flatMap fun k => [(k, .next), (k, .child)]) m')
      fun _ => False := by
  induction ks generalizing cut s with
  | nil =>
    rw [List.flatMap_nil, List.append_nil]
    exact pure parted
  | cons k rest ih =>
    obtain ⟨outside, later⟩ := List.nodup_cons.1 once
    rw [List.flatMap_cons, ← List.append_assoc]
    refine (isolate quiet sound (held k List.mem_cons_self) parted
      (fresh k List.mem_cons_self)).bind fun _ s' parted => ?_
    refine ih (fun j member => held j (List.mem_cons_of_mem k member)) later parted ?_
    intro j member f cut
    have differ : j ≠ k := fun same => outside (same ▸ member)
    rcases List.mem_append.1 cut with before | now
    · exact fresh j (List.mem_cons_of_mem k member) f before
    · simp [differ] at now

/-- Nodes that are linked nowhere are destroyed, one after the other. -/
theorem deleteAll (quiet : h.Quiet) (once : ks.Nodup)
    (free : ∀ k ∈ ks, (h.model s).Holds k ∧ ((h.model s).node k).parent = none ∧
      ((h.model s).node k).next = none ∧ ((h.model s).node k).head = none) :
    h.Ends s (ks.forM h.deleteNode) (fun _ m' => m' = (h.model s).without ks) fun _ => False := by
  induction ks generalizing s with
  | nil => exact pure rfl
  | cons k rest ih =>
    obtain ⟨outside, later⟩ := List.nodup_cons.1 once
    obtain ⟨held, root, last, leaf⟩ := free k List.mem_cons_self
    refine (gives (Gives.deleteNode quiet (deleteNode_eq held root last leaf))).bind
      fun _ s' deleted => ?_
    have same : h.model s' = (h.model s).pruned k := deleted.2
    have gone : (h.model s).without (k :: rest) = (h.model s').without rest := by rw [same]; rfl
    rw [gone]
    refine ih later fun j member => ?_
    have differ : j ≠ k := fun same => outside (same ▸ member)
    rw [same, holds_pruned, node_pruned_of_ne _ differ]
    obtain ⟨heldJ, links⟩ := free j (List.mem_cons_of_mem k member)
    exact ⟨⟨heldJ, differ⟩, links⟩

/-- What hangs on a node at top level is set free and destroyed. -/
theorem removeBelow (quiet : h.Quiet) (sound : (h.model s).Sound) (held : (h.model s).Holds k)
    (root : ((h.model s).node k).parent = none) :
    h.Ends s (do
      let members := (← h.current).subtree k
      members.reverse.forM h.isolate
      members.forM h.deleteNode) (fun _ m' => Removed (h.model s) m' k) fun _ => False := by
  have once := sound.nodup_subtree held
  refine current ?_
  refine (isolateAll quiet sound (fun j member =>
    (sound.over_of_mem_subtree held (List.mem_reverse.1 member)).2) (List.nodup_reverse.2 once)
    (.refl sound) (fun _ _ _ cut => nomatch cut)).bind fun _ s' parted => ?_
  rw [List.nil_append] at parted
  have gone := parted.removed sound held root
  have all := deleteAll quiet (s := s') once fun j member =>
    parted.free_of_mem_subtree sound held root member
  refine all.mono (fun _ m' same => ?_)
  rw [same]
  exact gone

/-- A node is removed with all that hangs on it. -/
theorem remove (quiet : h.Quiet) (sound : (h.model s).Sound) (held : (h.model s).Holds k) :
    h.Ends s (h.remove k) (fun _ m' => Removed (h.model s) m' k) fun _ => False := by
  cases parentK : ((h.model s).node k).parent with
  | none =>
    have still : h.Ends s (h.detach k) (fun _ m' => m' = h.model s) fun _ => False := by
      refine current ?_
      rw [parentK]
      exact pure rfl
    refine still.bind fun _ s' same => ?_
    rw [← same] at sound held parentK ⊢
    exact removeBelow quiet sound held parentK
  | some link =>
    obtain ⟨p, e⟩ := link
    refine (detach quiet sound held parentK).bind fun _ s' reached => ?_
    obtain ⟨sound', detached⟩ := reached
    refine (removeBelow quiet sound' ((detached.holds k).2 held) (by rw [detached.self])).mono
      fun _ m' removed => ?_
    exact detached.removed sound held parentK removed

end Host.Ends

/-- Any node can be removed, and with it goes what hangs on it and nothing else; any node that is
linked somewhere can be detached. All other nodes keep what they are and hold, and their links, but
for the gap, which is closed. -/
theorem removed_of_reachable {ε σ : Type} {h : Host ε σ} (quiet : h.Quiet) {w : Workspace}
    (reached : Reachable w) {s : σ} (hosted : h.model s = w.model) {k : Key} (held : w.model.Holds k) :
    (∃ s', h.remove k s = .ok () s' ∧ Removed w.model (h.model s') k) ∧
      ((w.model.node k).parent.isSome →
        ∃ s', h.detach k s = .ok () s' ∧ Detached w.model (h.model s') k) := by
  have sound : (h.model s).Sound := hosted ▸ reached.sound
  rw [← hosted] at held ⊢
  constructor
  · obtain ⟨_, s', ran, removed⟩ := (Host.Ends.remove quiet sound held).exists_ok
    exact ⟨s', ran, removed⟩
  · intro linked
    obtain ⟨link, parentK⟩ := Option.isSome_iff_exists.1 linked
    obtain ⟨_, s', ran, -, detached⟩ := (Host.Ends.detach quiet sound held parentK).exists_ok
    exact ⟨s', ran, detached⟩

/-- An array within an array can be removed, or detached. -/
theorem removed_of_reachable_inner : (readIn "[1, [2], 3]" 0).model.Holds 2 ∧
    ((readIn "[1, [2], 3]" 0).model.node 2).parent.isSome ∧
    (∃ w', Build.host.remove 2 (readIn "[1, [2], 3]" 0) = .ok () w' ∧
      Removed (readIn "[1, [2], 3]" 0).model w'.model 2) ∧
    ∃ w', Build.host.detach 2 (readIn "[1, [2], 3]" 0) = .ok () w' ∧
      Detached (readIn "[1, [2], 3]" 0).model w'.model 2 := by
  have held : (readIn "[1, [2], 3]" 0).model.Holds 2 := by decide +kernel
  have linked : ((readIn "[1, [2], 3]" 0).model.node 2).parent.isSome := by decide +kernel
  obtain ⟨removed, detached⟩ := removed_of_reachable Build.quiet_host
    (reachable_readIn "[1, [2], 3]" 0) rfl held
  exact ⟨held, linked, removed, detached linked⟩

end DocSync
