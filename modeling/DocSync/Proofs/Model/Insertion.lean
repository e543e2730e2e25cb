import DocSync.Proofs.Model.Removal
import DocSync.Proofs.Outcome

/-!
Composite edits that are refused. A chain is put at the end of another by one link, which is made or
not. To put a node into a chain, the chain is cut behind the anchor first, and what follows is linked
behind the node last: when a link in between is refused, the chain stays cut. A node can always be
taken out of its chain, and be removed.
-/

namespace DocSync

namespace Model

variable {m m' : Model} {a b c j k p r x anchor node : Key} {e : Edge}

/-- Two models with the same nodes in the same places, the same top level and the same text around it
are one. -/
theorem eq_of_node (size : m'.nodes.size = m.nodes.size)
    (same : ∀ j < m.nodes.size, m'.node j = m.node j) (roots : m'.roots = m.roots)
    (margins : SameMargins m m') : m' = m := by
  have nodes : m'.nodes = m.nodes := by
    apply Array.ext size
    intro j inside' inside
    simpa [Model.node, inside', inside] using same j inside
  obtain ⟨leading, trailing, sourceHash, strays⟩ := margins
  cases m
  cases m'
  simp_all

/-- A link that has been cut can be made again: both of its ends are free, and neither has come to stand
over the other. -/
theorem Sound.cut (sound : m.Sound) (held : m.Holds p) (leads : (m.node p).target? e = some c) :
    Parted m [(p, e)] (m.rehang p e c false) ∧
      ((m.rehang p e c false).node p).target? e = none ∧
      ((m.rehang p e c false).node c).parent = none ∧ ¬ (m.rehang p e c false).Over c p := by
  obtain ⟨heldC, back⟩ := sound.back held leads
  have parted := (Parted.refl sound).unlink sound held leads
  rw [List.nil_append] at parted
  refine ⟨parted, by simp [parted.target], by simp [parted.parent heldC, back, Option.filter], ?_⟩
  intro atop
  exact sound.not_over_parent heldC back (parted.atop_of_cut atop)

/-- A link that is cut and made again leaves the model as it was. -/
theorem Sound.rehang_rehang (sound : m.Sound) (held : m.Holds p)
    (leads : (m.node p).target? e = some c) :
    (m.rehang p e c false).rehang p e c true = m := by
  obtain ⟨heldC, back⟩ := sound.back held leads
  have differ : p ≠ c := fun same => sound.not_over_parent heldC back (same ▸ .refl)
  obtain ⟨parted, free, root, below⟩ := sound.cut held leads
  have heldP' := (parted.holds p).2 held
  have heldC' := (parted.holds c).2 heldC
  have slotted : e = .child → true = true →
      ((m.rehang p e c false).node p).kind.slot?.isSome := by
    intro isChild _
    subst isChild
    rw [parted.kind]
    exact sound.slotted held (Option.isSome_iff_exists.2 ⟨c, leads⟩)
  have sound' := parted.sound.rehang heldP' heldC' differ true
    (parted.sound.relink_true heldP' heldC' free root below) slotted root
  have nodes := parted.toSameNodes.trans (sameNodes_rehang e heldP' heldC' differ true)
  have target : ∀ j f, (((m.rehang p e c false).rehang p e c true).node j).target? f =
      (m.node j).target? f := by
    intro j f
    rw [target?_rehang e heldP' heldC' differ, target?_rehang e held heldC differ]
    by_cases same : j = p ∧ f = e
    · obtain ⟨rfl, rfl⟩ := same
      simp [leads]
    · simp [same]
  have parent : ∀ j, (((m.rehang p e c false).rehang p e c true).node j).parent =
      (m.node j).parent := by
    intro j
    rw [parent_rehang e heldP' heldC' differ, parent_rehang e held heldC differ]
    by_cases same : j = c
    · subst same
      simp [back]
    · simp [same]
  apply eq_of_node nodes.size _ _ (parted.margins.trans (sameMargins_rehang p e c true))
  · intro j inside
    have live : (((m.rehang p e c false).rehang p e c true).node j).live = (m.node j).live := by
      have alive := nodes.holds j
      simp only [Holds, nodes.size, inside, true_and] at alive
      exact Bool.eq_iff_iff.2 alive
    refine Node.eq_of_parts (nodes.id j) (nodes.kind j) (nodes.content j) (target j) (parent j) ?_ live
    by_cases heldJ : m.Holds j
    · -- The links back are the same, and so are the owners that they tell.
      apply sound'.owner_congr m.Holds (fun x heldX => (nodes.holds x).2 heldX) _ _ heldJ
      · intro x heldX
        rw [parent, sound.owner heldX]
      · intro x q heldX above
        rw [parent] at above
        exact (sound.forth heldX above).1
    · -- No chain reaches a node that is gone.
      rw [Model.owner_rehang e heldP' heldC' differ, Model.owner_rehang e held heldC differ]
      have outside : ∀ {m : Model} {made : Bool}, (m.relink p e c made).Linked → m.Holds p →
          m.Holds c → ¬ m.Holds j → j ∉ (m.relink p e c made).chain c := by
        intro m made linked heldP heldC gone inChain
        have holds := holds_relink e heldP heldC differ made
        exact gone ((holds j).1 (linked.over_of_mem_chainAt ((holds c).2 heldC) inChain).2)
      rw [if_neg fun both => outside (parted.sound.relink_true heldP' heldC' free root below) heldP'
          heldC' (fun held' => heldJ ((parted.holds j).1 held')) both.1,
        if_neg fun both => outside (sound.relink_false held leads) held heldC heldJ both.1]
  · have listed : (m.rehang p e c false).roots = m.roots ++ [c] := rfl
    have outside : c ∉ m.roots := fun inside => by
      rw [sound.parent_root inside] at back
      cases back
    change (m.rehang p e c false).roots.erase c = m.roots
    rw [listed, List.erase_append_right _ outside]
    simp

/-- A link that is made puts above a node only what stands above the link. -/
theorem over_of_rehang (heldP : m.Holds p) (heldC : m.Holds c) (differ : p ≠ c)
    (atop : (m.rehang p e c true).Over a b) : m.Over a b ∨ m.Over a p ∧ m.Over c b := by
  induction atop with
  | refl => exact .inl .refl
  | @step q x f above held parent ih =>
    rw [parent_rehang e heldP heldC differ] at parent
    have heldX := (holds_rehang e heldP heldC differ true x).1 held
    by_cases same : x = c
    · subst same
      rw [if_pos rfl, if_pos rfl] at parent
      cases parent
      rcases ih with outer | ⟨outer, _⟩
      · exact .inr ⟨outer, .refl⟩
      · exact .inr ⟨outer, .refl⟩
    · rw [if_neg same] at parent
      rcases ih with outer | ⟨outer, lower⟩
      · exact .inl (outer.step heldX parent)
      · exact .inr ⟨outer, lower.step heldX parent⟩

/-- To put a node behind an anchor tears the chain of the anchor apart: something else follows the
anchor, and the node is linked already, stands over the anchor, or is followed by siblings itself. -/
def Tears (m : Model) (anchor node : Key) : Prop :=
  ∃ rest, (m.node anchor).next = some rest ∧ rest ≠ node ∧
    ((m.node node).parent.isSome ∨ m.Over node anchor ∨ (m.node node).next.isSome)

end Model

open Model

namespace Host.Ends

variable {ε σ : Type} {h : Host ε σ} {s : σ} {anchor node p c : Key} {slot : String}

/-- A link that is refused leaves the model as it was. -/
theorem link_or_same (quiet : h.Quiet) (sound : (h.model s).Sound) (held : (h.model s).Holds c) :
    h.Ends s (h.link p slot c) (fun _ _ => True) (fun m' => m' = h.model s) :=
  link quiet sound held (fun _ _ _ _ _ => trivial) fun _ => rfl

/-- A chain is put at the end of another one, or the model stays as it was. -/
theorem appendChild (quiet : h.Quiet) (sound : (h.model s).Sound) (held : (h.model s).Holds node) :
    h.Ends s (h.appendChild p slot node) (fun _ _ => True) (fun m' => m' = h.model s) := by
  apply current
  cases ((h.model s).childrenAt p slot).getLast? with
  | none => exact link_or_same quiet sound held
  | some last => exact link_or_same quiet sound held

section InsertAfter

variable {m : Model} {rest : Key} (quiet : h.Quiet) (sound : m.Sound) (held : m.Holds anchor)
  (heldNode : m.Holds node) (leads : (m.node anchor).target? .next = some rest)
include quiet sound held heldNode leads

/-- Once the chain is cut behind the anchor, the node is linked there, or the chain stays cut. -/
theorem link_behind (cut : h.model s = m.rehang anchor .next rest false) :
    h.Ends s (h.link anchor nextName node)
      (fun _ m' => m' = (m.rehang anchor .next rest false).rehang anchor .next node true ∧
        ((m.rehang anchor .next rest false).node node).parent = none ∧
        ¬ (m.rehang anchor .next rest false).Over node anchor)
      (fun m' => m' = m ↔ ¬ m.Tears anchor node) := by
  obtain ⟨parted, free, root, below⟩ := sound.cut held leads
  have held' := (parted.holds anchor).2 held
  rw [← cut] at parted free root below held' ⊢
  refine link quiet parted.sound ((parted.holds node).2 heldNode) (fun e named _ root apart => ?_)
    fun blocked => ?_
  · have edge : Edge.next = e := Option.some.inj named
    subst edge
    exact ⟨rfl, root, fun atop => apart ((parted.sound.top_eq_iff held' root).2 atop)⟩
  · have torn : h.model s ≠ m := by
      intro same
      rw [same, leads] at free
      cases free
    refine iff_of_false torn (not_not.2 ⟨rest, leads, ?_, ?_⟩)
    · -- What followed the anchor could have been linked again.
      rintro rfl
      refine blocked ⟨.next, rfl, free, root, fun top => below ?_⟩
      exact (parted.sound.top_eq_iff held' root).1 top
    · by_contra fine
      simp only [not_or, Option.not_isSome_iff_eq_none] at fine
      obtain ⟨rootNode, apart, -⟩ := fine
      have rootNode' : ((h.model s).node node).parent = none := by
        simp [parted.parent heldNode, rootNode]
      refine blocked ⟨.next, rfl, free, rootNode', fun top => apart ?_⟩
      exact parted.atop_of_cut ((parted.sound.top_eq_iff held' rootNode').1 top)

/-- Once the node is linked behind the anchor, what followed the anchor is linked behind the node, unless
the node is followed already, by siblings of its own or in its old place. -/
theorem link_rest (made : h.model s =
      (m.rehang anchor .next rest false).rehang anchor .next node true)
    (rootNode : ((m.rehang anchor .next rest false).node node).parent = none)
    (apart : ¬ (m.rehang anchor .next rest false).Over node anchor) :
    h.Ends s (h.link node nextName rest) (fun _ _ => True)
      (fun m' => m' = m ↔ ¬ m.Tears anchor node) := by
  obtain ⟨parted, free, root, below⟩ := sound.cut held leads
  have held' := (parted.holds anchor).2 held
  have heldNode' := (parted.holds node).2 heldNode
  have heldRest := (sound.back held leads).1
  have other : anchor ≠ node := fun same => apart (same ▸ .refl)
  have named : ((m.rehang anchor .next rest false).node anchor).edge? nextName = some .next := rfl
  have sound' := parted.sound.link held' heldNode' named free rootNode fun top =>
    apart ((parted.sound.top_eq_iff held' rootNode).1 top)
  have holds : ∀ j, (h.model s).Holds j ↔ m.Holds j := fun j => by
    rw [made, holds_rehang _ held' heldNode' other, parted.holds]
  rw [← made] at sound'
  refine link quiet sound' ((holds rest).2 heldRest) (fun _ _ _ _ _ => trivial) fun blocked => ?_
  by_cases same : rest = node
  · -- The node followed the anchor before: the link that was cut has been made again.
    subst same
    refine iff_of_true ?_ fun tears => ?_
    · rw [made]
      exact sound.rehang_rehang held leads
    · obtain ⟨other, follows, differ, -⟩ := tears
      change (m.node anchor).next = some rest at leads
      rw [leads] at follows
      exact differ (Option.some.inj follows).symm
  · have torn : h.model s ≠ m := by
      intro equal
      have target : ((h.model s).node anchor).target? .next = some node := by
        rw [made, target?_rehang _ held' heldNode' other]
        simp
      rw [equal, leads] at target
      exact same (Option.some.inj target)
    refine iff_of_false torn (not_not.2 ⟨rest, leads, same, .inr (.inr ?_)⟩)
    by_contra last
    -- A node without siblings behind it takes what followed the anchor.
    have bare : (m.node node).next = none := by simpa using last
    have freeNode : ((h.model s).node node).target? .next = none := by
      have target : (m.node node).target? .next = none := bare
      rw [made, target?_rehang _ held' heldNode' other, parted.target]
      simp [Ne.symm other, target]
    have rootRest : ((h.model s).node rest).parent = none := by
      rw [made, parent_rehang _ held' heldNode' other, if_neg same, root]
    refine blocked ⟨.next, rfl, freeNode, rootRest, fun top => ?_⟩
    have atop := (sound'.top_eq_iff ((holds node).2 heldNode) rootRest).1 top
    rw [made] at atop
    rcases over_of_rehang held' heldNode' other atop with outer | ⟨outer, -⟩
    · exact same (outer.eq_of_root rootNode)
    · exact below outer

end InsertAfter

/-- An insertion that fails leaves the model as it was just when it does not tear a chain apart. -/
theorem insertAfter (quiet : h.Quiet) (sound : (h.model s).Sound) (held : (h.model s).Holds anchor)
    (heldNode : (h.model s).Holds node) :
    h.Ends s (h.insertAfter anchor node) (fun _ _ => True)
      (fun m' => m' = h.model s ↔ ¬ (h.model s).Tears anchor node) := by
  apply current
  cases next : ((h.model s).node anchor).next with
  | none =>
    -- There is one link to make, and nothing to cut.
    refine link quiet sound heldNode (fun _ _ _ _ _ => trivial) fun _ => ?_
    refine iff_of_true rfl fun tears => ?_
    obtain ⟨rest, follows, -⟩ := tears
    rw [next] at follows
    cases follows
  | some rest =>
    have leads : ((h.model s).node anchor).target? .next = some rest := next
    refine (gives (Gives.unlink quiet (unlink_eq rfl leads))).bind fun c s₁ cut => ?_
    obtain ⟨rfl, cut⟩ := cut
    refine (link_behind quiet sound held heldNode leads cut).bind fun _ s₂ joined => ?_
    obtain ⟨made, root, apart⟩ := joined
    exact link_rest quiet sound held heldNode leads made root apart

end Host.Ends

/-- A composite edit that is refused leaves the model as it was, but for an insertion that tears a chain
apart, and such an insertion never leaves it so. A node can always be detached and removed. -/
theorem unchanged_iff_of_refused {ε σ : Type} {h : Host ε σ} (quiet : h.Quiet) {w : Workspace}
    (reached : Reachable w) {s : σ} (hosted : h.model s = w.model) {k node : Key}
    (held : w.model.Holds k) (heldNode : w.model.Holds node) (e : ε) (s' : σ) :
    (h.insertAfter k node s = .error e s' → (h.model s' = w.model ↔ ¬ w.model.Tears k node)) ∧
      (∀ slot, h.appendChild k slot node s = .error e s' → h.model s' = w.model) ∧
      h.detach k s ≠ .error e s' ∧ h.remove k s ≠ .error e s' := by
  have sound : (h.model s).Sound := hosted ▸ reached.sound
  rw [← hosted] at held heldNode ⊢
  refine ⟨(Host.Ends.insertAfter quiet sound held heldNode).of_error, fun slot =>
    (Host.Ends.appendChild quiet sound heldNode).of_error, fun ran => ?_, fun ran => ?_⟩
  · cases parentK : ((h.model s).node k).parent with
    | none =>
      -- A node at top level stays where it is.
      simp only [Host.detach, Host.current, Bind.bind, EStateM.bind, parentK] at ran
      cases ran
    | some link =>
      obtain ⟨p, edge⟩ := link
      exact (Host.Ends.detach quiet sound held parentK).of_error ran
  · exact (Host.Ends.remove quiet sound held).of_error ran

/-- An item put behind the one before it, where it stands already: the chain is cut, and joined again
before the edit is refused. -/
theorem unchanged_iff_of_refused_following : (readIn "[1, 2, 3]" 0).model.Holds 1 ∧
    (readIn "[1, 2, 3]" 0).model.Holds 2 ∧ ∃ e w',
      Build.host.insertAfter 1 2 (readIn "[1, 2, 3]" 0) = .error e w' ∧
      w'.model = (readIn "[1, 2, 3]" 0).model := by
  have held : (readIn "[1, 2, 3]" 0).model.Holds 1 := by decide +kernel
  have heldNode : (readIn "[1, 2, 3]" 0).model.Holds 2 := by decide +kernel
  have refused : (Build.host.insertAfter 1 2).breaksAt (readIn "[1, 2, 3]" 0) (fun _ _ => true) = true := by
    decide +kernel
  obtain ⟨e, w', ran, -⟩ := EStateM.exists_error refused
  refine ⟨held, heldNode, e, w', ran, ?_⟩
  have same := (unchanged_iff_of_refused Build.quiet_host (reachable_readIn "[1, 2, 3]" 0) rfl held
    heldNode e w').1 ran
  refine same.2 fun tears => ?_
  obtain ⟨rest, next, differ, -⟩ := tears
  have follows : ((readIn "[1, 2, 3]" 0).model.node 1).next = some 2 := by decide +kernel
  rw [follows] at next
  exact differ (Option.some.inj next).symm

/-- The items of an inner array cut off, as a chain at top level. -/
def emptied : Workspace := afterCalls (readIn "[1, 2, [3, 4]]" 0) [.unlink "n4" itemsSlot]

/-- A chain at top level put between two items: it is linked behind the first one before the edit is
refused, for its own first node is followed by another. -/
theorem not_unchanged_of_refused : ¬ ∀ {w : Workspace}, Reachable w → ∀ {anchor node : Key},
    w.model.Holds anchor → w.model.Holds node → ∀ {e : Error} {w' : Workspace},
      Build.host.insertAfter anchor node w = .error e w' → w'.model = w.model := by
  intro all
  have reached : Reachable emptied := (reachable_readIn "[1, 2, [3, 4]]" 0).afterCalls _
  have before : emptied.model.roots = [0, 4] := by decide +kernel
  have refused : (Build.host.insertAfter 1 4).breaksAt emptied
      (fun _ w' => decide (w'.model.roots = [0, 2])) = true := by decide +kernel
  obtain ⟨e, w', ran, after⟩ := EStateM.exists_error refused
  have roots : w'.model.roots = [0, 2] := of_decide_eq_true after
  rw [all reached (by decide +kernel) (by decide +kernel) ran, before] at roots
  cases roots

end DocSync
