import DocSync.Patch.Plan
import DocSync.Proofs.Change.Diff
import DocSync.Proofs.Outcome

/-!
What the parts of a plan settle. Where the changes tell the difference of the two models, ids lead to
partners, the check of the top level finds partners for all that has no owner, and the splices of a
slot are had only if what stayed of its chain is still there in the same order.
-/

namespace DocSync

namespace PatchTask

/-- The two models of a task are sound, and its changes tell their difference. -/
structure Proper (t : PatchTask) : Prop where
  soundRead : t.read.Sound
  soundLive : t.live.Sound
  tells : t.changes.Tells t.read t.live

variable {t : PatchTask} {a b j k : Key}

theorem nodeIn_id {m : Model} (sound : m.Sound) (held : m.Holds k) :
    nodeIn m (m.node k).id = .ok k := by
  rw [nodeIn, sound.find?_id held]

/-- A plan is settled from the drafts of its parts, each of which was had. -/
theorem exists_parts_of_plan {plan : SplicePlan} (planned : t.plan = .ok plan) :
    ∃ edits slots pieces whole edges, t.checkTopLevel = .ok () ∧
      t.changes.fieldChanges.mapM t.fieldEdit = .ok edits ∧ t.affectedSlots = .ok slots ∧
      slots.mapM (fun slot => t.slotSplices slot.1 slot.2) = .ok pieces ∧
      (edits.filterMap Sum.getRight?).eraseDups.mapM t.wholeNode = .ok whole ∧
      t.edgeSplices = .ok edges ∧
      Draft.settle t.text.length
        (edits.filterMap Sum.getLeft? ++ pieces.flatten ++ whole.map Prod.fst ++ edges)
        (whole.map Prod.snd) = .ok plan := by
  simp only [PatchTask.plan, bind, Except.bind] at planned
  -- The plan is had only if none of its parts has failed.
  split at planned
  · cases planned
  · cases checked : t.checkTopLevel with
    | error e => simp [checked] at planned
    | ok _ =>
    cases edited : t.changes.fieldChanges.mapM t.fieldEdit with
    | error e => simp [checked, edited] at planned
    | ok edits =>
    cases affected : t.affectedSlots with
    | error e => simp [checked, edited, affected] at planned
    | ok slots =>
    cases spliced : slots.mapM (fun slot => t.slotSplices slot.1 slot.2) with
    | error e => simp [checked, edited, affected, spliced] at planned
    | ok pieces =>
    cases renewed : (edits.filterMap Sum.getRight?).eraseDups.mapM t.wholeNode with
    | error e => simp [checked, edited, affected, spliced, renewed] at planned
    | ok whole =>
    cases beside : t.edgeSplices with
    | error e => simp [checked, edited, affected, spliced, renewed, beside] at planned
    | ok edges =>
    simp only [checked, edited, affected, spliced, renewed, beside] at planned
    exact ⟨edits, slots, pieces, whole, edges, rfl, rfl, rfl, spliced, renewed, rfl, planned⟩

/-- A link that belongs to a slot belongs to that of the owner. -/
theorem slotOf_eq_ok {m : Model} {link : Joint} {owner : Key} (sound : m.Sound)
    (joins : m.Joins link) (owned : (m.node link.child).owner = some owner) :
    slotOf m link.parent ((m.node link.parent).edgeName link.edge) =
      .ok (owner, (m.node owner).edgeName .child) := by
  obtain ⟨p, e, c⟩ := link
  change (m.node c).owner = some owner at owned
  change slotOf m p ((m.node p).edgeName e) = _
  obtain ⟨child, parent⟩ := sound.back joins.1 joins.2
  have above := sound.owner child
  rw [parent, owned, Option.bind_some] at above
  cases e with
  | child =>
    obtain rfl : owner = p := Option.some.inj above
    exact if_neg (Kind.slot?_ne_nextName _)
  | next =>
    have ownedP : (m.node p).owner = some owner := above.symm
    simp only [slotOf, Node.edgeName, if_pos, Model.container?, ownedP, Option.map_some]

namespace Proper

variable (proper : t.Proper)
include proper

theorem becameOf_of_partners (partners : Partners t.read t.live a b) : t.becameOf a = .ok b := by
  rw [becameOf]
  simp only [proper.tells.newId?_of_partners proper.soundRead partners]
  exact nodeIn_id proper.soundLive (partners.holds_right proper.soundLive)

/-- A node of the read model became its partner. -/
theorem becameOf_eq_ok_iff (held : t.read.Holds a) :
    t.becameOf a = .ok b ↔ Partners t.read t.live a b := by
  refine ⟨fun became => ?_, proper.becameOf_of_partners⟩
  by_cases partner : ∃ c, Partners t.read t.live a c
  · obtain ⟨c, partners⟩ := partner
    rw [proper.becameOf_of_partners partners] at became
    exact Except.ok.inj became ▸ partners
  · rw [becameOf] at became
    simp only [proper.tells.newId?_of_lone proper.soundRead held (not_exists.1 partner)] at became
    cases became

/-- A node stayed if it has a partner. -/
theorem stayed_iff (held : t.read.Holds a) :
    t.stayed a = true ↔ ∃ b, Partners t.read t.live a b := by
  rw [stayed]
  by_cases partner : ∃ c, Partners t.read t.live a c
  · obtain ⟨c, partners⟩ := partner
    rw [proper.tells.newId?_of_partners proper.soundRead partners]
    exact iff_of_true rfl ⟨c, partners⟩
  · rw [proper.tells.newId?_of_lone proper.soundRead held (not_exists.1 partner)]
    exact iff_of_false Bool.false_ne_true partner

/-! ### The top level -/

/-- Where no node at top level came or went, all nodes without owner have partners. -/
theorem partners_of_checkTopLevel (checked : t.checkTopLevel = .ok ()) :
    (∀ {a}, t.read.Holds a → (t.read.node a).owner = none → ∃ b, Partners t.read t.live a b) ∧
      ∀ {b}, t.live.Holds b → (t.live.node b).owner = none → ∃ a, Partners t.read t.live a b := by
  simp only [checkTopLevel, bind, Except.bind] at checked
  split at checked
  · cases checked
  · next kept =>
    -- A node at top level without partner would be deleted, or created, and refused for it.
    have kept := Except.forM_eq_ok.1 kept
    have fresh := Except.forM_eq_ok.1 checked
    constructor
    · intro a held top
      by_contra lone
      obtain ⟨ks, _, member, deleted⟩ := proper.tells.deleted
      have inside := List.mem_map_of_mem (f := fun k => (t.read.node k).id)
        ((member a).2 ⟨held, not_exists.1 lone⟩)
      rw [← deleted] at inside
      obtain ⟨node, listed, id⟩ := List.mem_map.1 inside
      have refused := kept node listed
      simp [id, nodeIn_id proper.soundRead held, top, throw, throwThe, MonadExceptOf.throw]
        at refused
    · intro b held top
      by_contra lone
      obtain ⟨ks, _, member, created⟩ := proper.tells.created
      have inside := List.mem_map_of_mem
        (f := fun k => ((t.live.node k).id, (t.live.node k).kind, (t.live.node k).fields))
        ((member b).2 ⟨held, not_exists.1 lone⟩)
      rw [← created] at inside
      obtain ⟨node, listed, same⟩ := List.mem_map.1 inside
      have refused := fresh node listed
      have id : node.id = (t.live.node b).id := congrArg Prod.fst same
      simp [id, nodeIn_id proper.soundLive held, top, throw, throwThe, MonadExceptOf.throw]
        at refused

/-! ### Slots whose chains changed -/

/-- The slot that lost a link is affected if its node stayed. -/
theorem mem_affectedSlots_of_removed {slots : List (Key × String)} {link : Joint} {owner : Key}
    (affected : t.affectedSlots = .ok slots) (joins : t.read.Joins link)
    (lost : ¬ ∃ link', t.live.Joins link' ∧ JointPartners t.read t.live link link')
    (owned : (t.read.node link.child).owner = some owner) (stays : t.stayed owner = true) :
    (owner, (t.read.node owner).edgeName .child) ∈ slots := by
  simp only [affectedSlots, bind, Except.bind, pure, Except.pure] at affected
  split at affected
  · cases affected
  · next removed fromRemoved =>
    split at affected
    · cases affected
    · next added fromAdded =>
      cases affected
      -- The link is one of those that the changes remove, so its slot was looked for and found.
      obtain ⟨js, _, member, listed⟩ := proper.tells.removed
      have inside := List.mem_map_of_mem (f := fun j : Joint =>
        (⟨(t.read.node j.parent).id, (t.read.node j.parent).edgeName j.edge,
          (t.read.node j.child).id⟩ : Link)) ((member link).2 ⟨joins, lost⟩)
      rw [← listed] at inside
      obtain ⟨slot, there, found⟩ := Except.exists_of_mapM fromRemoved inside
      have same : slot = some (owner, (t.read.node owner).edgeName .child) := by
        simp only [slotRemovedFrom, bind, Except.bind, nodeIn_id proper.soundRead joins.1,
          slotOf_eq_ok proper.soundRead joins owned, pure, Except.pure, stays, if_true] at found
        exact (Except.ok.inj found).symm
      rw [List.mem_eraseDups, List.mem_filterMap]
      exact ⟨slot, List.mem_append_left _ there, by rw [same]; rfl⟩

/-- What stayed of a slot that can be spliced is still in the slot. -/
theorem mem_childrenAt_of_slotSplices {owner owner' : Key} {slot : String} {drafts : List Draft}
    (spliced : t.slotSplices owner slot = .ok drafts) (became : t.becameOf owner = .ok owner')
    (inside : a ∈ t.read.childrenAt owner slot) (partners : Partners t.read t.live a b)
    (held : ∀ k ∈ t.live.childrenAt owner' slot, t.live.Holds k) :
    b ∈ t.live.childrenAt owner' slot := by
  simp only [slotSplices, became, bind, Except.bind] at spliced
  split at spliced
  · cases spliced
  · next same =>
    have same := not_not.1 same
    have heldA := partners.holds_left proper.soundRead
    have stays : t.stayed a = true := (proper.stayed_iff heldA).2 ⟨b, partners⟩
    have name := List.mem_map_of_mem (f := fun k => (t.read.node k).id.name)
      (List.mem_filter.2 ⟨inside, stays⟩)
    rw [same] at name
    obtain ⟨id, kept, equal⟩ := List.mem_map.1 name
    obtain ⟨k, there, found⟩ := List.mem_filterMap.1 kept
    -- Whatever is known by the old id there is the partner.
    by_cases partner : ∃ c, Partners t.read t.live c k
    · obtain ⟨c, other⟩ := partner
      rw [proper.tells.oldId?_of_partners proper.soundLive other] at found
      cases found
      obtain rfl := proper.soundRead.named (other.holds_left proper.soundRead) heldA equal
      exact partners.right_unique proper.soundRead other ▸ there
    · rw [proper.tells.oldId?_of_lone proper.soundLive (held k there) (not_exists.1 partner)] at found
      cases found

end Proper

end PatchTask

end DocSync
