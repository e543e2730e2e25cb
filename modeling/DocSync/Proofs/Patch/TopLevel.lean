import DocSync.Proofs.Model.Built
import DocSync.Proofs.Patch.Slots

/-!
The top level under a patch. A plan is had only if no node at top level came or went, but a node that
left a slot is missed where the owner of the slot went too. Short of that, a plan means that the top
level has stayed what it was.
-/

namespace DocSync

variable {t : PatchTask} {a b k r : Key}

/-- The nodes at the top level of the live model are those that the ones of the text became. -/
def PatchTask.TopKept (t : PatchTask) : Prop :=
  (∀ r ∈ t.read.roots, ∃ k ∈ t.live.roots, t.becameOf r = .ok k) ∧
    ∀ k ∈ t.live.roots, ∃ r ∈ t.read.roots, t.becameOf r = .ok k

/-- A node of the live model was read inside a node that did not stay. -/
def PatchTask.Orphaned (t : PatchTask) (k : Key) : Prop :=
  ∃ a owner, t.read.Holds a ∧ (t.read.node a).owner = some owner ∧ t.stayed owner = false ∧
    t.becameOf a = .ok k

namespace PatchTask.Proper

variable (proper : t.Proper)
include proper

/-- A node that came to the top level has left no slot whose owner stayed. -/
theorem not_stayed_of_root {plan : SplicePlan} (planned : t.plan = .ok plan) (root : k ∈ t.live.roots)
    (partners : Partners t.read t.live a k) {owner : Key}
    (owned : (t.read.node a).owner = some owner) : t.stayed owner = false := by
  obtain ⟨_, slots, pieces, _, _, _, _, affected, spliced, _⟩ := exists_parts_of_plan planned
  have soundRead := proper.soundRead
  have soundLive := proper.soundLive
  have held := partners.holds_left soundRead
  cases parent : (t.read.node a).parent with
  | none => simp [soundRead.owner held, parent] at owned
  | some above =>
    obtain ⟨p, e⟩ := above
    obtain ⟨heldP, target⟩ := soundRead.forth held parent
    have joins : t.read.Joins ⟨p, e, a⟩ := ⟨heldP, target⟩
    -- The link to the node fell, as nothing leads to a node at top level.
    have lost : ¬ ∃ link', t.live.Joins link' ∧ JointPartners t.read t.live ⟨p, e, a⟩ link' := by
      rintro ⟨⟨p', e', c'⟩, joins', _, _, below⟩
      obtain rfl : c' = k := below.right_unique soundRead partners
      have back := (soundLive.back joins'.1 joins'.2).2
      rw [soundLive.parent_root root] at back
      cases back
    by_contra stays
    have stays : t.stayed owner = true := by simpa using stays
    have heldO : t.read.Holds owner :=
      soundRead.holds_of_over held (soundRead.over_of_owner held owned).1
    obtain ⟨owner', partnersO⟩ := (proper.stayed_iff heldO).1 stays
    have heldO' := partnersO.holds_right soundLive
    have slot := proper.mem_affectedSlots_of_removed affected joins lost owned stays
    obtain ⟨drafts, _, had⟩ := Except.exists_of_mapM spliced slot
    have sameName := Node.edgeName_congr partnersO.kind_eq .child
    have kept := proper.mem_childrenAt_of_slotSplices had (proper.becameOf_of_partners partnersO)
      (by rw [soundRead.childrenAt_edgeName heldO]; exact (soundRead.mem_children_iff heldO held).2 owned)
      partners fun x inside => by
        rw [sameName, soundLive.childrenAt_edgeName heldO'] at inside
        exact (soundLive.over_of_mem_children heldO' inside).2
    rw [sameName, soundLive.childrenAt_edgeName heldO',
      soundLive.mem_children_iff heldO' (soundLive.holds_root root), soundLive.owner_root root] at kept
    cases kept

/-- Where the text has one node at top level and a plan is had, the top level has been kept just if
no node at the top of the live model was read inside a node that went. -/
theorem topKept_iff {plan : SplicePlan} (planned : t.plan = .ok plan) (single : t.read.roots = [r])
    (alone : (t.read.node r).next = none) :
    t.TopKept ↔ ∀ k ∈ t.live.roots, ¬ t.Orphaned k := by
  have soundRead := proper.soundRead
  have soundLive := proper.soundLive
  have rootR : r ∈ t.read.roots := by simp [single]
  have heldR := soundRead.holds_root rootR
  constructor
  · rintro ⟨_, kept⟩ k root ⟨a, owner, held, owned, _, became⟩
    obtain ⟨r', rootR', becameR⟩ := kept k root
    have partners := (proper.becameOf_eq_ok_iff held).1 became
    have partnersR := (proper.becameOf_eq_ok_iff (soundRead.holds_root rootR')).1 becameR
    obtain rfl := partners.left_unique soundLive partnersR
    rw [soundRead.owner_root rootR'] at owned
    cases owned
  · intro none
    obtain ⟨_, _, _, _, _, checked, _⟩ := exists_parts_of_plan planned
    obtain ⟨stayed, known⟩ := proper.partners_of_checkTopLevel checked
    -- A node that no slot holds can only be the node at top level.
    have onlyRoot : ∀ {a}, t.read.Holds a → (t.read.node a).owner = Option.none → a = r :=
      soundRead.eq_of_owner_none single alone
    -- So it is what every node at the top of the live model was.
    have fromRoot : ∀ k ∈ t.live.roots, Partners t.read t.live r k := by
      intro k root
      obtain ⟨a, partners⟩ := known (soundLive.holds_root root) (soundLive.owner_root root)
      have held := partners.holds_left soundRead
      cases owned : (t.read.node a).owner with
      | none => exact onlyRoot held owned ▸ partners
      | some owner =>
        exact (none k root ⟨a, owner, held, owned,
          proper.not_stayed_of_root planned root partners owned,
          proper.becameOf_of_partners partners⟩).elim
    constructor
    · intro r' rootR'
      obtain rfl : r' = r := by simpa [single] using rootR'
      obtain ⟨b, partners⟩ := stayed heldR (soundRead.owner_root rootR)
      -- What stands above its partner is its partner too.
      obtain ⟨top, atop, free⟩ := soundLive.exists_root (partners.holds_right soundLive)
      have heldTop := soundLive.holds_of_over (partners.holds_right soundLive) atop
      have root : top ∈ t.live.roots := soundLive.root_iff.2 ⟨heldTop, free⟩
      exact ⟨top, root, proper.becameOf_of_partners (fromRoot top root)⟩
    · exact fun k root => ⟨r, rootR, proper.becameOf_of_partners (fromRoot k root)⟩

end PatchTask.Proper

/-- A task made of the model of a text, an edited model and the changes between them. -/
theorem PatchTask.proper_of_reconcile {text : String} {file : Json} {supply count : Nat}
    (built : Model.build text file supply = .ok (t.read, count)) {live : Workspace}
    (reached : Reachable live) (edited : t.live = live.model) {config : Config} {withModels : Bool}
    (made : reconcile config t.read t.live withModels = .ok t.changes) : t.Proper := by
  have soundRead := Model.sound_of_build built
  have soundLive : t.live.Sound := edited ▸ reached.sound
  exact ⟨soundRead, soundLive, tells_of_reconcile soundRead soundLive made⟩

/-- A plan from any edited model to the text keeps the top level, unless the edits brought a node to
the top from inside one that went. -/
theorem topKept_iff_of_plan {text : String} {file : Json} {supply count : Nat} {read : Model}
    (built : Model.build text file supply = .ok (read, count)) {live : Workspace}
    (reached : Reachable live) {config : Config} {withModels : Bool} {changes : ChangeSet}
    (made : reconcile config read live.model withModels = .ok changes) {settings : Config}
    {plan : SplicePlan} (planned : PatchTask.plan ⟨settings, text, read, live.model, changes⟩ =
      .ok plan) :
    PatchTask.TopKept ⟨settings, text, read, live.model, changes⟩ ↔
      ∀ k ∈ live.model.roots, ¬ PatchTask.Orphaned ⟨settings, text, read, live.model, changes⟩ k := by
  obtain ⟨tree, _, spelled⟩ := Build.spelled_of_build built
  obtain ⟨root, single, alone, _⟩ := spelled.single
  have proper : PatchTask.Proper ⟨settings, text, read, live.model, changes⟩ :=
    PatchTask.proper_of_reconcile built reached rfl made
  exact proper.topKept_iff planned single alone

/-- The task of carrying calls on the model of a text over to the text. -/
def taskOf (text : String) (calls : List Call) : PatchTask where
  config := {}
  text := text
  read := (readIn text 0).model
  live := (afterCalls (readIn text (readIn text 0).supply) calls).model
  changes := (reconcile {} (readIn text 0).model
    (afterCalls (readIn text (readIn text 0).supply) calls).model).toOption.getD {}

theorem taskOf_made {text : String} {calls : List Call}
    (made : (reconcile {} (taskOf text calls).read (taskOf text calls).live).toOption.isSome = true) :
    reconcile {} (taskOf text calls).read (taskOf text calls).live =
      .ok (taskOf text calls).changes := by
  obtain ⟨changes, known⟩ := Except.exists_ok made
  simp only [taskOf] at known ⊢
  rw [known]
  rfl

/-- A scalar is given another value where it stands. -/
def valueTask : PatchTask := taskOf "[1, 2]" [.setField "n5" valueName (some "3")]

theorem topKept_of_setField : valueTask.TopKept := by
  have ready : (Model.build "[1, 2]" .null 0).toOption.isSome = true ∧
      (reconcile {} valueTask.read valueTask.live).toOption.isSome = true ∧
      valueTask.plan.toOption.isSome = true ∧ valueTask.read.nodes.size = 3 ∧
      ∀ a < 3, ∀ k ∈ valueTask.live.roots,
        (valueTask.becameOf a).toOption = some k → (valueTask.read.node a).owner = none := by
    decide +kernel
  obtain ⟨parses, alike, planned, size, top⟩ := ready
  obtain ⟨plan, planned⟩ := Except.exists_ok planned
  refine (topKept_iff_of_plan (build_eq_readIn parses)
    ((reachable_readIn "[1, 2]" (readIn "[1, 2]" 0).supply).afterCalls _)
    (taskOf_made alike) planned).2 ?_
  -- What became the one node at top level was owned by none.
  rintro k root ⟨a, owner, held, owned, _, became⟩
  have free := top a (size ▸ held.1) k root (congrArg Except.toOption became)
  exact nomatch owned.symm.trans free

/-- A pair is brought to the top, and the object around it goes. -/
def strandedTask : PatchTask := taskOf "[\x7b\"a\": 1\x7d]" [.detach "n6", .remove "n5"]

/-- Of a pair that came to the top from inside an object that went, a plan leaves nothing. -/
theorem not_topKept_of_detach_remove :
    ∃ read count live changes plan, Model.build "[\x7b\"a\": 1\x7d]" .null 0 = .ok (read, count) ∧
      Reachable live ∧ reconcile {} read live.model = .ok changes ∧
      PatchTask.plan ⟨{}, "[\x7b\"a\": 1\x7d]", read, live.model, changes⟩ = .ok plan ∧
      ¬ PatchTask.TopKept ⟨{}, "[\x7b\"a\": 1\x7d]", read, live.model, changes⟩ := by
  have ready : (Model.build "[\x7b\"a\": 1\x7d]" .null 0).toOption.isSome = true ∧
      (reconcile {} strandedTask.read strandedTask.live).toOption.isSome = true ∧
      strandedTask.plan.toOption.isSome = true ∧ 2 ∈ strandedTask.live.roots ∧
      ∀ r ∈ strandedTask.read.roots, (strandedTask.becameOf r).toOption ≠ some 2 := by
    decide +kernel
  obtain ⟨parses, alike, planned, root, strange⟩ := ready
  obtain ⟨plan, planned⟩ := Except.exists_ok planned
  refine ⟨_, _, _, _, plan, build_eq_readIn parses,
    (reachable_readIn _ (readIn "[\x7b\"a\": 1\x7d]" 0).supply).afterCalls [.detach "n6", .remove "n5"],
    taskOf_made alike, planned, fun ⟨_, kept⟩ => ?_⟩
  obtain ⟨r, top, became⟩ := kept 2 root
  exact strange r top (congrArg Except.toOption became)

end DocSync
