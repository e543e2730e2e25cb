import DocSync.Proofs.Change.Idle
import DocSync.Proofs.Change.Rebuilt

/-!
Change sets without entries. Where nothing has to be changed every node has a partner of the same
content, so the alignment pairs the two sides place by place, and the old model is the new one carried
over.
-/

namespace DocSync

variable {old new : Model} {c : ChangeSet} {a b : Key}

/-! ### Pairings that leave no place out -/

namespace Alignment.Pairing

variable {α κ : Type} {classOf : α → κ} {xs ys : List α} {pairs : List (Nat × Nat)}

/-- If every place has a partner, and partners are equal elements, each place is its own partner. -/
theorem eq_of_mem (pairing : Pairing classOf xs ys 0 0 pairs)
    (allOld : ∀ i < xs.length, ∃ j, (i, j) ∈ pairs) (allNew : ∀ j < ys.length, ∃ i, (i, j) ∈ pairs)
    (equal : ∀ p ∈ pairs, xs[p.1]? = ys[p.2]?) {i j : Nat} (paired : (i, j) ∈ pairs) : i = j := by
  -- The pairing keeps the order of places, and so cannot be the first to move one.
  have order : ∀ {i j i' j' : Nat}, (i, j) ∈ pairs → (i', j') ∈ pairs →
      (i < i' ↔ j < j') ∧ (i' < i ↔ j' < j) := by
    intro i j i' j' first second
    obtain ⟨a, b, here, -, -⟩ := pairing.exists_of_mem first
    exact pairing.order first second here ((equal _ first).symm.trans here)
  have within : ∀ {i j : Nat}, (i, j) ∈ pairs → i < xs.length ∧ j < ys.length := by
    intro i j paired
    obtain ⟨a, b, here, there, -⟩ := pairing.exists_of_mem paired
    exact ⟨(List.getElem?_eq_some_iff.1 here).1, (List.getElem?_eq_some_iff.1 there).1⟩
  induction i using Nat.strongRecOn generalizing j with
  | ind i ih =>
    rcases Nat.lt_trichotomy i j with before | same | behind
    · -- The place `i` on the new side would belong to an earlier one, which is its own partner.
      obtain ⟨k, other⟩ := allNew i (Nat.lt_trans before (within paired).2)
      have earlier : k < i := (order other paired).1.2 before
      have := ih k earlier other
      omega
    · exact same
    · -- The place `j` on the old side would lead to an earlier one still.
      obtain ⟨k, other⟩ := allOld j (Nat.lt_trans behind (within paired).1)
      have earlier : k < j := (order other paired).1.1 behind
      have := ih j behind other
      omega

/-- Then the two sequences are the same. -/
theorem eq_of_total (pairing : Pairing classOf xs ys 0 0 pairs)
    (allOld : ∀ i < xs.length, ∃ j, (i, j) ∈ pairs) (allNew : ∀ j < ys.length, ∃ i, (i, j) ∈ pairs)
    (equal : ∀ p ∈ pairs, xs[p.1]? = ys[p.2]?) : xs = ys := by
  refine List.ext_getElem? fun i => ?_
  by_cases old : i < xs.length
  · obtain ⟨j, paired⟩ := allOld i old
    obtain rfl := pairing.eq_of_mem allOld allNew equal paired
    exact equal _ paired
  · rw [List.getElem?_eq_none (Nat.not_lt.1 old)]
    by_cases new : i < ys.length
    · obtain ⟨j, paired⟩ := allNew i new
      obtain rfl := pairing.eq_of_mem allOld allNew equal paired
      rw [← equal _ paired, List.getElem?_eq_none (Nat.not_lt.1 old)]
    · rw [List.getElem?_eq_none (Nat.not_lt.1 new)]

end Alignment.Pairing

/-! ### Models that do not differ -/

/-- Fields of which none differs are the same. -/
theorem ChangeSet.eq_of_fieldsChanged {id : NodeId} {old new : Dict String}
    (none : fieldsChanged id old new = []) : old = new := by
  refine Dict.ext_get? fun name => ?_
  by_cases inside : name ∈ (old.entries ++ new.entries).map Prod.fst
  · have alike := List.filterMap_eq_nil_iff.1 none name (Dict.mem_keys_ofList.2 inside)
    by_contra differ
    simp [differ] at alike
  · -- Neither side has a field of a name that no entry gives.
    rw [List.map_append, List.mem_append, not_or] at inside
    rw [Dict.get?_eq_none_iff.2 inside.1, Dict.get?_eq_none_iff.2 inside.2]

/-- The parts of a change set without entries are empty. -/
theorem ChangeSet.parts_of_isEmpty (empty : c.isEmpty = true) :
    c.removedLinks = [] ∧ c.deletions = [] ∧ c.creations = [] ∧ c.addedLinks = [] ∧
      c.fieldChanges = [] := by
  have none : c.entries = [] := List.isEmpty_iff.1 empty
  simpa [ChangeSet.entries, and_assoc] using none

namespace ChangeSet.Tells

variable (tells : c.Tells old new) (empty : c.isEmpty = true)
include tells empty

/-- Every old node has a partner. -/
theorem exists_new_partner (held : old.Holds a) : ∃ b, Partners old new a b :=
  tells.deletions_eq_nil_iff.1 (parts_of_isEmpty empty).2.1 a held

/-- Every new node has a partner. -/
theorem exists_old_partner (held : new.Holds b) : ∃ a, Partners old new a b :=
  tells.creations_eq_nil_iff.1 (parts_of_isEmpty empty).2.2.1 b held

/-- Partners have the same content. -/
theorem content_eq_of_partners (partners : Partners old new a b) :
    old.contentOf a = new.contentOf b := by
  obtain ⟨ps, -, memPs, changed⟩ := tells.changed
  rw [(parts_of_isEmpty empty).2.2.2.2, eq_comm, List.flatMap_eq_nil_iff] at changed
  have fields := eq_of_fieldsChanged (changed (a, b) ((memPs a b).2 partners))
  rw [Model.contentOf, Model.contentOf, partners.kind_eq, fields]

/-- Every old link has a partner. -/
theorem exists_new_joint {j : Joint} (joins : old.Joins j) :
    ∃ j', new.Joins j' ∧ JointPartners old new j j' := by
  -- A link without partner would be removed.
  obtain ⟨js, -, memJs, links⟩ := tells.removed
  rw [(parts_of_isEmpty empty).1, eq_comm, List.map_eq_nil_iff] at links
  by_contra alone
  have member := (memJs j).2 ⟨joins, alone⟩
  simp [links] at member

/-- Every new link has a partner. -/
theorem exists_old_joint {j : Joint} (joins : new.Joins j) :
    ∃ j', old.Joins j' ∧ JointPartners old new j' j := by
  -- A link without partner would be added.
  obtain ⟨js, -, memJs, links⟩ := tells.added
  rw [(parts_of_isEmpty empty).2.2.2.1, eq_comm, List.map_eq_nil_iff] at links
  by_contra alone
  have member := (memJs j).2 ⟨joins, alone⟩
  simp [links] at member

variable (soundOld : old.Sound) (soundNew : new.Sound)
include soundOld soundNew

/-- The alignment pairs each place with itself, and both sides show the same there. -/
theorem places_of_isEmpty :
    old.canonicalOrder.map old.contentOf = new.canonicalOrder.map new.contentOf ∧
      ∀ i j, (i, j) ∈ contentPairs old new → i = j := by
  have pairing := pairing_contentPairs old new
  -- No place on either side is left out of the alignment.
  have allOld : ∀ i < (old.canonicalOrder.map old.contentOf).length,
      ∃ j, (i, j) ∈ contentPairs old new := by
    intro i inside
    rw [List.length_map] at inside
    have here : old.canonicalOrder[i]? = some old.canonicalOrder[i] := List.getElem?_eq_getElem inside
    obtain ⟨b, i', j, paired, atI, -⟩ := tells.exists_new_partner empty
      (soundOld.mem_canonicalOrder.1 (List.mem_of_getElem? here))
    obtain rfl := getElem?_unique soundOld.nodup_canonicalOrder here atI
    exact ⟨j, paired⟩
  have allNew : ∀ j < (new.canonicalOrder.map new.contentOf).length,
      ∃ i, (i, j) ∈ contentPairs old new := by
    intro j inside
    rw [List.length_map] at inside
    have here : new.canonicalOrder[j]? = some new.canonicalOrder[j] := List.getElem?_eq_getElem inside
    obtain ⟨a, i, j', paired, -, atJ⟩ := tells.exists_old_partner empty
      (soundNew.mem_canonicalOrder.1 (List.mem_of_getElem? here))
    obtain rfl := getElem?_unique soundNew.nodup_canonicalOrder here atJ
    exact ⟨i, paired⟩
  -- What is paired is alike, because nothing is changed.
  have equal : ∀ p ∈ contentPairs old new, (old.canonicalOrder.map old.contentOf)[p.1]? =
      (new.canonicalOrder.map new.contentOf)[p.2]? := by
    rintro ⟨i, j⟩ paired
    obtain ⟨u, v, left, right, -⟩ := pairing.exists_of_mem paired
    rw [List.getElem?_map, Option.map_eq_some_iff] at left right
    obtain ⟨a, atI, rfl⟩ := left
    obtain ⟨b, atJ, rfl⟩ := right
    rw [List.getElem?_map, List.getElem?_map, atI, atJ, Option.map_some, Option.map_some,
      tells.content_eq_of_partners empty ⟨i, j, paired, atI, atJ⟩]
  exact ⟨pairing.eq_of_total allOld allNew equal, fun i j paired =>
    pairing.eq_of_mem allOld allNew equal paired⟩

/-- Where there is nothing to change, the old model is the new one carried over, and a snapshot takes
the nodes of both in the same order. -/
theorem carriedOver_of_isEmpty : ∃ image, CarriedOver old new c.carry image ∧
    old.canonicalOrder = new.canonicalOrder.map image := by
  -- Every new node is carried over from its partner.
  obtain ⟨image, chosen⟩ : ∃ image : Key → Key, ∀ b, new.Holds b → Partners old new (image b) b := by
    classical
    refine ⟨fun b => if held : new.Holds b then (tells.exists_old_partner empty held).choose else 0,
      fun b held => ?_⟩
    simp only [dif_pos held]
    exact (tells.exists_old_partner empty held).choose_spec
  have partner : ∀ {b}, new.Holds b → Partners old new (image b) b := fun held => chosen _ held
  have same : ∀ {a b}, Partners old new a b → image b = a := fun {a b} partners =>
    (partner (partners.holds_right soundNew)).left_unique soundNew partners
  have content := fun {b} (held : new.Holds b) => tells.content_eq_of_partners empty (partner held)
  refine ⟨image, ⟨fun held => (partner held).holds_left soundOld, fun held => ?_,
    fun {a b} heldA heldB equal => ?_, fun held => ?_, fun held => congrArg Prod.fst (content held),
    fun held => congrArg Prod.snd (content held), fun {b} held e => ?_⟩, ?_⟩
  · obtain ⟨b, partners⟩ := tells.exists_new_partner empty held
    exact ⟨b, partners.holds_right soundNew, same partners⟩
  · have partners := partner heldA
    rw [equal] at partners
    exact partners.right_unique soundOld (partner heldB)
  · exact (tells.toMaps.carry_of_partners soundNew (partner held)).symm
  · -- A link on one side has its partner on the other.
    cases leads : (new.node b).target? e with
    | some d =>
      obtain ⟨⟨p, e', k⟩, joins, up, rfl, down⟩ :=
        tells.exists_old_joint empty (j := ⟨b, e, d⟩) ⟨held, leads⟩
      rw [Option.map_some, same up, same down]
      exact joins.2
    | none =>
      cases back : (old.node (image b)).target? e with
      | none => rfl
      | some k =>
        obtain ⟨⟨b', e', d⟩, joins, up, rfl, -⟩ := tells.exists_new_joint empty
          (j := ⟨image b, e, k⟩) ⟨(partner held).holds_left soundOld, back⟩
        obtain rfl : b' = b := up.right_unique soundOld (partner held)
        rw [show (new.node b').target? e = _ from joins.2] at leads
        cases leads
  · -- Place by place the old order has the partners of the new one.
    obtain ⟨contents, places⟩ := tells.places_of_isEmpty empty soundOld soundNew
    have lengths : old.canonicalOrder.length = new.canonicalOrder.length := by
      simpa using congrArg List.length contents
    refine List.ext_getElem (by rw [List.length_map, lengths]) fun i inside inside' => ?_
    rw [List.length_map] at inside'
    have here : new.canonicalOrder[i]? = some new.canonicalOrder[i] := List.getElem?_eq_getElem inside'
    have held := soundNew.mem_canonicalOrder.1 (List.mem_of_getElem? here)
    obtain ⟨i', j, paired, atI, atJ⟩ := partner held
    obtain rfl := getElem?_unique soundNew.nodup_canonicalOrder here atJ
    obtain rfl := places _ _ paired
    rw [List.getElem_map, ← Option.some.injEq, ← atI, List.getElem?_eq_getElem inside]

end ChangeSet.Tells

/-- Models between which there is nothing to change have the same snapshot but for the ids behind the
labels. -/
theorem records_eq_of_isEmpty {config : Config} {withModels : Bool} (soundOld : old.Sound)
    (soundNew : new.Sound) (made : reconcile config old new withModels = .ok c) (empty : c.isEmpty = true) :
    old.snapshot.records = new.snapshot.records := by
  obtain ⟨image, carried, order⟩ :=
    (tells_of_reconcile soundOld soundNew made).carriedOver_of_isEmpty empty soundOld soundNew
  exact carried.records_snapshot soundOld soundNew order

/-! ### Models with a single top-level node -/

/-- The shapes from the first top-level node on. -/
def Model.shapes (m : Model) : List Shape := m.shapesAt m.roots.head?

theorem Model.shapes_of_single {m : Model} {r : Key} (single : m.roots = [r]) :
    m.shapes = m.shapesAt (some r) := by
  rw [Model.shapes, single]
  rfl

/-- What is carried over has the same shapes. -/
theorem CarriedOver.shapes {carry : NodeId → NodeId} {image : Key → Key} {r : Key}
    (carried : CarriedOver m new carry image) (sound : m.Sound) (soundNew : new.Sound)
    (single : new.roots = [r]) : m.shapes = new.shapes := by
  -- The top-level node of the one is the image of that of the other.
  rw [Model.shapes_of_single (carried.roots sound soundNew single), Model.shapes_of_single single]
  exact carried.shapesAt sound soundNew (soundNew.holds_root (by simp [single]))

section Single

variable {config : Config} {r r' : Key} (soundOld : old.Sound) (soundNew : new.Sound)
  (single : old.roots = [r]) (single' : new.roots = [r'])
include soundOld soundNew single'

/-- Where there is nothing to change, the shapes are the same. -/
theorem shapes_eq_of_isEmpty (made : reconcile config old new = .ok c) (empty : c.isEmpty = true) :
    old.shapes = new.shapes := by
  obtain ⟨image, carried, -⟩ :=
    (tells_of_reconcile soundOld soundNew made).carriedOver_of_isEmpty empty soundOld soundNew
  exact carried.shapes soundOld soundNew single'

include single

/-- Where the shapes are the same, there is nothing to change. -/
theorem exists_reconcile_of_shapes {indent : Option Json.Indent}
    (given : config.givenSnapshotIndent = .ok indent) (same : old.shapes = new.shapes) :
    ∃ c, reconcile config old new = .ok c ∧ c.isEmpty = true := by
  rw [Model.shapes_of_single single, Model.shapes_of_single single'] at same
  -- Of two models of the same shapes each is the other one carried over.
  obtain ⟨carry, image, carried, listed⟩ :=
    exists_carriedOver soundNew soundOld single' single same.symm
  exact carried.exists_reconcile soundNew soundOld
    (carried.canonicalOrder soundNew soundOld listed (.refl _) fun _ => rfl) given

end Single

end DocSync
