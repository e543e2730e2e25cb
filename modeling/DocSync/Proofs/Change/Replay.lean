import DocSync.Proofs.Change.Diff
import DocSync.Proofs.Change.Outline

/-!
The replay of a change set, phase by phase: links fall, nodes go, nodes come, links rise, fields
change. In between, the links that stand are always some of those that both models have, and then
some of those of the new model; so no slot is taken twice and no walk returns.
-/

namespace DocSync

variable {m m' m'' : Model} {j : Joint} {k : Key}

/-- A link of a model by the ids of its ends. -/
def Model.linkOf (m : Model) (j : Joint) : Link :=
  ⟨(m.node j.parent).id, (m.node j.parent).edgeName j.edge, (m.node j.child).id⟩

theorem SameNodes.linkOf_eq (same : SameNodes m m') : m'.linkOf = m.linkOf := by
  funext j
  rw [Model.linkOf, Model.linkOf, same.id, same.id, Node.edgeName_congr (same.kind j.parent)]

/-- A link has a name by which its edge is found. -/
theorem Model.Sound.edge?_edgeName (sound : m.Sound) (joins : m.Joins j) :
    (m.node j.parent).edge? ((m.node j.parent).edgeName j.edge) = some j.edge := by
  refine Node.edge?_edgeName _ _ fun isChild => sound.slotted joins.1 ?_
  have target := joins.2
  rw [isChild] at target
  exact Option.isSome_iff_exists.2 ⟨_, target⟩

/-- Links of a model can all be cut. -/
theorem exists_unlinked (sound : m.Sound) {js : List Joint} (nodup : js.Nodup)
    (joined : ∀ j ∈ js, m.Joins j) :
    ∃ m', DoesAll m (js.map fun j => .removeLink (m.linkOf j)) m' ∧ m'.Sound ∧ SameNodes m m' ∧
      ∀ j, m'.Joins j ↔ m.Joins j ∧ j ∉ js := by
  induction js generalizing m with
  | nil => exact ⟨m, .nil m, sound, .refl m, fun j => by simp⟩
  | cons first rest ih =>
    obtain ⟨fresh, later⟩ := List.nodup_cons.1 nodup
    obtain ⟨p, e, c⟩ := first
    have joins := joined _ List.mem_cons_self
    have leads : (m.node p).target? e = some c := joins.2
    obtain ⟨heldC, parent⟩ := sound.back joins.1 leads
    have differ : p ≠ c := fun same => sound.not_over_parent heldC parent (same ▸ .refl)
    have does : Does m (.removeLink (m.linkOf ⟨p, e, c⟩)) (m.rehang p e c false) :=
      .removeLink _ joins.1 rfl rfl (sound.edge?_edgeName joins) leads
    have same := Model.sameNodes_rehang e joins.1 heldC differ false
    -- A link is cut once, so the later ones are still there when their turn comes.
    have left : ∀ j, (m.rehang p e c false).Joins j ↔ m.Joins j ∧ j ≠ ⟨p, e, c⟩ := fun j =>
      Model.joins_rehang_false joins.1 heldC differ leads
    obtain ⟨m', all, sound', same', joins'⟩ := ih (does.sound sound) later fun j member =>
      (left j).2 ⟨joined j (List.mem_cons_of_mem _ member), fun equal => fresh (equal ▸ member)⟩
    rw [same.linkOf_eq] at all
    refine ⟨m', .cons does all, sound', same.trans same', fun j => ?_⟩
    rw [joins', left, List.mem_cons, not_or, and_assoc]

/-- Nodes that are linked nowhere can all go. -/
theorem exists_pruned (sound : m.Sound) (gone : List Specimen) {ks : List Key} (nodup : ks.Nodup)
    (held : ∀ k ∈ ks, m.Holds k) (free : ∀ k ∈ ks, ∀ j, m.Joins j → j.parent ≠ k ∧ j.child ≠ k)
    (ids : gone.map Specimen.id = ks.map fun k => (m.node k).id) :
    ∃ m', DoesAll m (gone.map fun node => .delete node.id (some node.kind) node.content) m' ∧
      m'.Sound ∧ m'.nodes.size = m.nodes.size ∧ (∀ k, m'.Holds k ↔ m.Holds k ∧ k ∉ ks) ∧
      (∀ k, k ∉ ks → m'.node k = m.node k) ∧ ∀ j, m'.Joins j ↔ m.Joins j := by
  induction ks generalizing m gone with
  | nil =>
    obtain rfl : gone = [] := by simpa using ids
    exact ⟨m, .nil m, sound, rfl, by simp, by simp, fun j => .rfl⟩
  | cons k rest ih =>
    obtain ⟨fresh, later⟩ := List.nodup_cons.1 nodup
    cases gone with
    | nil => simp at ids
    | cons node others =>
      rw [List.map_cons, List.map_cons, List.cons.injEq] at ids
      obtain ⟨id, ids⟩ := ids
      have here := held k List.mem_cons_self
      -- No link touches the node, so nothing stands in the way of its deletion.
      have leaf : ∀ e, (m.node k).target? e = none := by
        intro e
        cases target : (m.node k).target? e with
        | none => rfl
        | some c => exact absurd rfl (free k List.mem_cons_self ⟨k, e, c⟩ ⟨here, target⟩).1
      have root : (m.node k).parent = none := by
        cases parent : (m.node k).parent with
        | none => rfl
        | some above =>
          obtain ⟨p, e⟩ := above
          have joins : m.Joins ⟨p, e, k⟩ := sound.forth here parent
          exact absurd rfl (free k List.mem_cons_self _ joins).2
      have does : Does m (.delete node.id (some node.kind) node.content) (m.pruned k) :=
        .delete _ _ _ here (congrArg NodeId.name id.symm) root (leaf .next) (leaf .child)
      have old : ∀ {k'}, k' ≠ k → (m.pruned k).node k' = m.node k' := fun {k'} differ =>
        Model.node_pruned_of_ne (m := m) differ
      have joins : ∀ j, (m.pruned k).Joins j ↔ m.Joins j := fun j => Model.joins_pruned leaf
      have apart : ∀ k' ∈ rest, k' ≠ k := fun k' member same => fresh (same ▸ member)
      have ids' : others.map Specimen.id = rest.map fun k' => ((m.pruned k).node k').id := by
        rw [ids]
        exact List.map_congr_left fun k' member => by rw [old (apart k' member)]
      -- The nodes that are left have kept their names and their links.
      obtain ⟨m', all, sound', size, holds, nodes, joins'⟩ := ih (does.sound sound) others later
        (fun k' member => (m.holds_pruned k k').2
          ⟨held k' (List.mem_cons_of_mem _ member), apart k' member⟩)
        (fun k' member j joined => free k' (List.mem_cons_of_mem _ member) j ((joins j).1 joined))
        ids'
      refine ⟨m', .cons does all, sound', size.trans (m.size_pruned k), fun k' => ?_, fun k' out => ?_,
        fun j => (joins' j).trans (joins j)⟩
      · rw [holds, Model.holds_pruned, List.mem_cons, not_or, and_assoc]
      · rw [List.mem_cons, not_or] at out
        rw [nodes k' out.2, old out.1]

/-- Nodes of new names can all come; they take the next places of the arena. -/
theorem exists_grown (sound : m.Sound) (come : List Specimen)
    (solid : ∀ node ∈ come, node.id.isVoid = false)
    (apart : (come.map fun node => node.id.name).Nodup)
    (fresh : ∀ node ∈ come, ∀ k, m.Holds k → m.nameOf k ≠ node.id.name) :
    ∃ m', DoesAll m (come.map .create) m' ∧ m'.Sound ∧
      (∀ k, m'.Holds k ↔ m.Holds k ∨ ∃ i, i < come.length ∧ k = m.nodes.size + i) ∧
      (∀ k, k < m.nodes.size → m'.node k = m.node k) ∧
      (∀ i node, come[i]? = some node → m'.node (m.nodes.size + i) =
        { node.content with id := node.id, kind := node.kind }) ∧
      ∀ j, m'.Joins j ↔ m.Joins j := by
  induction come generalizing m with
  | nil => exact ⟨m, .nil m, sound, by simp, fun _ _ => rfl, by simp, fun _ => .rfl⟩
  | cons node rest ih =>
    obtain ⟨other, later⟩ := List.nodup_cons.1 apart
    have free : m.find? node.id = none := by
      cases found : m.find? node.id with
      | none => rfl
      | some k =>
        obtain ⟨held, name⟩ := sound.find?_eq_some_iff.1 found
        exact absurd name (fresh node List.mem_cons_self k held)
    have does := Does.create node (solid node List.mem_cons_self) free
    have here := m.node_grown node.id node.kind node.content
    have holds := m.holds_grown node.id node.kind node.content
    -- The later ones meet no node of their name: neither an old one nor the one just made.
    obtain ⟨m', all, sound', holds', olds, news, joins⟩ := ih (does.sound sound)
      (fun n member => solid n (List.mem_cons_of_mem _ member)) later fun n member k held => by
        rcases (holds k).1 held with before | new
        · rw [Model.nameOf, here, if_neg (Nat.ne_of_lt before.1)]
          exact fresh n (List.mem_cons_of_mem _ member) k before
        · rw [Model.nameOf, here, if_pos new]
          exact fun same => other (List.mem_map.2 ⟨n, member, same.symm⟩)
    rw [Model.size_grown] at holds' olds news
    refine ⟨m', .cons does all, sound', fun k => ?_, fun k inside => ?_, fun i n place => ?_,
      fun j => (joins j).trans (Model.joins_grown _ _ _)⟩
    · rw [holds', holds]
      constructor
      · rintro ((before | new) | ⟨i, inside, place⟩)
        · exact .inl before
        · exact .inr ⟨0, by simp, new⟩
        · exact .inr ⟨i + 1, by simpa using inside, place.trans (Nat.add_right_comm _ 1 i)⟩
      · rintro (before | ⟨i, inside, place⟩)
        · exact .inl (.inl before)
        · cases i with
          | zero => exact .inl (.inr place)
          | succ i => exact .inr ⟨i, by simpa using inside, place.trans (Nat.add_right_comm _ i 1)⟩
    · rw [olds k (Nat.lt_succ_of_lt inside), here, if_neg (Nat.ne_of_lt inside)]
    · cases i with
      | zero =>
        obtain rfl : node = n := by simpa using place
        rw [Nat.add_zero, olds _ (Nat.lt_succ_self _), here, if_pos rfl]
      | succ i =>
        have next := news i n (by simpa using place)
        rwa [Nat.add_right_comm, Nat.add_assoc] at next

/-- Nodes come under names only that are new and differ from one another. -/
theorem fresh_of_doesAll (sound : m.Sound) {come : List Specimen}
    (does : DoesAll m (come.map .create) m') :
    (∀ node ∈ come, node.id.isVoid = false) ∧ (come.map fun node => node.id.name).Nodup ∧
      ∀ node ∈ come, ∀ k, m.Holds k → m.nameOf k ≠ node.id.name := by
  induction come generalizing m with
  | nil => simp
  | cons node rest ih =>
    cases does with
    | cons step later =>
      cases step with
      | create _ solid free =>
        have here := m.node_grown node.id node.kind node.content
        have holds := m.holds_grown node.id node.kind node.content
        obtain ⟨solids, apart, fresh⟩ := ih (sound.grown solid free node.kind node.content) later
        refine ⟨List.forall_mem_cons.2 ⟨solid, solids⟩, List.nodup_cons.2 ⟨fun listed => ?_, apart⟩,
          List.forall_mem_cons.2 ⟨fun k held same => ?_, fun n inside k held => ?_⟩⟩
        · -- A later one of this name would meet the one just made.
          obtain ⟨n, inside, same⟩ := List.mem_map.1 listed
          refine fresh n inside m.nodes.size ((holds _).2 (.inr rfl)) ?_
          rw [Model.nameOf, here, if_pos rfl]
          exact same.symm
        · rw [sound.find?_eq_some_iff.2 ⟨held, same⟩] at free
          cases free
        · have other := fresh n inside k ((holds k).2 (.inl held))
          rwa [Model.nameOf, here, if_neg (Nat.ne_of_lt held.1)] at other

/-! ### Links that rise -/

/-- A link with its ends moved. -/
def Joint.map (image : Key → Key) (j : Joint) : Joint := ⟨image j.parent, j.edge, image j.child⟩

/-- A model holds an image of every node of another one, under given ids. -/
structure Images (m new : Model) (image : Key → Key) (ids : Key → NodeId) : Prop where
  holds : ∀ {b}, new.Holds b → m.Holds (image b)
  injective : ∀ {a b}, new.Holds a → new.Holds b → image a = image b → a = b
  id : ∀ {b}, new.Holds b → (m.node (image b)).id = ids b
  kind : ∀ {b}, new.Holds b → (m.node (image b)).kind = (new.node b).kind

theorem Images.sameNodes {new : Model} {image : Key → Key} {ids : Key → NodeId}
    (images : Images m new image ids) (same : SameNodes m m') : Images m' new image ids where
  holds held := (same.holds _).2 (images.holds held)
  injective := images.injective
  id held := (same.id _).trans (images.id held)
  kind held := (same.kind _).trans (images.kind held)

/-- Where all links are images of links, what stands over an image is an image, and stands over it in
the other model too. -/
theorem Images.over_of_over {new : Model} {image : Key → Key} {ids : Key → NodeId}
    (images : Images m new image ids) (sound : m.Sound) (soundNew : new.Sound)
    (known : ∀ j, m.Joins j → ∃ j', new.Joins j' ∧ j = j'.map image) {a b : Key}
    (heldA : new.Holds a) (heldB : new.Holds b) (atop : m.Over (image a) (image b)) :
    new.Over a b := by
  generalize lower : image b = k at atop
  -- Every link on the way down is the image of one of the new model.
  induction atop generalizing b with
  | refl => exact images.injective heldA heldB lower.symm ▸ .refl
  | @step p c e _ held parent ih =>
    obtain ⟨⟨p', e', c'⟩, joins, same⟩ := known ⟨p, e, c⟩ (sound.forth held parent)
    simp only [Joint.map, Joint.mk.injEq] at same
    obtain ⟨rfl, rfl, rfl⟩ := same
    have heldC := soundNew.holds_child joins
    obtain rfl : b = c' := images.injective heldB heldC lower
    exact (ih joins.1 rfl).step heldC (soundNew.back joins.1 joins.2).2

/-- Where the links are the images of links, an image leads to the image of what its node leads to. -/
theorem Images.target {new : Model} {image : Key → Key} {ids : Key → NodeId}
    (images : Images m new image ids) {b : Key} (held : new.Holds b) {e : Edge}
    (joins : ∀ c, m.Joins ⟨image b, e, c⟩ ↔ ∃ j, new.Joins j ∧ (⟨image b, e, c⟩ : Joint) = j.map image) :
    (m.node (image b)).target? e = ((new.node b).target? e).map image := by
  cases target : (new.node b).target? e with
  | some d => exact ((joins (image d)).2 ⟨⟨b, e, d⟩, ⟨held, target⟩, rfl⟩).2
  | none =>
    cases there : (m.node (image b)).target? e with
    | none => rfl
    | some c =>
      obtain ⟨⟨b', e', d⟩, joined, same⟩ := (joins c).1 ⟨images.holds held, there⟩
      simp only [Joint.map, Joint.mk.injEq] at same
      obtain ⟨up, rfl, _⟩ := same
      obtain rfl := images.injective held joined.1 up
      have leads : (new.node b).target? e = some d := joined.2
      rw [target] at leads
      cases leads

section Linking

variable {new : Model} {image : Key → Key} {ids : Key → NodeId} (sound : m.Sound) (soundNew : new.Sound)
  (images : Images m new image ids) (known : ∀ j, m.Joins j → ∃ j', new.Joins j' ∧ j = j'.map image)
include sound soundNew images known

/-- A link whose ends have been made, but that has not, can be made. -/
theorem does_addLink_of_images {p c : Key} {e : Edge} (joins : new.Joins ⟨p, e, c⟩)
    (absent : ¬ m.Joins ⟨image p, e, image c⟩) :
    Does m (.addLink ⟨ids p, (new.node p).edgeName e, ids c⟩) (m.rehang (image p) e (image c) true) ∧
      SameNodes m (m.rehang (image p) e (image c) true) ∧
      ∀ j, (m.rehang (image p) e (image c) true).Joins j ↔ m.Joins j ∨ j = ⟨image p, e, image c⟩ := by
  have heldP : m.Holds (image p) := images.holds joins.1
  have child : new.Holds c := soundNew.holds_child joins
  have heldC : m.Holds (image c) := images.holds child
  have parent : (new.node c).parent = some (p, e) := (soundNew.back joins.1 joins.2).2
  -- Another link from the slot, or into the child, would be the image of this very link.
  have free : (m.node (image p)).target? e = none := by
    cases target : (m.node (image p)).target? e with
    | none => rfl
    | some d =>
      obtain ⟨⟨p', e', d'⟩, joins', same⟩ := known ⟨image p, e, d⟩ ⟨heldP, target⟩
      simp only [Joint.map, Joint.mk.injEq] at same
      obtain ⟨up, rfl, rfl⟩ := same
      obtain rfl := images.injective joins.1 joins'.1 up
      have equal := joins.2.symm.trans joins'.2
      simp only [Option.some.injEq] at equal
      exact absurd ⟨heldP, equal ▸ target⟩ absent
  have root : (m.node (image c)).parent = none := by
    cases above : (m.node (image c)).parent with
    | none => rfl
    | some link =>
      obtain ⟨q, e'⟩ := link
      have joinsQ := sound.forth heldC above
      obtain ⟨⟨p', e'', c'⟩, joins', same⟩ := known ⟨q, e', image c⟩ joinsQ
      simp only [Joint.map, Joint.mk.injEq] at same
      obtain ⟨rfl, rfl, down⟩ := same
      obtain rfl := images.injective child (soundNew.holds_child joins') down
      have equal := soundNew.joins_child_unique joins joins' rfl
      simp only [Joint.mk.injEq, and_true] at equal
      obtain ⟨rfl, rfl⟩ := equal
      exact absurd joinsQ absent
  have apart : ¬ m.Over (image c) (image p) := fun atop =>
    soundNew.not_over_parent child parent (images.over_of_over sound soundNew known child joins.1 atop)
  have differ : image p ≠ image c := fun same => apart (same ▸ .refl)
  have named : (m.node (image p)).edge? ((new.node p).edgeName e) = some e := by
    have found := soundNew.edge?_edgeName joins
    simpa only [Node.edge?, images.kind joins.1] using found
  exact ⟨.addLink _ heldP heldC (congrArg _ (images.id joins.1)) (congrArg _ (images.id child)) named
    free root apart, Model.sameNodes_rehang e heldP heldC differ true,
    fun j => Model.joins_rehang_true heldP heldC differ free⟩

end Linking

/-- Links can all be made that another model has between the nodes whose images they join. -/
theorem exists_linked {new : Model} {image : Key → Key} {ids : Key → NodeId} (sound : m.Sound)
    (soundNew : new.Sound) (images : Images m new image ids)
    (known : ∀ j, m.Joins j → ∃ j', new.Joins j' ∧ j = j'.map image) {js : List Joint}
    (nodup : js.Nodup) (joined : ∀ j ∈ js, new.Joins j ∧ ¬ m.Joins (j.map image)) :
    ∃ m', DoesAll m (js.map fun j => .addLink
        ⟨ids j.parent, (new.node j.parent).edgeName j.edge, ids j.child⟩) m' ∧
      m'.Sound ∧ SameNodes m m' ∧ ∀ j, m'.Joins j ↔ m.Joins j ∨ ∃ j' ∈ js, j = j'.map image := by
  induction js generalizing m with
  | nil => exact ⟨m, .nil m, sound, .refl m, by simp⟩
  | cons first rest ih =>
    obtain ⟨fresh, later⟩ := List.nodup_cons.1 nodup
    obtain ⟨p, e, c⟩ := first
    obtain ⟨joins, absent⟩ := joined _ List.mem_cons_self
    obtain ⟨does, same, after⟩ := does_addLink_of_images sound soundNew images known joins absent
    obtain ⟨m', all, sound', same', joins'⟩ := ih (does.sound sound) (images.sameNodes same)
      (fun j joined' => by
        rcases (after j).1 joined' with before | made
        · exact known j before
        · exact ⟨⟨p, e, c⟩, joins, made⟩)
      later fun j member => by
        obtain ⟨joinsJ, absentJ⟩ := joined j (List.mem_cons_of_mem _ member)
        refine ⟨joinsJ, fun there => ?_⟩
        rcases (after _).1 there with before | made
        · exact absentJ before
        · -- The image tells the link, which stands in the list only once.
          simp only [Joint.map, Joint.mk.injEq] at made
          have up := images.injective joinsJ.1 joins.1 made.1
          have down := images.injective (soundNew.holds_child joinsJ) (soundNew.holds_child joins) made.2.2
          obtain ⟨p', e', c'⟩ := j
          simp only at up down made
          obtain rfl := up
          obtain rfl := down
          obtain ⟨-, rfl, -⟩ := made
          exact fresh member
    refine ⟨m', .cons does all, sound', same.trans same', fun j => ?_⟩
    rw [joins', after, or_assoc, List.exists_mem_cons_iff]
    rfl

/-! ### Fields that change -/

/-- The fields of a node can be changed name by name. -/
theorem exists_assigned (sound : m.Sound) (held : m.Holds k) {id : NodeId}
    (named : (m.node k).id.name = id.name) (old new : Dict String) {names : List String}
    (nodup : names.Nodup) (agree : ∀ n ∈ names, (m.node k).fields.get? n = old.get? n) :
    ∃ m', DoesAll m ((names.filterMap fun name =>
        if old.get? name = new.get? name then none
        else some ⟨id, name, old.get? name, new.get? name⟩).map .changeField) m' ∧
      m'.Sound ∧ Model.SameForest m m' ∧ (∀ j, j ≠ k → m'.node j = m.node j) ∧
      ∀ n, (m'.node k).fields.get? n =
        if n ∈ names then new.get? n else (m.node k).fields.get? n := by
  induction names generalizing m with
  | nil => exact ⟨m, .nil m, sound, .refl m, fun _ _ => rfl, by simp⟩
  | cons name rest ih =>
    obtain ⟨fresh, later⟩ := List.nodup_cons.1 nodup
    have here := agree name List.mem_cons_self
    -- A field that does not differ has no entry; one that does is given its new value.
    by_cases same : old.get? name = new.get? name
    · obtain ⟨m', all, sound', forest, others, fields⟩ := ih sound held named later
        fun n member => agree n (List.mem_cons_of_mem _ member)
      rw [List.filterMap_cons_none (by rw [if_pos same])]
      refine ⟨m', all, sound', forest, others, fun n => ?_⟩
      rw [fields]
      by_cases equal : n = name
      · subst equal
        simp [fresh, here, same]
      · simp [equal]
    · have does : Does m (.changeField ⟨id, name, old.get? name, new.get? name⟩)
          (m.withField k name (new.get? name)) := .changeField _ held named here
      have forest := m.sameForest_withField k name (new.get? name)
      have fields : ((m.withField k name (new.get? name)).node k).fields =
          (m.node k).fields.assign name (new.get? name) := by
        rw [Model.node_withField, if_pos ⟨rfl, held.1⟩]
      obtain ⟨m', all, sound', forest', others, fields'⟩ := ih (does.sound sound)
        (forest.holds_iff.2 held) ((congrArg _ (forest.id k)).trans named) later fun n member => by
          -- A later entry is about another field, which still has its old value.
          have apart : n ≠ name := fun equal => fresh (equal ▸ member)
          rw [fields, Dict.get?_assign, if_neg apart]
          exact agree n (List.mem_cons_of_mem _ member)
      rw [List.filterMap_cons_some (by rw [if_neg same])]
      refine ⟨m', .cons does all, sound', forest.trans forest', fun j differ => ?_, fun n => ?_⟩
      · rw [others j differ, Model.node_withField, if_neg fun both => differ both.1]
      · rw [fields', fields, Dict.get?_assign]
        by_cases equal : n = name
        · subst equal
          simp [fresh]
        · simp [equal]

/-- The fields of several nodes can be changed, one node after the other. -/
theorem exists_refielded (before new : Model) (sound : m.Sound) {ps : List (Key × Key)}
    (nodup : (ps.map Prod.fst).Nodup)
    (start : ∀ p ∈ ps, m.Holds p.1 ∧ (m.node p.1).id = (before.node p.1).id ∧
      (m.node p.1).fields = (before.node p.1).fields) :
    ∃ m', DoesAll m ((ps.flatMap fun p => ChangeSet.fieldsChanged (before.node p.1).id
        (before.node p.1).fields (new.node p.2).fields).map .changeField) m' ∧
      m'.Sound ∧ Model.SameForest m m' ∧ (∀ p ∈ ps, (m'.node p.1).fields = (new.node p.2).fields) ∧
      ∀ k, k ∉ ps.map Prod.fst → m'.node k = m.node k := by
  induction ps generalizing m with
  | nil => exact ⟨m, .nil m, sound, .refl m, by simp, fun _ _ => rfl⟩
  | cons p rest ih =>
    obtain ⟨fresh, later⟩ := List.nodup_cons.1 nodup
    obtain ⟨held, id, fields⟩ := start p List.mem_cons_self
    obtain ⟨m', all, sound', forest, others, changed⟩ := exists_assigned sound held
      (congrArg NodeId.name id) (before.node p.1).fields (new.node p.2).fields
      (Dict.ofList ((before.node p.1).fields.entries ++ (new.node p.2).fields.entries)).nodup_keys
      fun n _ => by rw [fields]
    -- Every name that one of the two maps has was looked at.
    have reached : (m'.node p.1).fields = (new.node p.2).fields := by
      refine Dict.ext_get? fun n => ?_
      rw [changed, fields]
      split
      · rfl
      · next outside =>
        rw [Dict.mem_keys_ofList, List.map_append, List.mem_append, not_or] at outside
        rw [Dict.get?_eq_none_iff.2 outside.1, Dict.get?_eq_none_iff.2 outside.2]
    have apart : ∀ q ∈ rest, q.1 ≠ p.1 := fun q member same =>
      fresh (List.mem_map.2 ⟨q, member, same⟩)
    obtain ⟨m'', all', sound'', forest', reached', others'⟩ := ih sound' later fun q member => by
      obtain ⟨heldQ, idQ, fieldsQ⟩ := start q (List.mem_cons_of_mem _ member)
      rw [others q.1 (apart q member)]
      exact ⟨forest.holds_iff.2 heldQ, idQ, fieldsQ⟩
    refine ⟨m'', ?_, sound'', forest.trans forest', fun q member => ?_, fun k outside => ?_⟩
    · rw [List.flatMap_cons, List.map_append]
      exact all.append all'
    · rcases List.mem_cons.1 member with same | inside
      · rw [same, others' p.1 fresh, reached]
      · exact reached' q inside
    · rw [List.map_cons, List.mem_cons, not_or] at outside
      rw [others' k outside.2, others k outside.1]

end DocSync
