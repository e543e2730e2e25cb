import DocSync.Proofs.Render.YamlFields

/-!
A model as a document and as YAML. The document shows the fields of all nodes and fails if any of them lacks
something; the YAML form passes over what follows a top-level node, and over all but the first of the nodes
that hang on a pair.
-/

namespace DocSync

namespace Model

variable {m : Model} {config : Config} {j k r s : Key}

/-- A model is shown alike as a document and as YAML: both fail or none of them does, and if none does both
show the same fields, each of them once and in the same order. -/
def ShownAlike (m : Model) (config : Config) : Prop :=
  ((∃ e, m.render config = .error e) ↔ ∃ e, m.yaml = .error e) ∧
    ((∃ text, m.render config = .ok text) →
      ∃ fields, Shows (Model.render · config) m fields ∧ Shows Model.yaml m fields)

/-! ### What the YAML form comes to -/

section Reach

variable (sound : m.Sound)
include sound

theorem holds_of_inYaml (inYaml : m.InYaml k) : m.Holds k := by
  obtain ⟨nodes, sub, among, -⟩ := tells_yaml sound
  exact sound.mem_order.1 (sub.subset ((among k).2 inYaml))

omit sound in
theorem yamlChildren_subset (m : Model) (k : Key) : m.yamlChildren k ⊆ m.children k := by
  rw [yamlChildren]
  split
  · exact List.take_subset 1 _
  · exact List.Subset.refl _

/-- But for the top-level nodes the YAML form comes to a node only from the one that owns it. -/
theorem exists_owner_of_inYaml (inYaml : m.InYaml k) :
    k ∈ m.roots ∨ ∃ a, (m.node k).owner = some a ∧ k ∈ m.yamlChildren a := by
  obtain ⟨r, root, leads⟩ := inYaml
  rcases leads.cases_tail with same | ⟨a, above, child⟩
  · exact .inl (same ▸ root)
  · have inside := m.yamlChildren_subset a child
    have heldA := holds_of_inYaml sound ⟨r, root, above⟩
    have heldK := (sound.over_of_mem_children heldA inside).2
    exact .inr ⟨a, (sound.mem_children_iff heldA heldK).1 inside, child⟩

/-- It does not come to what follows a top-level node. -/
theorem not_inYaml_of_next (root : r ∈ m.roots) (next : (m.node r).next = some s) : ¬ m.InYaml s := by
  intro inYaml
  obtain ⟨held, parent⟩ := sound.back (sound.holds_root root) (e := .next) next
  rcases exists_owner_of_inYaml sound inYaml with top | ⟨a, owned, -⟩
  · rw [sound.parent_root top] at parent
    cases parent
  · -- Like the top-level node it is owned by none.
    have free : (m.node r).owner = none := by
      rw [sound.owner (sound.holds_root root), sound.parent_root root]
      rfl
    rw [sound.owner held, parent, Option.bind_some, ownerAt, free] at owned
    cases owned

/-- Of what hangs on a pair the YAML form comes to the first node alone. -/
theorem mem_take_of_inYaml {c : Key} (held : m.Holds k) (kind : (m.node k).kind = .pair)
    (child : c ∈ m.children k) (inYaml : m.InYaml c) : c ∈ (m.children k).take 1 := by
  have heldC := (sound.over_of_mem_children held child).2
  have owned := (sound.mem_children_iff held heldC).1 child
  rcases exists_owner_of_inYaml sound inYaml with top | ⟨a, owned', followed⟩
  · -- No node at top level is owned.
    rw [sound.owner heldC, sound.parent_root top] at owned
    cases owned
  · obtain rfl := Option.some.inj (owned.symm.trans owned')
    rwa [yamlChildren, if_pos kind] at followed

/-- No child is the first and another one. -/
theorem length_children_le (held : m.Holds k) (first : ∀ c ∈ m.children k, c ∈ (m.children k).take 1) :
    (m.children k).length ≤ 1 := by
  rw [children_eq] at first ⊢
  cases head : (m.node k).head with
  | none => simp
  | some a =>
    obtain ⟨heldA, parent⟩ := sound.back held (e := .child) head
    rw [head, sound.chainAt_some heldA] at first
    rw [sound.chainAt_some heldA]
    cases next : (m.node a).next with
    | none => simp
    | some c =>
      obtain ⟨heldC, parent'⟩ := sound.back heldA (e := .next) next
      rw [next, sound.chainAt_some heldC] at first
      -- A second child would be the first one, and have two parents.
      have same : c = a := by simpa using first c (by simp)
      rw [same, parent] at parent'
      cases parent'

/-- Where no pair has more than one child, the YAML form goes on from a node to all that hangs on it. -/
theorem leads_of_single
    (single : ∀ k, m.Holds k → (m.node k).kind = .pair → (m.children k).length ≤ 1) (held : m.Holds k) :
    ∀ j ∈ m.subtree k, Relation.ReflTransGen (fun a b => b ∈ m.yamlChildren a) k j := by
  have all : ∀ {k}, m.Holds k → m.yamlChildren k = m.children k := by
    intro k held
    rw [yamlChildren]
    split
    · next kind => exact List.take_of_length_le (single k held kind)
    · rfl
  refine sound.descend_children (motive := fun k => ∀ j ∈ m.subtree k,
    Relation.ReflTransGen (fun a b => b ∈ m.yamlChildren a) k j) (fun k held ih j inside => ?_) held
  rcases (sound.mem_subtree_iff held).1 inside with rfl | ⟨c, child, inside⟩
  · exact .refl
  · exact .head (all held ▸ child) (ih c child j inside)

/-- The YAML form comes to all nodes just if nothing follows a top-level node and no pair has more than one
child. -/
theorem forall_inYaml_iff : (∀ k, m.Holds k → m.InYaml k) ↔
    (∀ r ∈ m.roots, (m.node r).next = none) ∧
      ∀ k, m.Holds k → (m.node k).kind = .pair → (m.children k).length ≤ 1 := by
  constructor
  · intro all
    refine ⟨fun r root => ?_, fun k held kind => length_children_le sound held fun c child => ?_⟩
    · by_contra follows
      obtain ⟨s, next⟩ := Option.ne_none_iff_exists'.1 follows
      have held := (sound.back (sound.holds_root root) (e := .next) next).1
      exact not_inYaml_of_next sound root next (all s held)
    · exact mem_take_of_inYaml sound held kind child (all c (sound.over_of_mem_children held child).2)
  · rintro ⟨alone, single⟩ k held
    obtain ⟨r, root, inside⟩ := List.mem_flatMap.1 (sound.mem_order.2 held)
    have heldR := sound.holds_root root
    -- With nothing behind it the chain of a top-level node is its tree.
    rw [subtreeAndNext, chainTrees_eq, sound.treesAt_some heldR, alone r root, treesAt_none,
      Tree.preorderAll_cons, Tree.preorderAll_nil, List.append_nil] at inside
    exact ⟨r, root, leads_of_single sound single heldR k inside⟩

end Reach

/-! ### When both show the same -/

/-- What is left out of a list adds nothing where it stands for nothing. -/
theorem flatMap_eq_of_sublist {α β : Type} {f : α → List β} {xs ys : List α} (sub : xs.Sublist ys)
    (nodup : ys.Nodup) (bare : ∀ y ∈ ys, y ∈ xs ∨ f y = []) : ys.flatMap f = xs.flatMap f := by
  induction sub with
  | slnil => rfl
  | @cons xs ys y sub ih =>
    -- What is left out does not come again, so it must be bare.
    rw [List.nodup_cons] at nodup
    rw [List.forall_mem_cons] at bare
    rw [List.flatMap_cons, ih nodup.2 bare.2,
      bare.1.resolve_left fun inside => nodup.1 (sub.subset inside), List.nil_append]
  | @cons_cons xs ys y sub ih =>
    rw [List.nodup_cons] at nodup
    rw [List.flatMap_cons, List.flatMap_cons, ih nodup.2 fun z inside => ?_]
    refine (bare z (List.mem_cons_of_mem y inside)).imp_left fun among => ?_
    refine (List.mem_cons.1 among).resolve_left ?_
    rintro rfl
    exact nodup.1 inside

section Alike

variable (sound : m.Sound) (typed : m.Typed) (generates : config.Generates)
include sound typed generates

/-- If both show the same, the YAML form comes to every node that has something to show. -/
theorem inYaml_of_shownAlike (alike : m.ShownAlike config) (fine : ∀ j, m.InYaml j → m.lack? j = none)
    (held : m.Holds k) (bears : m.fieldsOf k ≠ []) : m.InYaml k := by
  obtain ⟨nodes, sub, among, tells⟩ := tells_yaml sound
  have tells' := tells_render sound typed.framed generates typed.beside
  have fine' : ∀ j ∈ nodes, m.lack? j = none := fun j inside => fine j ((among j).1 inside)
  have yaml : ¬ ∃ e, m.yaml = .error e := fun failed => by
    obtain ⟨j, inside, lacks⟩ := tells.fails_iff.1 failed
    exact lacks (fine' j inside)
  have rendered : ∃ text, m.render config = .ok text := by
    cases rendered : m.render config with
    | ok text => exact ⟨text, rfl⟩
    | error e => exact absurd (alike.1.1 ⟨e, rendered⟩) yaml
  -- Since the YAML form is had, the document is had as well, and nothing of it is lacking.
  have all : ∀ j ∈ m.order, m.lack? j = none := by
    by_contra lacking
    push Not at lacking
    exact yaml (alike.1.1 (tells'.fails_iff.2 lacking))
  -- Both have one row of fields that they show, and it is the same row.
  obtain ⟨fields, shows, shows'⟩ := alike.2 rendered
  have same := ((tells'.shows all).unique shows).trans (shows'.unique (tells.shows fine'))
  obtain ⟨f, own⟩ := List.exists_mem_of_ne_nil _ bears
  have inside : f ∈ m.order.flatMap m.fieldsOf := List.mem_flatMap.2 ⟨k, sound.mem_order.2 held, own⟩
  rw [same] at inside
  obtain ⟨j, followed, own'⟩ := List.mem_flatMap.1 inside
  have at_ : k = j := (eq_of_mem_fieldsOf own).symm.trans (eq_of_mem_fieldsOf own')
  exact (among k).1 (at_ ▸ followed)

/-- Both fail if the YAML form comes to something that is lacking. -/
theorem shownAlike_of_lack (inYaml : m.InYaml j) (lacks : m.lack? j ≠ none) : m.ShownAlike config := by
  obtain ⟨nodes, sub, among, tells⟩ := tells_yaml sound
  have inside := (among j).2 inYaml
  have failed := (tells_render sound typed.framed generates typed.beside).fails_iff.2
    ⟨j, sub.subset inside, lacks⟩
  refine ⟨iff_of_true failed (tells.fails_iff.2 ⟨j, inside, lacks⟩), fun ⟨text, rendered⟩ => ?_⟩
  obtain ⟨e, failed⟩ := failed
  cases failed.symm.trans rendered

/-- Both show the same if nothing is lacking and the YAML form comes to all that has a field to show. -/
theorem shownAlike_of_inYaml (fine : ∀ j, m.InYaml j → m.lack? j = none)
    (all : ∀ k, m.Holds k → m.InYaml k ∨ (m.node k).kind = .object ∨ (m.node k).kind = .array) :
    m.ShownAlike config := by
  obtain ⟨nodes, sub, among, tells⟩ := tells_yaml sound
  have tells' := tells_render sound typed.framed generates typed.beside
  have fine' : ∀ j ∈ m.order, m.lack? j = none := by
    intro j inside
    rcases all j (sound.mem_order.1 inside) with inYaml | kind | kind
    · exact fine j inYaml
    · simp [lack?, kind]
    · simp [lack?, kind]
  -- What the YAML form does not come to has no field to show.
  have bare : ∀ j ∈ m.order, j ∈ nodes ∨ m.fieldsOf j = [] := fun j inside =>
    (all j (sound.mem_order.1 inside)).imp (among j).2 fieldsOf_eq_nil_iff.2
  have shows := tells'.shows fine'
  have shows' := tells.shows fun j inside => fine j ((among j).1 inside)
  rw [← flatMap_eq_of_sublist sub sound.nodup_order bare] at shows'
  obtain ⟨text, rendered⟩ := shows.exists_ok
  obtain ⟨text', yaml⟩ := shows'.exists_ok
  refine ⟨iff_of_false ?_ ?_, fun _ => ⟨_, shows, shows'⟩⟩
  · rintro ⟨e, failed⟩
    cases failed.symm.trans rendered
  · rintro ⟨e, failed⟩
    cases failed.symm.trans yaml

/-- A model is shown alike just if the YAML form comes to something that is lacking, or to all nodes that have
a field to show; and it comes to all nodes just if nothing follows a top-level node and no pair has more than
one child. -/
theorem shownAlike_iff : (m.ShownAlike config ↔ (∃ j, m.InYaml j ∧ m.lack? j ≠ none) ∨
      ∀ k, m.Holds k → m.InYaml k ∨ (m.node k).kind = .object ∨ (m.node k).kind = .array) ∧
    ((∀ k, m.Holds k → m.InYaml k) ↔ (∀ r ∈ m.roots, (m.node r).next = none) ∧
      ∀ k, m.Holds k → (m.node k).kind = .pair → (m.children k).length ≤ 1) := by
  refine ⟨?_, forall_inYaml_iff sound⟩
  by_cases lacking : ∃ j, m.InYaml j ∧ m.lack? j ≠ none
  · obtain ⟨j, inYaml, lacks⟩ := lacking
    exact iff_of_true (shownAlike_of_lack sound typed generates inYaml lacks) (.inl ⟨j, inYaml, lacks⟩)
  · rw [or_iff_right lacking]
    push Not at lacking
    refine ⟨fun alike k held => or_iff_not_imp_right.2 fun bears => ?_,
      shownAlike_of_inYaml sound typed generates lacking⟩
    exact inYaml_of_shownAlike sound typed generates alike lacking held (mt fieldsOf_eq_nil_iff.1 bears)

end Alike

end Model

open Model

/-- Two scalars at top level, and what further calls make of them. -/
def twoScalars (calls : List Call) : Workspace :=
  afterCalls {} ([.create (some "a") .scalar { fields := .ofList [(valueName, "1")] },
    .create (some "b") .scalar { fields := .ofList [(valueName, "2")] }] ++ calls)

theorem reachable_twoScalars (calls : List Call) : Reachable (twoScalars calls) :=
  (Reachable.blank "" "" 0).afterCalls _

theorem typed_twoScalars {calls : List Call} (typed : ∀ call ∈ calls, call.Typed) :
    (twoScalars calls).model.Typed := by
  refine typed_afterCalls ⟨rfl, fun k held => absurd held.1 (Nat.not_lt_zero k)⟩ ?_
  have plain : Dict.PlainFrames .empty := fun slot frame stored => by cases stored
  simpa [Call.Typed] using ⟨plain, typed⟩

/-- Two documents, each of one scalar, are shown as two lines and as two documents. -/
theorem shownAlike_twoScalars : (twoScalars []).model.ShownAlike {} := by
  have sound := (reachable_twoScalars []).sound
  have single : (∀ r ∈ (twoScalars []).model.roots, ((twoScalars []).model.node r).next = none) ∧
      ∀ k < (twoScalars []).model.nodes.size, ((twoScalars []).model.children k).length ≤ 1 := by
    decide +kernel
  have generates : ({} : Config).Generates := Config.generates_of_plain rfl
  obtain ⟨alike, reached⟩ := shownAlike_iff sound (typed_twoScalars (by simp)) generates
  exact alike.2 (.inr fun k held => .inl (reached.2 ⟨single.1, fun k held _ => single.2 k held.1⟩ k held))

/-- Once one of them follows the other, the document goes on to show both, and the YAML form only the
first. -/
theorem not_shownAlike_of_following : ¬ ∀ {w : Workspace}, Reachable w → w.model.Typed →
    ∀ {config : Config}, config.Generates → w.model.ShownAlike config := by
  intro all
  let w := twoScalars [.link "a" "next" "b"]
  have reached : Reachable w := reachable_twoScalars _
  have typed : w.model.Typed := typed_twoScalars (by simp [Call.Typed])
  have generates : ({} : Config).Generates := Config.generates_of_plain rfl
  have made : w.model.roots = [0] ∧ (w.model.node 0).next = some 1 ∧ 1 ∈ w.model.order ∧
      (∀ j ∈ w.model.order, w.model.lack? j = none) ∧ w.model.fieldsOf 1 ≠ [] := by
    decide +kernel
  obtain ⟨roots, next, listed, fine, bears⟩ := made
  have sound := reached.sound
  -- Both scalars have their values, so that it is not for a failure that they differ.
  have noneLacks : ∀ j, w.model.InYaml j → w.model.lack? j = none := fun j inYaml =>
    fine j (sound.mem_order.2 (holds_of_inYaml sound inYaml))
  refine not_inYaml_of_next sound (r := 0) (by rw [roots]; exact List.mem_singleton_self 0) next ?_
  exact inYaml_of_shownAlike sound typed generates (all reached typed generates) noneLacks
    (sound.mem_order.1 listed) bears

end DocSync
