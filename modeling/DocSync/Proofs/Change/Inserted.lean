import DocSync.Proofs.Alignment.Inserted
import DocSync.Proofs.Change.Rebuilt
import DocSync.Proofs.Change.Idle
import DocSync.Proofs.Model.Reachable

/-!
A document with one subtree more. Its order is that of the document with the nodes of the subtree put in
at one place. If these look like none of the document's own nodes, a reconciliation creates just them, as
long as the place is clear; at any other place an old node is taken away.
-/

namespace DocSync

variable {m new : Model} {image : Key → Key} {x b k r : Key} {c : ChangeSet}

/-- A model is another one with one subtree more: a node in the chain of an object or an array, with all
that hangs on it. The rest is an image of the other model, and its links lead past that node. -/
structure Enlarged (m new : Model) (image : Key → Key) (x : Key) : Prop where
  listed : ∃ a, new.Holds a ∧ (new.node a).kind ∈ [Kind.object, Kind.array] ∧ x ∈ new.children a
  roots : new.roots = m.roots.map image
  holds : ∀ {b}, m.Holds b → new.Holds (image b) ∧ image b ∉ new.subtree x
  onto : ∀ {k}, new.Holds k → k ∉ new.subtree x → ∃ b, m.Holds b ∧ image b = k
  content : ∀ {b}, m.Holds b → new.contentOf (image b) = m.contentOf b
  target : ∀ {b}, m.Holds b → ∀ e, ((m.node b).target? e).map image =
    if (new.node (image b)).target? e = some x then (new.node x).next
    else (new.node (image b)).target? e

namespace Model

/-- The nodes of a document before a node. -/
def before (m : Model) (k : Key) : List Key := m.order.takeWhile (· ≠ k)

/-- The nodes of a document behind a node and all that hangs on it. -/
def behind (m : Model) (k : Key) : List Key :=
  m.order.drop ((m.before k).length + (m.subtree k).length)

/-- What stands behind a node's subtree is no more than what stands before it, or does not look like what
begins before it. -/
def ClearAt (m : Model) (k : Key) : Prop :=
  Alignment.Clear ((m.before k).map m.contentOf) ((m.behind k).map m.contentOf)

instance (m : Model) (k : Key) : Decidable (m.ClearAt k) := inferInstanceAs (Decidable (Alignment.Clear _ _))

end Model

/-- A change set takes nothing away, and creates the nodes of a subtree. -/
structure ChangeSet.Inserts (c : ChangeSet) (new : Model) (x : Key) : Prop where
  keeps : c.deletions = []
  creates : (c.creations.map Specimen.id).Perm ((new.subtree x).map fun k => (new.node k).id)

/-- A row of nodes is the image of another one, or has the nodes of a subtree besides. -/
inductive Spread (new : Model) (image : Key → Key) (x : Key) : List Key → List Key → Prop
  | plain {keys : List Key} : x ∉ keys.map image → Spread new image x keys (keys.map image)
  | split (before behind : List Key) : Spread new image x (before ++ behind)
      (before.map image ++ (new.subtree x ++ behind.map image))

namespace Spread

variable {keys keys' below below' after after' : List Key}

theorem eq_map (spread : Spread new image x keys keys') (outside : x ∉ keys') :
    keys' = keys.map image := by
  cases spread with
  | plain _ => rfl
  | split before behind =>
    exact absurd (List.mem_append_right _ (List.mem_append_left _ (new.mem_subtree_self x))) outside

/-- What is below a node and what is after it make up what is from there on. -/
theorem node (differ : image b ≠ x) (first : Spread new image x below below')
    (second : Spread new image x after after') (once : (below' ++ after').Nodup) :
    Spread new image x (b :: (below ++ after)) (image b :: (below' ++ after')) := by
  cases first with
  | plain outside =>
    cases second with
    | plain outside' =>
      rw [← List.map_append, ← List.map_cons]
      refine .plain ?_
      simp only [List.map_cons, List.map_append, List.mem_cons, List.mem_append, not_or]
      exact ⟨Ne.symm differ, outside, outside'⟩
    | split before behind =>
      have joined : Spread new image x (b :: (below ++ before) ++ behind) _ := .split _ _
      simpa using joined
  | split before behind =>
    have inside : x ∈ before.map image ++ (new.subtree x ++ behind.map image) :=
      List.mem_append_right _ (List.mem_append_left _ (new.mem_subtree_self x))
    -- The subtree stands in one of the two only.
    have outside : x ∉ after' := fun other => (List.nodup_append.1 once).2.2 x inside x other rfl
    rw [second.eq_map outside]
    have joined : Spread new image x (b :: before ++ (behind ++ after)) _ := .split _ _
    simpa using joined

end Spread

namespace Enlarged

variable (sound : m.Sound) (soundNew : new.Sound) (enlarged : Enlarged m new image x)
include enlarged soundNew

theorem held : new.Holds x := by
  obtain ⟨a, held, -, child⟩ := enlarged.listed
  exact (soundNew.over_of_mem_children held child).2

include sound

/-- From each node on, the order is the image of the other order, or that with the subtree put in. -/
theorem spread (held : m.Holds b) : Spread new image x (Tree.preorderAll (m.treesAt (some b)))
    (Tree.preorderAll (new.treesAt (some (image b)))) := by
  refine sound.descend (motive := fun b => Spread new image x
    (Tree.preorderAll (m.treesAt (some b))) (Tree.preorderAll (new.treesAt (some (image b)))))
    (fun b held ih => ?_) held
  have heldX := enlarged.held soundNew
  obtain ⟨heldB, outside⟩ := enlarged.holds held
  have differ : image b ≠ x := fun same => outside (same ▸ new.mem_subtree_self x)
  have link : ∀ e, Spread new image x (Tree.preorderAll (m.treesAt ((m.node b).target? e)))
      (Tree.preorderAll (new.treesAt ((new.node (image b)).target? e))) := by
    intro e
    have target := enlarged.target held e
    by_cases here : (new.node (image b)).target? e = some x
    · -- The subtree stands before what the link led to.
      rw [if_pos here] at target
      rw [here, soundNew.treesAt_some heldX, Tree.preorderAll_cons, ← target]
      have once := soundNew.nodup_treesAt_some heldX
      rw [soundNew.treesAt_some heldX, Tree.preorderAll_cons, ← target] at once
      have apart : x ∉ Tree.preorderAll (new.treesAt (((m.node b).target? e).map image)) := fun other =>
        (List.nodup_append.1 once).2.2 x (new.mem_subtree_self x) x other rfl
      have rest : Tree.preorderAll (new.treesAt (((m.node b).target? e).map image)) =
          (Tree.preorderAll (m.treesAt ((m.node b).target? e))).map image := by
        cases leads : (m.node b).target? e with
        | none => simp
        | some d =>
          rw [leads] at apart
          exact (ih d ⟨e, leads⟩).eq_map apart
      rw [rest]
      exact .split [] _
    · rw [if_neg here] at target
      rw [← target]
      cases leads : (m.node b).target? e with
      | none =>
        have nowhere : Spread new image x [] _ := .plain (by simp)
        simpa using nowhere
      | some d => exact ih d ⟨e, leads⟩
  have once := soundNew.nodup_treesAt_some heldB
  rw [soundNew.treesAt_some heldB, Model.tree_eq, Tree.preorderAll_cons, Tree.preorder_node,
    List.cons_append] at once ⊢
  rw [sound.treesAt_some held, Model.tree_eq, Tree.preorderAll_cons, Tree.preorder_node,
    List.cons_append]
  exact .node differ (link .child) (link .next) (List.nodup_cons.1 once).2

/-- The order of the larger document is that of the other one, with the subtree put in at one place. -/
theorem exists_split (single : m.roots = [r]) : ∃ before behind, m.canonicalOrder = before ++ behind ∧
    new.canonicalOrder = before.map image ++ (new.subtree x ++ behind.map image) := by
  have roots := enlarged.roots
  rw [single, List.map_singleton] at roots
  have spread := enlarged.spread sound soundNew (sound.holds_root (r := r) (by simp [single]))
  have inside := (soundNew.mem_treesAt_root roots).2 (enlarged.held soundNew)
  rw [Model.Sound.canonicalOrder_single single, Model.Sound.canonicalOrder_single roots]
  generalize Tree.preorderAll (m.treesAt (some r)) = keys at spread ⊢
  generalize Tree.preorderAll (new.treesAt (some (image r))) = keys' at spread inside ⊢
  cases spread with
  | plain outside => exact absurd inside outside
  | split before behind => exact ⟨before, behind, rfl, rfl⟩

omit sound soundNew in
/-- Images look like what they are images of. -/
theorem map_contentOf {keys : List Key} (held : ∀ b ∈ keys, m.Holds b) :
    (keys.map image).map new.contentOf = keys.map m.contentOf := by
  rw [List.map_map]
  exact List.map_congr_left fun b inside => enlarged.content (held b inside)

/-! ### Partners -/

section Contents

variable {before behind : List Key} (order : m.canonicalOrder = before ++ behind)
  (order' : new.canonicalOrder = before.map image ++ (new.subtree x ++ behind.map image))
  (foreign : ∀ {b k}, m.Holds b → k ∈ new.subtree x → new.contentOf k ≠ m.contentOf b)
include order order' foreign

omit soundNew in
/-- The contents of both documents, in order. -/
theorem contents :
    (m.canonicalOrder.map m.contentOf = before.map m.contentOf ++ behind.map m.contentOf ∧
      new.canonicalOrder.map new.contentOf = before.map m.contentOf ++
        ((new.subtree x).map new.contentOf ++ behind.map m.contentOf)) ∧
    ∀ a ∈ (new.subtree x).map new.contentOf, a ∉ before.map m.contentOf ++ behind.map m.contentOf := by
  have held : ∀ b ∈ before ++ behind, m.Holds b := fun b inside =>
    sound.mem_canonicalOrder.1 (order ▸ inside)
  rw [List.forall_mem_append] at held
  -- The subtree is all that came, and nothing in it is like an old node.
  refine ⟨⟨by rw [order, List.map_append], ?_⟩, fun a inside other => ?_⟩
  · rw [order', List.map_append, List.map_append, enlarged.map_contentOf held.1,
      enlarged.map_contentOf held.2]
  · rw [← List.map_append, ← order] at other
    obtain ⟨k, below, rfl⟩ := List.mem_map.1 inside
    obtain ⟨b, listed, equal⟩ := List.mem_map.1 other
    exact foreign (sound.mem_canonicalOrder.1 listed) below equal.symm

omit soundNew in
/-- At a clear place each node is the partner of its image. -/
theorem partners (clear : Alignment.Clear (before.map m.contentOf) (behind.map m.contentOf))
    (held : m.Holds b) : Partners m new b (image b) := by
  obtain ⟨⟨contents, contents'⟩, apart⟩ := enlarged.contents sound order order' foreign
  have filled : (new.subtree x).map new.contentOf ≠ [] :=
    List.ne_nil_of_mem (List.mem_map_of_mem (new.mem_subtree_self x))
  obtain ⟨early, late⟩ := Alignment.mem_pairs_inserted apart filled Prod.fst clear
  rw [← contents, ← contents'] at early late
  simp only [List.length_map] at early late
  have listed := sound.mem_canonicalOrder.2 held
  rw [order, List.mem_append] at listed
  -- What stands before the new subtree keeps its place, and what stands behind moves up by its length.
  rcases listed with first | second
  · obtain ⟨i, at_⟩ := List.getElem?_of_mem first
    have inside := (List.getElem?_eq_some_iff.1 at_).1
    refine ⟨i, i, early i inside, ?_, ?_⟩
    · rw [order, List.getElem?_append_left inside, at_]
    · rw [order', List.getElem?_append_left (by simpa using inside), List.getElem?_map, at_]
      rfl
  · obtain ⟨i, at_⟩ := List.getElem?_of_mem second
    have inside := (List.getElem?_eq_some_iff.1 at_).1
    refine ⟨_, _, late i inside, ?_, ?_⟩
    · rw [order, List.getElem?_append_right (by omega), Nat.add_sub_cancel_left, at_]
    · have place : before.length + (new.subtree x).length + i - before.length -
          (new.subtree x).length = i := by omega
      rw [order', List.getElem?_append_right (by simp; omega),
        List.getElem?_append_right (by simp; omega), List.length_map, place, List.getElem?_map, at_]
      rfl

omit soundNew in
/-- At any other place the last node has no partner. -/
theorem exists_lone (unclear : ¬ Alignment.Clear (before.map m.contentOf) (behind.map m.contentOf)) :
    ∃ b, m.Holds b ∧ ∀ k, ¬ Partners m new b k := by
  obtain ⟨⟨contents, contents'⟩, apart⟩ := enlarged.contents sound order order' foreign
  have filled : (new.subtree x).map new.contentOf ≠ [] :=
    List.ne_nil_of_mem (List.mem_map_of_mem (new.mem_subtree_self x))
  have lone := Alignment.not_mem_pairs_inserted apart filled Prod.fst unclear
  rw [← contents, ← contents', List.length_map, List.length_map] at lone
  have long := Nat.lt_of_not_le (not_or.1 unclear).1
  simp only [List.length_map] at long
  -- The last node of the old model is the one that is left over.
  have last : before.length + behind.length - 1 < m.canonicalOrder.length := by
    rw [order, List.length_append]
    omega
  have here := List.getElem?_eq_getElem last
  refine ⟨_, sound.mem_canonicalOrder.1 (List.getElem_mem last), ?_⟩
  rintro k ⟨i, j, paired, at_, -⟩
  obtain rfl := getElem?_unique sound.nodup_canonicalOrder here at_
  exact lone j paired

end Contents

end Enlarged

/-! ### Change sets -/

theorem Model.canonicalOrder_eq_order (single : m.roots = [r]) : m.canonicalOrder = m.order := by
  rw [Model.Sound.canonicalOrder_single single, order, single, List.flatMap_singleton, subtreeAndNext,
    chainTrees_eq]

section Single

variable (sound : m.Sound) (soundNew : new.Sound) (single : m.roots = [r])
  (enlarged : Enlarged m new image x)
  (foreign : ∀ {b k}, m.Holds b → k ∈ new.subtree x → new.contentOf k ≠ m.contentOf b)
include sound soundNew single enlarged foreign

omit foreign in
/-- The order of both documents, and the place at which they differ. -/
theorem Enlarged.exists_order : ∃ before behind, m.canonicalOrder = before ++ behind ∧
    new.canonicalOrder = before.map image ++ (new.subtree x ++ behind.map image) ∧
    (new.ClearAt x ↔ Alignment.Clear (before.map m.contentOf) (behind.map m.contentOf)) := by
  obtain ⟨before, behind, order, order'⟩ := enlarged.exists_split sound soundNew single
  have roots := enlarged.roots
  rw [single, List.map_singleton] at roots
  have listed := (Model.canonicalOrder_eq_order roots).symm.trans order'
  -- The new node is listed once, so what comes before it is told by the first place where it stands.
  have outside : ∀ k ∈ before.map image, k ≠ x := by
    intro k inside same
    have once := soundNew.nodup_canonicalOrder
    rw [order'] at once
    exact (List.nodup_append.1 once).2.2 k inside x
      (List.mem_append_left _ (new.mem_subtree_self x)) same
  have front : new.before x = before.map image := by
    rw [Model.before, listed, List.takeWhile_append_of_pos (by simpa using outside), Model.subtree,
      Model.tree_eq, Tree.preorder_node]
    simp
  have back : new.behind x = behind.map image := by
    rw [Model.behind, front, listed, ← List.append_assoc]
    exact List.drop_left' List.length_append
  have held : ∀ b ∈ before ++ behind, m.Holds b := fun b inside =>
    sound.mem_canonicalOrder.1 (order ▸ inside)
  rw [List.forall_mem_append] at held
  refine ⟨before, behind, order, order', ?_⟩
  rw [Model.ClearAt, front, back, enlarged.map_contentOf held.1, enlarged.map_contentOf held.2]

/-- Where one subtree more stands at a clear place, and none of its nodes looks like one that was there, a
reconciliation takes nothing away and creates the nodes of the subtree, and each other node goes by its
old id. At any other place a reconciliation takes a node away. -/
theorem inserts_of_enlarged {config : Config} {indent : Option Json.Indent}
    (given : config.givenSnapshotIndent = .ok indent) (withModels : Bool) :
    (new.ClearAt x → ∃ c, reconcile config m new withModels = .ok c ∧ c.Inserts new x ∧
      ∀ b, m.Holds b → c.oldId? (new.node (image b)).id = some (m.node b).id) ∧
    ∀ c, reconcile config m new withModels = .ok c → c.deletions = [] → new.ClearAt x := by
  obtain ⟨before, behind, order, order', clearAt⟩ :=
    enlarged.exists_order sound soundNew single
  rw [clearAt]
  refine ⟨fun clear => ?_, fun c made keeps => ?_⟩
  · have partners := fun {b} (held : m.Holds b) => enlarged.partners sound order order' foreign clear held
    obtain ⟨c, made⟩ := exists_reconcile_of_paired sound soundNew given (fun held => ⟨_, partners held⟩)
      withModels
    have tells := tells_of_reconcile sound soundNew made
    refine ⟨c, made, ⟨?_, ?_⟩, fun b held => tells.oldId?_of_partners soundNew (partners held)⟩
    · exact tells.deletions_eq_nil_iff.2 fun a held => ⟨_, partners held⟩
    · -- The new nodes without a partner are those of the subtree.
      have held := enlarged.held soundNew
      have once : (new.subtree x).Nodup := by
        have nodup := soundNew.nodup_canonicalOrder
        rw [order'] at nodup
        exact (List.nodup_append.1 (List.nodup_append.1 nodup).2.1).1
      refine tells.creations_perm once fun k => ⟨fun inside => ?_, ?_⟩
      · refine ⟨(soundNew.over_of_mem_subtree held inside).2, fun a other => ?_⟩
        have heldA := other.holds_left sound
        obtain rfl := other.right_unique sound (partners heldA)
        exact (enlarged.holds heldA).2 inside
      · rintro ⟨heldK, alone⟩
        by_contra outside
        obtain ⟨b, heldB, rfl⟩ := enlarged.onto heldK outside
        exact alone b (partners heldB)
  · by_contra unclear
    obtain ⟨b, held, alone⟩ := enlarged.exists_lone sound order order' foreign unclear
    obtain ⟨k, partners⟩ := (tells_of_reconcile sound soundNew made).deletions_eq_nil_iff.1 keeps b held
    exact alone k partners

end Single

/-! ### Equal items -/

/-- Whether a model is enlarged can be seen node by node. -/
theorem enlarged_iff : Enlarged m new image x ↔
    (∃ a ∈ List.range new.nodes.size, new.Holds a ∧ (new.node a).kind ∈ [Kind.object, Kind.array] ∧
      x ∈ new.children a) ∧
    new.roots = m.roots.map image ∧
    (∀ b ∈ List.range m.nodes.size, m.Holds b → (new.Holds (image b) ∧ image b ∉ new.subtree x) ∧
      new.contentOf (image b) = m.contentOf b ∧ ∀ e ∈ [Edge.child, Edge.next],
        ((m.node b).target? e).map image =
          if (new.node (image b)).target? e = some x then (new.node x).next
          else (new.node (image b)).target? e) ∧
    ∀ k ∈ List.range new.nodes.size, new.Holds k → k ∉ new.subtree x →
      ∃ b ∈ List.range m.nodes.size, m.Holds b ∧ image b = k := by
  have listed : ∀ {m : Model} {k : Key}, m.Holds k → k ∈ List.range m.nodes.size := fun held =>
    List.mem_range.2 held.1
  -- Nodes that the models hold are below their sizes, so nothing is lost by looking only there.
  constructor
  · rintro ⟨⟨a, held, kind, child⟩, roots, holds, onto, content, target⟩
    refine ⟨⟨a, listed held, held, kind, child⟩, roots,
      fun b _ held => ⟨holds held, content held, fun e _ => target held e⟩, fun k _ held outside => ?_⟩
    obtain ⟨b, heldB, same⟩ := onto held outside
    exact ⟨b, listed heldB, heldB, same⟩
  · rintro ⟨⟨a, -, held, kind, child⟩, roots, each, onto⟩
    refine ⟨⟨a, held, kind, child⟩, roots, fun held => (each _ (listed held) held).1,
      fun held outside => ?_, fun held => (each _ (listed held) held).2.1,
      fun held e => (each _ (listed held) held).2.2 e (by cases e <;> simp)⟩
    obtain ⟨b, -, heldB, same⟩ := onto _ (listed held) held outside
    exact ⟨b, heldB, same⟩

instance : Decidable (Enlarged m new image x) := decidable_of_iff _ enlarged_iff.symm

/-- The places of nodes behind the second one, where a node is put in there. -/
def pastSecond (k : Key) : Key := if k ≤ 1 then k else k + 1

/-- A scalar put between two equal ones is all that is created. -/
theorem inserts_between_ones :
    ∃ c, reconcile {} (readIn "[1, 1]" 0).model (readIn "[1, 2, 1]" 3).model = .ok c ∧
      c.Inserts (readIn "[1, 2, 1]" 3).model 2 := by
  have enlarged : Enlarged (readIn "[1, 1]" 0).model (readIn "[1, 2, 1]" 3).model pastSecond 2 := by
    decide +kernel
  have single : (readIn "[1, 1]" 0).model.roots = [0] := by decide +kernel
  have foreign : ∀ b < (readIn "[1, 1]" 0).model.nodes.size,
      ∀ k ∈ (readIn "[1, 2, 1]" 3).model.subtree 2,
        (readIn "[1, 2, 1]" 3).model.contentOf k ≠ (readIn "[1, 1]" 0).model.contentOf b := by
    decide +kernel
  have clear : (readIn "[1, 2, 1]" 3).model.ClearAt 2 := by decide +kernel
  have given : Config.givenSnapshotIndent {} = .ok (some (.blanks 2)) := rfl
  obtain ⟨c, made, inserts, -⟩ := (inserts_of_enlarged (reachable_readIn _ _).sound
    (reachable_readIn _ _).sound single enlarged (fun held => foreign _ held.1 _) given true).1 clear
  exact ⟨c, made, inserts⟩

/-- Among four equal scalars the three behind the new one are longer than what stands before it, and are
found one place too early: the last of the old ones is taken away. -/
theorem not_inserts_among_ones :
    let old := (readIn "[1, 1, 1, 1]" 0).model
    let new := (readIn "[1, 2, 1, 1, 1]" 5).model
    old.roots = [0] ∧ Enlarged old new pastSecond 2 ∧
      (∀ b k, old.Holds b → new.Holds k → (old.node b).id.name ≠ (new.node k).id.name) ∧
      (∀ b k, old.Holds b → k ∈ new.subtree 2 → new.contentOf k ≠ old.contentOf b) ∧
      ¬ ∃ c, reconcile {} old new = .ok c ∧ c.Inserts new 2 := by
  intro old new
  have single : old.roots = [0] := by decide +kernel
  have enlarged : Enlarged old new pastSecond 2 := by decide +kernel
  have fresh : ∀ b < old.nodes.size, ∀ k < new.nodes.size,
      (old.node b).id.name ≠ (new.node k).id.name := by decide +kernel
  have foreign : ∀ b < old.nodes.size, ∀ k ∈ new.subtree 2, new.contentOf k ≠ old.contentOf b := by
    decide +kernel
  have gone : ((reconcile {} old new).toOption.map fun c => c.deletions.length) = some 1 := by
    decide +kernel
  refine ⟨single, enlarged, fun b k heldB heldK => fresh b heldB.1 k heldK.1,
    fun b k held => foreign b held.1 k, ?_⟩
  rintro ⟨c, made, inserts⟩
  rw [made] at gone
  simp [Except.toOption, inserts.keeps] at gone

end DocSync
