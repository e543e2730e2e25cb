import DocSync.Proofs.Change.Copied
import DocSync.Proofs.Change.Reversal
import DocSync.Proofs.Model.Built

/-!
A text built twice. Two models of one parse differ in nothing but the ids that were handed out: the
trees below their top-level nodes have one shape and bear the same labels, and this tells for each
node of one model its image in the other.
-/

namespace DocSync

/-! ### Trees of one shape -/

namespace Tree

variable {α β γ : Type}

mutual
/-- Maps that agree on the labels give the same tree. -/
theorem map_congr {f g : α → β} (tree : Tree α) (same : ∀ x ∈ tree.preorder, f x = g x) :
    tree.map f = tree.map g := by
  cases tree with
  | node label children =>
    rw [preorder_node, List.forall_mem_cons] at same
    rw [map, map, same.1, mapAll_congr children same.2]

theorem mapAll_congr {f g : α → β} (trees : List (Tree α)) (same : ∀ x ∈ preorderAll trees, f x = g x) :
    mapAll f trees = mapAll g trees := by
  cases trees with
  | nil => rw [mapAll, mapAll]
  | cons tree rest =>
    rw [preorderAll_cons, List.forall_mem_append] at same
    rw [mapAll, mapAll, map_congr tree same.1, mapAll_congr rest same.2]
end

mutual
/-- A tree whose labels differ from one another is mapped to every tree that looks the same. -/
theorem exists_map [DecidableEq α] {f : α → γ} {g : β → γ} (tree : Tree α) (tree' : Tree β)
    (nodup : tree.preorder.Nodup) (same : tree.map f = tree'.map g) :
    ∃ image : α → β, tree' = tree.map image := by
  cases tree with
  | node label children =>
    cases tree' with
    | node label' children' =>
      rw [map, map, node.injEq] at same
      rw [preorder_node, List.nodup_cons] at nodup
      obtain ⟨image, rfl⟩ := exists_mapAll label' children children' nodup.2 same.2
      -- The label at the top is none of those below, so it may be mapped by itself.
      refine ⟨Function.update image label label', ?_⟩
      rw [map, Function.update_self]
      refine congrArg _ (mapAll_congr children fun x below => ?_)
      have differ : x ≠ label := fun equal => nodup.1 (equal ▸ below)
      rw [Function.update_of_ne differ]

theorem exists_mapAll [DecidableEq α] {f : α → γ} {g : β → γ} (spare : β) (trees : List (Tree α))
    (trees' : List (Tree β)) (nodup : (preorderAll trees).Nodup)
    (same : mapAll f trees = mapAll g trees') : ∃ image : α → β, trees' = mapAll image trees := by
  cases trees with
  | nil =>
    cases trees' with
    | nil => exact ⟨fun _ => spare, by rw [mapAll]⟩
    | cons => simp [mapAll] at same
  | cons tree rest =>
    cases trees' with
    | nil => simp [mapAll] at same
    | cons tree' rest' =>
      rw [mapAll, mapAll, List.cons.injEq] at same
      rw [preorderAll_cons, List.nodup_append] at nodup
      obtain ⟨first, rfl⟩ := exists_map tree tree' nodup.1 same.1
      obtain ⟨later, rfl⟩ := exists_mapAll spare rest rest' nodup.2.1 same.2
      -- No label of the first tree comes again.
      refine ⟨fun x => if x ∈ tree.preorder then first x else later x, ?_⟩
      rw [mapAll, map_congr (g := first) tree fun x inside => if_pos inside,
        mapAll_congr (g := later) rest fun x inside => if_neg fun before =>
          nodup.2.2 x before x inside rfl]
end

end Tree

/-! ### Models of one look -/

variable {m m' : Model} {r r' b k : Key} {image : Key → Key}

namespace Model.Sound

variable (sound : m.Sound)
include sound

/-- Under a single top-level node stands all that the model holds. -/
theorem mem_treesAt_root (single : m.roots = [r]) :
    k ∈ Tree.preorderAll (m.treesAt (some r)) ↔ m.Holds k := by
  rw [← sound.mem_order, Model.order, single, List.flatMap_singleton, Model.subtreeAndNext,
    Model.chainTrees_eq]

/-- The trees at a link tell where it leads. -/
theorem link_eq (link : Option Key) (held : ∀ c, link = some c → m.Holds c) :
    link = (m.treesAt link).head?.map Tree.label := by
  cases link with
  | none => simp
  | some c =>
    rw [sound.treesAt_some (held c rfl), Model.tree_eq]
    rfl

end Model.Sound

section Look

variable (sound : m.Sound) (sound' : m'.Sound) (single' : m'.roots = [r'])
  (moved : m.treesAt (some r) = Tree.mapAll image (m'.treesAt (some r')))
include sound sound' single' moved

/-- Where trees are images of trees at the top, they are so everywhere below. -/
theorem treesAt_image (root : m.Holds r) (held : m'.Holds b) : m.Holds (image b) ∧
    m.treesAt (some (image b)) = Tree.mapAll image (m'.treesAt (some b)) ∧
    ∀ e, (m.node (image b)).target? e = ((m'.node b).target? e).map image := by
  -- From a node on, the links lead to images.
  have links : ∀ {p}, m'.Holds p → m.Holds (image p) →
      m.treesAt (some (image p)) = Tree.mapAll image (m'.treesAt (some p)) → ∀ e,
        m.treesAt ((m.node (image p)).target? e) =
          Tree.mapAll image (m'.treesAt ((m'.node p).target? e)) ∧
        (m.node (image p)).target? e = ((m'.node p).target? e).map image := by
    intro p heldP heldImage same e
    rw [sound.treesAt_some heldImage, sound'.treesAt_some heldP, Model.tree_eq, Model.tree_eq,
      Tree.mapAll, Tree.map, List.cons.injEq, Tree.node.injEq] at same
    have trees : m.treesAt ((m.node (image p)).target? e) =
        Tree.mapAll image (m'.treesAt ((m'.node p).target? e)) := by
      cases e with
      | child => exact same.1.2
      | next => exact same.2
    refine ⟨trees, ?_⟩
    -- A link leads to the label of the first tree behind it.
    rw [sound.link_eq ((m.node (image p)).target? e) fun c leads => (sound.back heldImage leads).1,
      trees]
    conv_rhs =>
      rw [sound'.link_eq ((m'.node p).target? e) fun c leads => (sound'.back heldP leads).1]
    cases m'.treesAt ((m'.node p).target? e) with
    | nil => simp [Tree.mapAll]
    | cons tree rest =>
      cases tree
      simp [Tree.mapAll, Tree.map, Tree.label]
  suffices here : m.Holds (image b) ∧
      m.treesAt (some (image b)) = Tree.mapAll image (m'.treesAt (some b)) from
    ⟨here.1, here.2, fun e => (links held here.1 here.2 e).2⟩
  obtain ⟨top, atop, parent⟩ := sound'.exists_root held
  obtain rfl : top = r' := by
    have root := sound'.root_iff.2 ⟨sound'.holds_of_over held atop, parent⟩
    rwa [single', List.mem_singleton] at root
  -- Down from the top, link by link; at the top itself the trees are those given.
  induction atop with
  | refl =>
    have same := moved
    rw [sound.treesAt_some root, sound'.treesAt_some held, Model.tree_eq, Model.tree_eq, Tree.mapAll,
      Tree.map, List.cons.injEq, Tree.node.injEq] at same
    exact same.1.1 ▸ ⟨root, moved⟩
  | @step p c e _ heldC above ih =>
    obtain ⟨heldP, target⟩ := sound'.forth heldC above
    obtain ⟨heldImage, same⟩ := ih heldP
    obtain ⟨trees, leads⟩ := links heldP heldImage same e
    rw [target, Option.map_some] at leads
    rw [target, leads] at trees
    exact ⟨(sound.back heldImage leads).1, trees⟩

end Look

section Alike

variable (sound : m.Sound) (sound' : m'.Sound) (single : m.roots = [r]) (single' : m'.roots = [r'])
include sound sound' single single'

/-- Two models of one look, each with a single top-level node, are carried over from one another, as
long as the look of a node shows its kind and its fields. -/
theorem exists_carriedOver_of_look {look look' : Key → γ}
    (shows_ : ∀ {a b}, look a = look' b → m.contentOf a = m'.contentOf b)
    (same : Tree.mapAll look (m.treesAt (some r)) = Tree.mapAll look' (m'.treesAt (some r'))) :
    ∃ carry image, CarriedOver m m' carry image ∧ m.roots = m'.roots.map image ∧
      ∀ {b}, m'.Holds b → look (image b) = look' b := by
  have root : m.Holds r := sound.holds_root (by simp [single])
  have root' : m'.Holds r' := sound'.holds_root (by simp [single'])
  have nodup : ∀ {n : Model} {t : Key}, n.Sound → n.Holds t →
      (Tree.preorderAll (n.treesAt (some t))).Nodup := fun sound held => sound.nodup_treesAt_some held
  -- The image of a node stands in the one tree where the node stands in the other.
  obtain ⟨image, moved⟩ := Tree.exists_mapAll r _ _ (nodup sound' root') same.symm
  have below := fun {b} (held : m'.Holds b) => treesAt_image sound sound' single' moved root held
  have places : Tree.preorderAll (m.treesAt (some r)) =
      (Tree.preorderAll (m'.treesAt (some r'))).map image := by
    rw [moved, Tree.preorderAll_mapAll]
  have injective : ∀ {a b}, m'.Holds a → m'.Holds b → image a = image b → a = b :=
    fun heldA heldB => List.inj_on_of_nodup_map (places ▸ nodup sound root)
      ((sound'.mem_treesAt_root single').2 heldA) ((sound'.mem_treesAt_root single').2 heldB)
  have looks : ∀ {b}, m'.Holds b → look (image b) = look' b := by
    intro b held
    rw [moved, Tree.mapAll_mapAll] at same
    have labels := congrArg Tree.preorderAll same
    rw [Tree.preorderAll_mapAll, Tree.preorderAll_mapAll] at labels
    exact List.map_inj_left.1 labels b ((sound'.mem_treesAt_root single').2 held)
  -- An id goes to the id of its node's image.
  refine ⟨fun id => ((m'.find? id).map fun b => (m.node (image b)).id).getD id, image,
    ⟨fun held => (below held).1, fun {k} held => ?_, injective, fun {b} held => ?_,
      fun held => congrArg Prod.fst (shows_ (looks held)),
      fun held => congrArg Prod.snd (shows_ (looks held)), fun held => (below held).2.2⟩, ?_, looks⟩
  · have inside := (sound.mem_treesAt_root single).2 held
    rw [places] at inside
    obtain ⟨b, there, equal⟩ := List.mem_map.1 inside
    exact ⟨b, (sound'.mem_treesAt_root single').1 there, equal⟩
  · rw [sound'.find?_id held]
    rfl
  · have top := (below root').2.1
    rw [← moved] at top
    -- The trees are the same, so they start at the same node.
    have link := sound.link_eq (some (image r')) fun c same => Option.some.inj same ▸ (below root').1
    rw [top, ← sound.link_eq (some r) fun c same => Option.some.inj same ▸ root] at link
    rw [single, single', List.map_singleton, Option.some.inj link]

/-- Models of one shape are carried over from one another. -/
theorem exists_carriedOver (same : m.shapesAt (some r) = m'.shapesAt (some r')) :
    ∃ carry image, CarriedOver m m' carry image ∧ m.roots = m'.roots.map image := by
  obtain ⟨carry, image, carried, listed, -⟩ :=
    exists_carriedOver_of_look sound sound' single single' (fun equal => equal) same
  exact ⟨carry, image, carried, listed⟩

/-- Models whose nodes also hold the same are copies of one another. -/
theorem exists_copied
    (same : Tree.mapAll (fun k => ((m.node k).kind, (m.node k).toContent)) (m.treesAt (some r)) =
      Tree.mapAll (fun k => ((m'.node k).kind, (m'.node k).toContent)) (m'.treesAt (some r'))) :
    ∃ carry image, Copied m m' carry image ∧ m.roots = m'.roots.map image := by
  have shows_ : ∀ {a b}, ((m.node a).kind, (m.node a).toContent) =
      ((m'.node b).kind, (m'.node b).toContent) → m.contentOf a = m'.contentOf b := by
    intro a b equal
    obtain ⟨kind, content⟩ := Prod.mk.inj equal
    rw [Model.contentOf, Model.contentOf, kind, congrArg Content.fields content]
  obtain ⟨carry, image, carried, listed, looks⟩ :=
    exists_carriedOver_of_look sound sound' single single' shows_ same
  exact ⟨carry, image, ⟨carried, fun held => congrArg Prod.snd (looks held)⟩, listed⟩

end Alike

/-- Two models of one parse of a text are copies of one another, with the same text around them. -/
theorem Build.Spelled.exists_copied {text : String} {tree : ParseTree}
    (spelled : Build.Spelled m text tree) (spelled' : Build.Spelled m' text tree) :
    ∃ carry image, Copied m m' carry image ∧ m.roots = m'.roots.map image ∧ SameMargins m' m := by
  obtain ⟨r, single, -, looks⟩ := spelled.single
  obtain ⟨r', single', -, looks'⟩ := spelled'.single
  obtain ⟨carry, image, copied, listed⟩ := DocSync.exists_copied spelled.sound spelled'.sound single
    single' (looks.trans looks'.symm)
  exact ⟨carry, image, copied, listed, spelled.leading.trans spelled'.leading.symm,
    spelled.trailing.trans spelled'.trailing.symm, spelled.hash.trans spelled'.hash.symm,
    spelled.plain.trans spelled'.plain.symm⟩

end DocSync
