import DocSync.Proofs.Model.Coherence
import DocSync.Proofs.Render.SourceFields

/-!
Where a node stands in the text of a document: behind what stands in front of the node that owns it, behind what
that node shows before its first child, and behind its own elder siblings with their separators. The text of the
document is what stands in front of a node, the node's own text and what stands behind it.
-/

namespace DocSync

namespace Model

variable {m : Model} {config : Config} {a j k : Key} {front back text : String} {frame : Frame}
  {before behind : List Key}

/-! ### Texts of nodes -/

/-- The text of a node and of everything below it, or none if it cannot be shown. -/
def textOf (m : Model) (config : Config) (k : Key) : String := (m.renderSubtree config k).toOption.getD ""

/-- What a node shows in front of its first child. -/
def leadIn (m : Model) (k : Key) (frame : Frame) : String :=
  if (m.node k).kind = .pair then ((m.node k).fields.get? keyField).getD "" ++ frame.opening
  else frame.opening

/-- Where a node stands in the text of a document: what is in front of it, and what is behind it. -/
inductive Flanked (m : Model) (config : Config) : Key → String → String → Prop
  | top {k : Key} {before behind : List Key} : m.roots.flatMap m.chain = before ++ k :: behind →
    Flanked m config k (m.leading ++ String.join (before.map fun j => m.textOf config j ++ "\n"))
      (String.join (behind.map fun j => "\n" ++ m.textOf config j) ++ m.trailing)
  | child {a k : Key} {front back : String} {frame : Frame} {before behind : List Key} :
    Flanked m config a front back → m.frame config a ((m.node a).edgeName .child) = .ok frame →
    m.children a = before ++ k :: behind →
    Flanked m config k
      (front ++ m.leadIn a frame ++ String.join (before.map fun j => m.textOf config j ++ frame.separator))
      (String.join (behind.map fun j => frame.separator ++ m.textOf config j) ++
        (if frame.trailing then frame.separator else "") ++ frame.closing ++ back)

theorem textOf_eq_of_shown (shown : m.renderSubtree config k = .ok text) : m.textOf config k = text := by
  rw [textOf, shown]
  rfl

theorem textOf_eq_of_renders (renders : m.Renders config (m.tree k) text) : m.textOf config k = text :=
  textOf_eq_of_shown (renderSubtree_eq renders)

section Texts

variable (sound : m.Sound) (framed : m.PlainFrames) (generates : config.Generates)
  (fine : ∀ j, m.Holds j → m.lack? j = none)
include sound framed generates fine

theorem renders_textOf (held : m.Holds k) : m.Renders config (m.tree k) (m.textOf config k) := by
  obtain ⟨pieces, made⟩ := exists_made sound framed generates held fun j inside =>
    fine j (sound.over_of_mem_subtree held inside).2
  have renders := made.renders m.ownWords
  rw [respelled_ownWords] at renders
  rwa [textOf_eq_of_renders renders]

/-- The text of a node with children is the texts of these in its frame. -/
theorem textOf_eq (held : m.Holds a) (had : m.frame config a ((m.node a).edgeName .child) = .ok frame)
    (some_ : m.children a ≠ []) : m.textOf config a = m.leadIn a frame ++
      (frame.separator.intercalate ((m.children a).map (m.textOf config)) ++
        if frame.trailing then frame.separator else "") ++ frame.closing := by
  obtain ⟨frame', had', texts⟩ := framed.exists_frame sound generates held ((m.node a).edgeName .child)
  cases had.symm.trans had'
  have below : List.Forall₂ (m.Renders config) ((m.children a).map m.tree)
      ((m.children a).map (m.textOf config)) := by
    rw [List.forall₂_map_left_iff, List.forall₂_map_right_iff, List.forall₂_same]
    exact fun c child =>
      renders_textOf sound framed generates fine (sound.over_of_mem_children held child).2
  have trees : (m.children a).map m.tree ≠ [] := by simpa using some_
  refine textOf_eq_of_renders ?_
  rw [sound.tree_children held]
  cases kind : (m.node a).kind with
  | object | array =>
    have plain := texts rfl (by rw [kind]; decide)
    have lead : m.leadIn a frame = frame.opening := by simp [leadIn, kind]
    rw [lead]
    exact renders_container (by simp [kind]) had plain trees below
  | pair =>
    have plain := texts rfl (by rw [kind]; decide)
    obtain ⟨key, keyed⟩ := Option.isSome_iff_exists.1 ((lack?_eq_none_iff.1 (fine a held)).2 kind).1
    have lead : m.leadIn a frame = key ++ frame.opening := by simp [leadIn, kind, keyed]
    have slot : (m.node a).edgeName .child = valueName := by rw [Node.edgeName, kind]; rfl
    rw [lead]
    exact renders_pair_chain kind keyed (slot ▸ had) plain trees below
  | scalar => exact absurd (sound.children_of_scalar held kind) some_

/-- A document is the texts of its nodes at top level, on lines of their own, and the texts around them. -/
theorem render_eq_top (plain : m.strays = []) : m.render config = .ok (m.leading ++
    "\n".intercalate ((m.roots.flatMap m.chain).map (m.textOf config)) ++ m.trailing) := by
  have texts : (m.roots.flatMap m.chain).mapM (m.renderSubtree config) =
      .ok ((m.roots.flatMap m.chain).map (m.textOf config)) := by
    rw [Except.mapM_eq_ok, List.forall₂_map_right_iff, List.forall₂_same]
    exact fun k inside =>
      renderSubtree_eq (renders_textOf sound framed generates fine (sound.mem_top_iff.1 inside).1)
  rw [render_eq_mapM sound, texts]
  exact enclosed_of_plain plain _

/-! ### The document around a node -/

omit framed generates fine in
/-- What has a place is a node of the model. -/
theorem Flanked.holds (flanked : m.Flanked config k front back) : m.Holds k := by
  induction flanked with
  | @top k before behind row => exact (sound.mem_top_iff.1 (by simp [row])).1
  | @child a k front back frame before behind _ _ row held =>
    exact (sound.over_of_mem_children held (show k ∈ m.children a by simp [row])).2

/-- A document is what stands in front of a node, the node's text, and what stands behind it. -/
theorem Flanked.render_eq (plain : m.strays = []) (flanked : m.Flanked config k front back) :
    m.render config = .ok (front ++ m.textOf config k ++ back) := by
  induction flanked with
  | top row =>
    rw [render_eq_top sound framed generates fine plain, row, List.map_append, List.map_cons,
      intercalate_around, List.map_map, List.map_map]
    simp only [String.append_assoc]
    rfl
  | @child a k front back frame before behind above had row whole =>
    have some_ : m.children a ≠ [] := by simp [row]
    rw [whole, textOf_eq sound framed generates fine (above.holds sound) had some_, row,
      List.map_append, List.map_cons, intercalate_around, List.map_map, List.map_map]
    simp only [String.append_assoc]
    rfl

omit fine in
/-- Each node stands somewhere. -/
theorem exists_flanked (held : m.Holds k) : ∃ front back, m.Flanked config k front back := by
  refine sound.ascend (motive := fun k => ∃ front back, m.Flanked config k front back)
    (fun k held ih => ?_) held
  cases owned : (m.node k).owner with
  | none =>
    obtain ⟨before, behind, row⟩ := List.append_of_mem (sound.mem_top_iff.2 ⟨held, owned⟩)
    exact ⟨_, _, .top row⟩
  | some a =>
    have heldA := sound.holds_of_over held (sound.over_of_owner held owned).1
    obtain ⟨front, back, flanked⟩ := ih a heldA owned
    obtain ⟨frame, had, -⟩ := framed.exists_frame sound generates heldA ((m.node a).edgeName .child)
    obtain ⟨before, behind, row⟩ := List.append_of_mem ((sound.mem_children_iff heldA held).2 owned)
    exact ⟨_, _, .child flanked had row⟩

omit framed generates fine in
/-- A child stands behind the node that owns it. -/
theorem Flanked.exists_of_child (flanked : m.Flanked config k front back) (held : m.Holds a)
    (child : k ∈ m.children a) : ∃ front' back' frame before behind, m.Flanked config a front' back' ∧
      m.frame config a ((m.node a).edgeName .child) = .ok frame ∧ m.children a = before ++ k :: behind ∧
      front = front' ++ m.leadIn a frame ++
        String.join (before.map fun j => m.textOf config j ++ frame.separator) := by
  have heldK := (sound.over_of_mem_children held child).2
  have owned := (sound.mem_children_iff held heldK).1 child
  cases flanked with
  | top row =>
    -- A node at top level is owned by none.
    rw [(sound.mem_top_iff.1 (show k ∈ m.roots.flatMap m.chain by simp [row])).2] at owned
    cases owned
  | @child a' k front' back' frame before behind above had row =>
    have heldA := above.holds sound
    obtain rfl := Option.some.inj (owned.symm.trans
      ((sound.mem_children_iff heldA heldK).1 (show k ∈ m.children a' by simp [row])))
    exact ⟨front', back', frame, before, behind, above, had, row, rfl⟩

end Texts

end Model

end DocSync
