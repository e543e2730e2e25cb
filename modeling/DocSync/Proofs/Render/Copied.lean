import DocSync.Proofs.Change.Copied
import DocSync.Proofs.Render.Layout

/-!
The rendering of a copy. A node is laid out by what it holds and by the indent of the nearest frame
above it, and both are the same for its image. So a copy with the top level in the same order is shown
as the same text, or fails at the image of the node at which the other one fails.
-/

namespace DocSync

variable {m new : Model} {carry : NodeId → NodeId} {image : Key → Key} {config : Config}
  {a b k : Key} {indent indent' : Json} {parts : List Part}

/-! ### Lists with something in between -/

section Intersperse

variable {α β : Type}

theorem intersperse_map (f : α → β) (between : α) (xs : List α) :
    (xs.map f).intersperse (f between) = (xs.intersperse between).map f := by
  induction xs with
  | nil => rfl
  | cons x xs ih =>
    cases xs with
    | nil => rfl
    | cons y ys =>
      rw [List.map_cons, List.map_cons, List.intersperse_cons_cons, ← List.map_cons, ih,
        List.intersperse_cons_cons, List.map_cons, List.map_cons]

theorem of_mem_intersperse {between x : α} {xs : List α} (member : x ∈ xs.intersperse between) :
    x = between ∨ x ∈ xs := by
  induction xs with
  | nil => exact .inr member
  | cons y ys ih =>
    cases ys with
    | nil => exact .inr member
    | cons z zs =>
      rw [List.intersperse_cons_cons, List.mem_cons, List.mem_cons] at member
      rcases member with here | here | later
      · exact .inr (here ▸ List.mem_cons_self)
      · exact .inl here
      · exact (ih later).imp_right (List.mem_cons_of_mem _)

end Intersperse

/-! ### The indent that a node continues -/

namespace Model

/-- The indent that a node continues: that of the first frame on the way up, from owner to owner. -/
inductive Indents (m : Model) : Key → Json → Prop
  | atop {k : Key} : (m.node k).owner = none → Indents m k (.str "")
  | framed {k a : Key} {frame : Frame} : (m.node k).owner = some a →
    (m.node a).frames.get? ((m.node a).edgeName .child) = some frame → Indents m k frame.givenIndent
  | above {k a : Key} {indent : Json} : (m.node k).owner = some a →
    (m.node a).frames.get? ((m.node a).edgeName .child) = none → Indents m a indent →
    Indents m k indent

theorem Indents.unique (first : m.Indents k indent) (second : m.Indents k indent') :
    indent = indent' := by
  -- Each rule is about another case: no owner, an owner with an indentation, an owner without.
  induction first with
  | atop top =>
    cases second with
    | atop _ => rfl
    | framed owned _ | above owned _ _ => cases top.symm.trans owned
  | framed owned stored =>
    cases second with
    | atop top => cases top.symm.trans owned
    | framed owned' stored' =>
      cases owned.symm.trans owned'
      cases stored.symm.trans stored'
      rfl
    | above owned' bare _ =>
      cases owned.symm.trans owned'
      cases stored.symm.trans bare
  | above owned bare _ ih =>
    cases second with
    | atop top => cases top.symm.trans owned
    | framed owned' stored =>
      cases owned.symm.trans owned'
      cases stored.symm.trans bare
    | above owned' _ rest =>
      cases owned.symm.trans owned'
      exact ih rest

/-- The way up from owner to owner ends within the steps allowed for it. -/
theorem Sound.indents_contextIndentFrom (sound : m.Sound) (fuel : Nat) (held : m.Holds k)
    {walk : List Key} (walks : m.Walk (k :: walk)) (long : m.nodes.size ≤ walk.length + fuel) :
    m.Indents k (m.contextIndentFrom fuel k) := by
  induction fuel generalizing k walk with
  | zero =>
    have := sound.walk_length_le walks
    simp at this
    omega
  | succ fuel ih =>
    rw [contextIndentFrom, container?]
    cases owned : (m.node k).owner with
    | none => exact .atop owned
    | some a =>
      simp only [Option.map_some]
      cases stored : (m.node a).frames.get? ((m.node a).edgeName .child) with
      | some frame => exact .framed owned stored
      | none =>
        -- The walk from the owner is longer, which makes up for the step.
        obtain ⟨atop, differ⟩ := sound.over_of_owner held owned
        obtain ⟨longer, walks, more⟩ := sound.exists_longer_walk atop differ walks
        exact .above owned stored (ih (sound.holds_of_over held atop) walks (by omega))

theorem Sound.indents_contextIndent (sound : m.Sound) (held : m.Holds k) :
    m.Indents k (m.contextIndent k) :=
  sound.indents_contextIndentFrom m.nodes.size held ⟨.singleton k, by simpa using held⟩ (by omega)

end Model

/-! ### Layouts -/

/-- A part with its trees in other places. -/
def Part.move (image : Key → Key) : Part → Part
  | .chain trees separator trailing => .chain (Tree.mapAll image trees) separator trailing
  | .node tree => .node (tree.map image)
  | part => part

/-- A rendering's error about a node of another id. -/
def RenderError.carried (carry : NodeId → NodeId) : RenderError → RenderError
  | pairWithoutKey id => pairWithoutKey (carry id)
  | pairWithoutValue id => pairWithoutValue (carry id)
  | scalarWithoutValue id => scalarWithoutValue (carry id)
  | misfit fault => misfit fault

/-- The nodes of a part are nodes of a model. -/
def Part.Within (new : Model) : Part → Prop
  | .chain trees _ _ => ∀ k ∈ Tree.preorderAll trees, new.Holds k
  | .node tree => ∀ k ∈ tree.preorder, new.Holds k
  | _ => True

@[simp] theorem Part.move_text (image : Key → Key) (text : String) :
    (Part.text text).move image = .text text := rfl

@[simp] theorem Part.move_chain (image : Key → Key) (trees : List (Tree Key)) (separator : Json)
    (trailing : Bool) : (Part.chain trees separator trailing).move image =
      .chain (Tree.mapAll image trees) separator trailing := rfl

@[simp] theorem Part.move_node (image : Key → Key) (tree : Tree Key) :
    (Part.node tree).move image = .node (tree.map image) := rfl

@[simp] theorem Part.move_ofGiven (image : Key → Key) (given : Json) :
    (Part.ofGiven given).move image = .ofGiven given := by
  cases given <;> rfl

theorem Part.within_ofGiven (new : Model) (given : Json) : (Part.ofGiven given).Within new := by
  cases given <;> trivial

/-- A layout has no nodes but those below the node. -/
theorem Model.within_of_layout {children : List (Tree Key)}
    (within : ∀ k ∈ Tree.preorderAll children, new.Holds k)
    (laid : new.layout config b children = .ok parts) : ∀ p ∈ parts, p.Within new := by
  intro p inside
  cases (layout_of_ok laid).each p inside with
  | text text => trivial
  | stray => trivial
  | chain separator trailing _ => exact within

/-- The parts that a part stands for have no other nodes than the part. -/
theorem Part.within_of_expandPart {part : Part} (within : part.Within new)
    (expands : new.expandPart config part = .ok parts) : ∀ p ∈ parts, p.Within new := by
  -- A chain falls into its first tree and the chain of the others; a node into its layout.
  cases part with
  | text text =>
    cases expands
    exact fun p member => nomatch member
  | stray => cases expands
  | chain trees separator trailing =>
    cases trees with
    | nil =>
      cases expands
      exact fun p member => nomatch member
    | cons first rest =>
      obtain ⟨here, later⟩ := List.forall_mem_append.1 (Tree.preorderAll_cons first rest ▸ within :
        ∀ k ∈ first.preorder ++ Tree.preorderAll rest, new.Holds k)
      have head : (Part.node first).Within new := here
      have given := Part.within_ofGiven new separator
      cases rest with
      | nil =>
        cases expands
        cases trailing <;> simp [head, given]
      | cons second rest =>
        cases expands
        have tail : (Part.chain (second :: rest) separator trailing).Within new := later
        simp [head, given, tail]
  | node tree =>
    cases tree with
    | node k children =>
      exact Model.within_of_layout (fun j below => within j (by simp [below])) expands

namespace Copied

variable (copied : Copied m new carry image) (sound : m.Sound) (soundNew : new.Sound)
include copied

theorem indents (sound : m.Sound) (soundNew : new.Sound) (held : new.Holds b)
    (indents : new.Indents b indent) : m.Indents (image b) indent := by
  -- An owner's image has the frames of the owner under the same slot.
  have frames : ∀ {a}, new.Holds a →
      (m.node (image a)).frames.get? ((m.node (image a)).edgeName .child) =
        (new.node a).frames.get? ((new.node a).edgeName .child) := by
    intro a heldA
    rw [Node.edgeName_congr (copied.kind heldA),
      show (m.node (image a)).frames = (new.node a).frames from
        congrArg Content.frames (copied.content heldA)]
  have owner := fun {b} (held : new.Holds b) => copied.toCarriedOver.owner sound soundNew held
  induction indents with
  | atop top => exact .atop (by rw [owner held, top]; rfl)
  | framed owned stored =>
    have upper := soundNew.holds_of_over held (soundNew.over_of_owner held owned).1
    exact .framed (by rw [owner held, owned]; rfl) ((frames upper).trans stored)
  | above owned bare _ ih =>
    have upper := soundNew.holds_of_over held (soundNew.over_of_owner held owned).1
    exact .above (by rw [owner held, owned]; rfl) ((frames upper).trans bare) (ih upper)

include sound soundNew

theorem contextIndent (held : new.Holds b) : m.contextIndent (image b) = new.contextIndent b :=
  (sound.indents_contextIndent (copied.holds held)).unique
    (copied.indents sound soundNew held (soundNew.indents_contextIndent held))

/-- A slot of an image has the frame of the node's slot. -/
theorem frame (held : new.Holds b) (slot : String) :
    m.frame config (image b) slot = new.frame config b slot := by
  have frames : (m.node (image b)).frames = (new.node b).frames :=
    congrArg Content.frames (copied.content held)
  rw [Model.frame, Model.frame, frames, copied.kind held, copied.contextIndent sound soundNew held]

/-- An image is laid out as its node, with the trees below it in their new places. -/
theorem layout (held : new.Holds b) (children : List (Tree Key)) :
    m.layout config (image b) (Tree.mapAll image children) =
      ((new.layout config b children).map (List.map (Part.move image))).mapError
        (RenderError.carried carry) := by
  have edge := Node.edgeName_congr (copied.kind held) .child
  have id := copied.id held
  -- Kind, fields and frame are those of the copied node, so each branch is taken on both sides.
  simp only [Model.layout, copied.kind held, copied.fields held, edge, id,
    copied.frame sound soundNew held]
  cases kind : (new.node b).kind with
  | object | array =>
    cases (new.frame config b ((new.node b).edgeName .child)) with
    | error fault => rfl
    | ok frame =>
      cases children with
      | nil =>
        cases opening : frame.openingWhenEmpty <;>
          simp [bind, Except.bind, pure, Except.pure, Except.mapError, Except.map, opening,
            Tree.mapAll, RenderError.carried]
      | cons tree rest =>
        simp [bind, Except.bind, pure, Except.pure, Except.mapError, Except.map, Tree.mapAll,
          Model.chainPart]
  | pair =>
    cases (new.node b).fields.get? keyField with
    | none => rfl
    | some key =>
      cases new.frame config b valueName with
      | error fault => rfl
      | ok frame =>
        cases children with
        | nil =>
          cases (new.node b).fields.get? valueName with
          | none => rfl
          | some value =>
            simp [bind, Except.bind, pure, Except.pure, Except.mapError, Except.map, Tree.mapAll]
        | cons tree rest =>
          simp [bind, Except.bind, pure, Except.pure, Except.mapError, Except.map, Tree.mapAll,
            Model.chainPart]
  | scalar =>
    simp only [Node.scalarText, copied.fields held, id]
    cases (new.node b).fields.get? valueName <;> rfl

/-- The parts that a part stands for are moved with it. -/
theorem expandPart {part : Part} (within : part.Within new) :
    m.expandPart config (part.move image) =
      ((new.expandPart config part).map (List.map (Part.move image))).mapError
        (RenderError.carried carry) := by
  -- Texts have no nodes in them, and chains are taken apart alike.
  cases part with
  | text text => rfl
  | stray => rfl
  | chain trees separator trailing =>
    cases trees with
    | nil => rfl
    | cons first rest =>
      cases rest with
      | nil =>
        cases trailing <;> simp [Tree.mapAll, Model.expandPart, Except.map, Except.mapError]
      | cons second rest => simp [Tree.mapAll, Model.expandPart, Except.map, Except.mapError]
  | node tree =>
    cases tree with
    | node k children =>
      have held : new.Holds k := within k (by simp)
      exact copied.layout sound soundNew held children

/-- A stack of parts with nodes of a model comes to the same in a copy. -/
theorem emit (fuel : Nat) (shown : String) (within : ∀ p ∈ parts, p.Within new) :
    m.emit config fuel shown (parts.map (Part.move image)) =
      (new.emit config fuel shown parts).mapError (RenderError.carried carry) := by
  induction fuel generalizing shown parts with
  | zero => rfl
  | succ fuel ih =>
    cases parts with
    | nil => rfl
    | cons part rest =>
      obtain ⟨here, later⟩ := List.forall_mem_cons.1 within
      -- A text is shown as it stands; any other part is first taken apart, on both sides alike.
      by_cases isText : ∃ text, part = .text text
      · obtain ⟨text, rfl⟩ := isText
        rw [List.map_cons, Part.move_text, Model.emit, Model.emit, ih _ later]
      · have other : ∀ text, part ≠ .text text := not_exists.1 isText
        have moved : ∀ text, part.move image ≠ .text text := by
          cases part <;> simp [Part.move] at other ⊢
        rw [List.map_cons, Model.emit, Model.emit, copied.expandPart sound soundNew here]
        · cases expands : new.expandPart config part with
          | error e => rfl
          | ok parts =>
            have inner : ∀ p ∈ parts ++ rest, p.Within new :=
              List.forall_mem_append.2 ⟨Part.within_of_expandPart here expands, later⟩
            have all := ih shown inner
            rw [List.map_append] at all
            exact all
        · exact fun text same => other text same
        · exact fun text same => moved text same

/-- A copy with its top level in the same order is shown as the same text. -/
theorem render (margins : SameMargins new m) (listed : m.roots = new.roots.map image) :
    m.render config = (new.render config).mapError (RenderError.carried carry) := by
  have held : ∀ {r}, r ∈ new.roots → new.Holds r := soundNew.holds_root
  have forest : m.forest = new.forest.map (Tree.mapAll image) := by
    rw [Model.forest, Model.forest, listed, List.map_map, List.map_map]
    refine List.map_congr_left fun r root => ?_
    exact copied.treesAt_some soundNew sound.toLinked (held root)
  have size : Tree.sizeAll m.forest.flatten = Tree.sizeAll new.forest.flatten := by
    have flat : m.forest.flatten = Tree.mapAll image new.forest.flatten := by
      rw [forest, Tree.mapAll_eq_map, List.map_flatten,
        funext (Tree.mapAll_eq_map image)]
    rw [flat, Tree.sizeAll_eq, Tree.sizeAll_eq, Tree.preorderAll_mapAll, List.length_map]
  -- The parts of the document are moved with its trees.
  let partsOf (forest : List (List (Tree Key))) : List Part :=
    (forest.map fun trees => Part.chain trees (.str "\n") false).intersperse (.text "\n")
  have parts : partsOf m.forest = (partsOf new.forest).map (Part.move image) := by
    change (m.forest.map _).intersperse ((Part.text "\n").move image) = _
    rw [forest, ← intersperse_map, List.map_map, List.map_map]
    rfl
  have within : ∀ p ∈ partsOf new.forest, p.Within new := by
    intro p member
    rcases of_mem_intersperse member with rfl | chain
    · trivial
    · obtain ⟨trees, inForest, rfl⟩ := List.mem_map.1 chain
      obtain ⟨r, root, rfl⟩ := List.mem_map.1 inForest
      exact fun k below => soundNew.mem_order.1 (List.mem_flatMap.2 ⟨r, root, below⟩)
  have count : (partsOf m.forest).length = (partsOf new.forest).length := by
    rw [parts, List.length_map]
  have body : ∀ bound, m.emit config bound "" (partsOf m.forest) =
      (new.emit config bound "" (partsOf new.forest)).mapError (RenderError.carried carry) := by
    intro bound
    rw [parts]
    exact copied.emit sound soundNew bound "" within
  simp only [Model.render]
  change (m.emit config (Model.emitBound (Tree.sizeAll m.forest.flatten) (partsOf m.forest).length) ""
    (partsOf m.forest) >>= _) = Except.mapError _ (new.emit config
      (Model.emitBound (Tree.sizeAll new.forest.flatten) (partsOf new.forest).length) ""
      (partsOf new.forest) >>= _)
  rw [size, count, body]
  simp only [Model.givenLeading, Model.givenTrailing, margins.leading, margins.trailing,
    margins.strays]
  cases new.emit config (Model.emitBound (Tree.sizeAll new.forest.flatten)
    (partsOf new.forest).length) "" (partsOf new.forest) with
  | error e => rfl
  | ok body =>
    simp only [Except.mapError, bind, Except.bind]
    split <;> rfl

end Copied

end DocSync
