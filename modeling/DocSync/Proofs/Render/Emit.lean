import DocSync.Proofs.Render.Joined

/-!
What a tree comes to, by the kind of its node, as long as the frame of the node is made of texts: its fields and
what the trees below it come to, between the parts of the frame.
-/

namespace DocSync.Model

variable {m : Model} {config : Config} {parts : List Part} {text : String} {k : Key}
  {children : List (Tree Key)} {texts : List String} {frame : Frame}

/-- A tree comes to a text. -/
def Renders (m : Model) (config : Config) (tree : Tree Key) (text : String) : Prop :=
  m.treeText config tree = .ok text

/-- A chain comes to the texts of its trees with the separator between them. -/
theorem chainText_of_renders {trees : List (Tree Key)} (separator : String) (trailing : Bool)
    (some_ : trees ≠ []) (all : List.Forall₂ (m.Renders config) trees texts) :
    m.chainText config (.str separator) trailing trees =
      pure (separator.intercalate texts ++ if trailing then separator else "") := by
  rw [chainText_str separator trailing some_, Except.mapM_eq_ok.2 all]
  rfl

/-! ### Nodes -/

/-- A node comes to what its layout comes to. -/
theorem renders_of_layout (laid : m.layout config k children = .ok parts)
    (comes : m.outcomes config parts = pure text) : m.Renders config (.node k children) text :=
  (outcomes_of_layout laid).symm.trans comes

/-- A scalar comes to its value. -/
theorem renders_scalar {value : String} (kind : (m.node k).kind = .scalar)
    (field : (m.node k).fields.get? valueName = some value) :
    m.Renders config (.node k children) value := by
  have laid : m.layout config k children = .ok [.text value] := by
    simp [Model.layout, kind, Node.scalarText, field, pure, Except.pure, bind, Except.bind]
  exact renders_of_layout laid (by simp [outcomes_cons])

/-- Parts of a frame that are texts are what they are. -/
theorem Frame.given_plain (plain : frame.strays = []) (name text : String) :
    frame.given name text = .str text := by
  simp [Frame.given, plain]

theorem Frame.openingWhenEmpty_plain (plain : frame.strays = []) :
    frame.openingWhenEmpty = .ok (.str frame.emptyOpening) := by
  simp only [Frame.openingWhenEmpty, Frame.givenIndent, Frame.givenOpening, Frame.givenClosing,
    given_plain plain, Json.isVoid, Json.text?, Option.isNone_some]
  by_cases flat : frame.indent.isEmpty = true
  · have flat' : frame.indent.toList.isEmpty = true := by
      rw [String.isEmpty_iff.1 flat]
      rfl
    rw [if_pos flat, Frame.emptyOpening]
    simp [flat']
  · rw [if_neg flat]
    by_cases ends : ('\n' :: frame.indent.toList).isSuffixOf frame.opening.toList = true
    · simp [ends]
    · simp [ends, Frame.emptyOpening]

/-- The layout of a container is its children between the two brackets of its frame. -/
theorem layout_container (kind : (m.node k).kind = .object ∨ (m.node k).kind = .array)
    (framed : m.frame config k ((m.node k).edgeName .child) = .ok frame) (plain : frame.strays = [])
    (some_ : children ≠ []) : m.layout config k children = .ok
      [.text frame.opening, .chain children (.str frame.separator) frame.trailing,
        .text frame.closing] := by
  have given := Frame.given_plain plain
  rcases kind with kind | kind <;> cases children with
  | nil => exact absurd rfl some_
  | cons tree rest =>
    simp [Model.layout, kind, framed, Except.mapError, bind, Except.bind, pure, Except.pure,
      chainPart, Frame.givenOpening, Frame.givenClosing, Frame.givenSeparator, given,
      Part.ofGiven]

/-- Without children the brackets are drawn together. -/
theorem layout_container_nil (kind : (m.node k).kind = .object ∨ (m.node k).kind = .array)
    (framed : m.frame config k ((m.node k).edgeName .child) = .ok frame) (plain : frame.strays = []) :
    m.layout config k [] = .ok [.text frame.emptyOpening, .text frame.closing] := by
  have given := Frame.given_plain plain
  have empty := Frame.openingWhenEmpty_plain plain
  rcases kind with kind | kind <;>
    simp [Model.layout, kind, framed, Except.mapError, bind, Except.bind, pure, Except.pure,
      Frame.givenClosing, given, empty, Part.ofGiven]

/-- A container comes to its children between its brackets. -/
theorem renders_container (kind : (m.node k).kind = .object ∨ (m.node k).kind = .array)
    (framed : m.frame config k ((m.node k).edgeName .child) = .ok frame) (plain : frame.strays = [])
    (some_ : children ≠ []) (all : List.Forall₂ (m.Renders config) children texts) :
    m.Renders config (.node k children) (frame.opening ++
      (frame.separator.intercalate texts ++ if frame.trailing then frame.separator else "") ++
      frame.closing) := by
  refine renders_of_layout (layout_container kind framed plain some_) ?_
  simp [outcomes_cons, chainText_of_renders frame.separator frame.trailing some_ all, String.append_assoc]

/-- A container without children comes to its brackets, drawn together. -/
theorem renders_container_nil (kind : (m.node k).kind = .object ∨ (m.node k).kind = .array)
    (framed : m.frame config k ((m.node k).edgeName .child) = .ok frame)
    (plain : frame.strays = []) :
    m.Renders config (.node k []) (frame.emptyOpening ++ frame.closing) := by
  refine renders_of_layout (layout_container_nil kind framed plain) ?_
  simp [outcomes_cons]

/-- The layout of a pair is its key, the opening of the frame, and then the part that stands for the value. -/
theorem layout_pair {key : String} (part : Part) (kind : (m.node k).kind = .pair)
    (keyed : (m.node k).fields.get? keyField = some key)
    (framed : m.frame config k valueName = .ok frame) (plain : frame.strays = [])
    (shows : match children, (m.node k).fields.get? valueName with
      | [], none => False
      | [], some value => part = .text value
      | _, _ => part = chainPart children frame) : m.layout config k children = .ok
      [.text key, .text frame.opening, part, .text frame.closing] := by
  have given := Frame.given_plain plain
  cases children with
  | nil =>
    cases value : (m.node k).fields.get? valueName with
    | none => simp [value] at shows
    | some value' =>
      simp only [value] at shows
      simp [Model.layout, kind, keyed, framed, Except.mapError, bind, Except.bind, pure,
        Except.pure, Frame.givenOpening, Frame.givenClosing, given, Part.ofGiven, value, shows]
  | cons tree rest =>
    simp only at shows
    simp [Model.layout, kind, keyed, framed, Except.mapError, bind, Except.bind, pure,
      Except.pure, Frame.givenOpening, Frame.givenClosing, given, Part.ofGiven, shows]

/-- A pair comes to its key and its value, with the frame of the value around the value. -/
theorem renders_pair {key body : String} (part : Part) (kind : (m.node k).kind = .pair)
    (keyed : (m.node k).fields.get? keyField = some key)
    (framed : m.frame config k valueName = .ok frame) (plain : frame.strays = [])
    (shows : match children, (m.node k).fields.get? valueName with
      | [], none => False
      | [], some value => part = .text value
      | _, _ => part = chainPart children frame)
    (comes : m.outcome config part = pure body) :
    m.Renders config (.node k children) (key ++ frame.opening ++ body ++ frame.closing) := by
  refine renders_of_layout (layout_pair part kind keyed framed plain shows) ?_
  simp [outcomes_cons, comes, String.append_assoc]

/-- A pair with a field for its value. -/
theorem renders_pair_field {key value : String} (kind : (m.node k).kind = .pair)
    (keyed : (m.node k).fields.get? keyField = some key)
    (valued : (m.node k).fields.get? valueName = some value)
    (framed : m.frame config k valueName = .ok frame) (plain : frame.strays = []) :
    m.Renders config (.node k []) (key ++ frame.opening ++ value ++ frame.closing) :=
  renders_pair (.text value) kind keyed framed plain (by simp [valued]) rfl

/-- A pair comes to its key and the row of its children, where it has any. -/
theorem renders_pair_chain {key : String} (kind : (m.node k).kind = .pair)
    (keyed : (m.node k).fields.get? keyField = some key)
    (framed : m.frame config k valueName = .ok frame) (plain : frame.strays = [])
    (some_ : children ≠ []) (all : List.Forall₂ (m.Renders config) children texts) :
    m.Renders config (.node k children) (key ++ frame.opening ++
      (frame.separator.intercalate texts ++ if frame.trailing then frame.separator else "") ++
        frame.closing) := by
  refine renders_pair (chainPart children frame) kind keyed framed plain ?_ ?_
  · cases children with
    | nil => exact absurd rfl some_
    | cons tree rest => rfl
  · rw [chainPart, Frame.givenSeparator, Frame.given_plain plain]
    exact chainText_of_renders frame.separator frame.trailing some_ all

/-- A pair with an object or an array for its value. -/
theorem renders_pair_slot {key body : String} {tree : Tree Key} (kind : (m.node k).kind = .pair)
    (keyed : (m.node k).fields.get? keyField = some key)
    (framed : m.frame config k valueName = .ok frame) (plain : frame.strays = [])
    (renders : m.Renders config tree body) (single : frame.trailing = false) :
    m.Renders config (.node k [tree]) (key ++ frame.opening ++ body ++ frame.closing) := by
  have chained := renders_pair_chain kind keyed framed plain (List.cons_ne_nil tree []) (.cons renders .nil)
  rwa [String.intercalate_singleton, single, if_neg Bool.false_ne_true, String.append_empty] at chained

/-! ### The document -/

theorem renderSubtree_eq (renders : m.Renders config (m.tree k) text) :
    m.renderSubtree config k = .ok text :=
  renderSubtree_eq_treeText.trans renders

/-- A document of one node comes to the node's text and the texts around it. -/
theorem render_eq {r : Key} (sound : m.Sound) (single : m.roots = [r]) (alone : (m.node r).next = none)
    (plain : m.strays = []) (renders : m.Renders config (m.tree r) text) :
    m.render config = .ok (m.leading ++ text ++ m.trailing) := by
  have chain : m.chain r = [r] := by
    simp [chain_eq, sound.chainAt_some (sound.holds_root (show r ∈ m.roots by simp [single])), alone]
  rw [render_eq_mapM sound, single, List.flatMap_singleton, chain, List.mapM_cons,
    List.mapM_nil, renderSubtree_eq renders]
  exact enclosed_of_plain plain text

end DocSync.Model
