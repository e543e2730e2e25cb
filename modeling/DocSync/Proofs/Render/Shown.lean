import DocSync.Proofs.Render.Document

/-!
What a node of a document is shown as, told by what its children are shown as. That much is had under any
settings of the right types, also where what they add to a text is no blanks.
-/

namespace DocSync

variable {config : Config} {m : Model} {k : Key} {frame : Frame} {texts : List String}

/-- Settings by which frames can be generated: the indent is a text, and what was given in place of the flag
for trailing separators is none of its business. -/
structure Config.Generates (config : Config) : Prop where
  indent : ∃ indent : String, config.givenIndent = .str indent
  plain : config.strays.filter (fun member => member.1 == "trailing_separator") = []

theorem Config.Blank.generates (blank : config.Blank) : config.Generates :=
  ⟨blank.indent.imp fun _ both => both.1, blank.plain⟩

/-- Settings that all have their types generate frames. -/
theorem Config.generates_of_plain (plain : config.strays = []) : config.Generates := by
  refine ⟨⟨config.defaultIndent, ?_⟩, by rw [plain]; rfl⟩
  rw [givenIndent, plain]
  rfl

/-- Under a text a frame is generated for every kind, and that of a pair has nothing behind its value. -/
theorem exists_generated (generates : config.Generates) (kind : Kind) (indent : String) :
    ∃ frame, Frame.generatedUnder config kind (.str indent) = .ok frame ∧ frame.strays = [] ∧
      (kind = .pair → frame.trailing = false) := by
  obtain ⟨⟨level, given⟩, plain⟩ := generates
  -- Only a container asks what it is indented by: without an indent it stays on one line.
  have container : ∀ left right, kind.brackets? = some (left, right) →
      ∃ frame, Frame.generatedUnder config kind (.str indent) = .ok frame ∧ frame.strays = [] := by
    intro left right brackets
    by_cases none_ : indent = ""
    · exact ⟨{ Frame.flat config left right with strays := [] },
        by simp [Frame.generatedUnder, brackets, none_, Json.isVoid, plain], rfl⟩
    · exact ⟨{ Frame.spread config left right indent (indent ++ level) with strays := [] },
        by simp [Frame.generatedUnder, brackets, none_, Json.isVoid, plain, given, Json.sum?, Json.asText,
          Json.text?], rfl⟩
  cases kind with
  | object =>
    obtain ⟨frame, generated, plain⟩ := container _ _ rfl
    exact ⟨frame, generated, plain, by simp⟩
  | array =>
    obtain ⟨frame, generated, plain⟩ := container _ _ rfl
    exact ⟨frame, generated, plain, by simp⟩
  | pair => exact ⟨{ opening := ": " }, rfl, rfl, fun _ => rfl⟩
  | scalar => exact ⟨{}, rfl, rfl, fun _ => rfl⟩

/-- Texts in a row between the brackets of a container, which are drawn together where there are none. -/
def Frame.around (frame : Frame) : List String → String
  | [] => frame.emptyOpening ++ frame.closing
  | texts => frame.opening ++
    (frame.separator.intercalate texts ++ if frame.trailing then frame.separator else "") ++ frame.closing

theorem Frame.around_of_untrailed (untrailed : frame.trailing = false) (some_ : texts ≠ []) :
    frame.around texts = frame.opening ++ frame.separator.intercalate texts ++ frame.closing := by
  cases texts with
  | nil => exact absurd rfl some_
  | cons first rest => simp [around, untrailed, String.append_assoc]

/-- What a node shows with the texts of its children in its frame. -/
def Node.textIn (n : Node) (frame : Frame) (texts : List String) : String :=
  match n.kind with
  | .object | .array => frame.around texts
  | .pair =>
    let value := texts.head?.getD ((n.fields.get? valueName).getD "")
    (n.fields.get? keyField).getD "" ++ frame.opening ++ value ++ frame.closing
  | .scalar => (n.fields.get? valueName).getD ""

namespace Model

/-- The frames that nodes keep for their slots are made of texts. -/
def PlainFrames (m : Model) : Prop :=
  ∀ k, m.Holds k → (m.node k).kind ≠ .scalar →
    ∀ frame ∈ (m.node k).frames.get? ((m.node k).edgeName .child), frame.strays = []

/-- Stored or generated, there is a frame for any slot, and that of a node's own slot is made of texts. -/
theorem PlainFrames.exists_frame (framed : m.PlainFrames) (sound : m.Sound)
    (generates : config.Generates) (held : m.Holds k) (slot : String) :
    ∃ frame, m.frame config k slot = .ok frame ∧ (slot = (m.node k).edgeName .child →
      (m.node k).kind ≠ .scalar → frame.strays = []) := by
  rw [Model.frame]
  cases stored : (m.node k).frames.get? slot with
  | some frame => exact ⟨frame, rfl, fun own notScalar => framed k held notScalar frame (own ▸ stored)⟩
  | none =>
    -- Where none is stored one is generated under the indent around the node.
    obtain ⟨indent, context, _⟩ := sound.exists_contextIndent (P := fun _ => True) trivial
      (fun {k owner frame} held owned stored => by
        have above := sound.holds_of_over held (sound.over_of_owner held owned).1
        have child := (sound.mem_children_iff above held).2 owned
        refine ⟨trivial, framed owner above (fun kind => ?_) frame stored⟩
        rw [sound.children_of_scalar above kind] at child
        cases child) held
    rw [context]
    obtain ⟨frame, generated, plain, _⟩ := exists_generated generates (m.node k).kind indent
    exact ⟨frame, generated, fun _ _ => plain⟩

/-- Stored or generated, the slot of a node of a document has a frame whose parts are texts. -/
theorem Furnished.exists_plain_frame (furnished : m.Furnished) (sound : m.Sound)
    (generates : config.Generates) (held : m.Holds k) :
    ∃ frame, m.frame config k ((m.node k).edgeName .child) = .ok frame ∧ frame.strays = [] ∧
      ((m.node k).kind = .pair → frame.trailing = false) := by
  -- A stored frame fits, and where none is stored one is generated under the indent around the node.
  rw [Model.frame]
  cases stored : (m.node k).frames.get? ((m.node k).edgeName .child) with
  | some frame =>
    have fits := furnished.framed held stored
    exact ⟨frame, rfl, fits.plain, fun _ => fits.untrailed⟩
  | none =>
    obtain ⟨indent, context, _⟩ := furnished.exists_contextIndent sound held
    rw [context]
    exact exists_generated generates _ indent

/-- A node of a document shows what its children are shown as in its frame. -/
theorem Filled.renders (filled : m.Filled k)
    (framed : m.frame config k ((m.node k).edgeName .child) = .ok frame) (plain : frame.strays = [])
    (single : (m.node k).kind = .pair → frame.trailing = false)
    (below : List.Forall₂ (m.Renders config) (m.treesAt (m.node k).head) texts) :
    m.Renders config (m.tree k) ((m.node k).textIn frame texts) := by
  -- Objects and arrays are shown alike; of a pair it matters where its value is.
  have container : (m.node k).kind = .object ∨ (m.node k).kind = .array →
      m.Renders config (m.tree k) ((m.node k).textIn frame texts) := by
    intro kind
    have text : (m.node k).textIn frame texts = frame.around texts := by
      rcases kind with kind | kind <;> rw [Node.textIn, kind]
    rw [tree_eq, text]
    generalize m.treesAt (m.node k).head = trees at below
    cases below with
    | nil => exact renders_container_nil kind framed plain
    | cons first rest =>
      exact renders_container kind framed plain (List.cons_ne_nil _ _) (.cons first rest)
  cases kind : (m.node k).kind with
  | object => exact container (.inl kind)
  | array => exact container (.inr kind)
  | scalar =>
    rw [Filled, kind] at filled
    obtain ⟨value, _, fields⟩ := filled
    have valued : (m.node k).fields.get? valueName = some (String.ofList value) := by
      rw [fields, Dict.get?_ofList_singleton]
    have text : (m.node k).textIn frame texts = String.ofList value := by
      simp [Node.textIn, kind, valued]
    rw [tree_eq, text]
    exact renders_scalar kind valued
  | pair =>
    have slot : (m.node k).edgeName .child = valueName := by
      rw [Node.edgeName, kind]
      rfl
    rw [slot] at framed
    rw [Filled, kind] at filled
    have text : (m.node k).textIn frame texts = ((m.node k).fields.get? keyField).getD "" ++
        frame.opening ++ texts.head?.getD (((m.node k).fields.get? valueName).getD "") ++ frame.closing := by
      simp [Node.textIn, kind]
    rw [tree_eq, text]
    obtain ⟨key, _, ⟨value, _, childless, fields⟩ | ⟨c, children, _, fields⟩⟩ := filled
    · have keyed : (m.node k).fields.get? keyField = some (String.ofList key) := by
        rw [fields, get?_keyField]
      have valued : (m.node k).fields.get? valueName = some (String.ofList value) := by
        rw [fields, get?_valueName]
      have trees : m.treesAt (m.node k).head = [] := by
        rw [children_eq, chainAt_eq_map_label] at childless
        exact List.map_eq_nil_iff.1 childless
      rw [trees] at below ⊢
      cases below
      simpa [keyed, valued] using renders_pair_field kind keyed valued framed plain
    · have keyed : (m.node k).fields.get? keyField = some (String.ofList key) := by
        rw [fields, Dict.get?_ofList_singleton]
      obtain ⟨tree, _, trees, _, _⟩ := exists_shape_of_children children
      rw [trees] at below ⊢
      obtain ⟨text, _, renders, none_, rfl⟩ := List.forall₂_cons_left_iff.1 below
      cases none_
      simpa [keyed] using renders_pair_slot kind keyed framed plain renders (single kind)

/-- Every node of a document is shown. -/
theorem Furnished.exists_renders (furnished : m.Furnished) (sound : m.Sound)
    (generates : config.Generates) (held : m.Holds k) : ∃ text, m.Renders config (m.tree k) text := by
  -- The induction goes along all links, so what follows a node is shown together with it.
  obtain ⟨texts, all⟩ : ∃ texts, List.Forall₂ (m.Renders config) (m.treesAt (some k)) texts := by
    refine sound.descend (motive := fun k => ∃ texts, List.Forall₂ (m.Renders config)
      (m.treesAt (some k)) texts) (fun k held ih => ?_) held
    have part : ∀ e, ∃ texts,
        List.Forall₂ (m.Renders config) (m.treesAt ((m.node k).target? e)) texts := by
      intro e
      cases leads : (m.node k).target? e with
      | none => exact ⟨[], by simp⟩
      | some c => exact ih c ⟨e, leads⟩
    obtain ⟨frame, framed, plain, single⟩ := furnished.exists_plain_frame sound generates held
    obtain ⟨texts, below⟩ := part .child
    obtain ⟨others, behind⟩ := part .next
    refine ⟨(m.node k).textIn frame texts :: others, ?_⟩
    rw [sound.treesAt_some held]
    exact .cons ((furnished.filled held).renders framed plain single below) behind
  rw [sound.treesAt_some held] at all
  obtain ⟨text, _, renders, _, rfl⟩ := List.forall₂_cons_left_iff.1 all
  exact ⟨text, renders⟩

end Model

end DocSync
