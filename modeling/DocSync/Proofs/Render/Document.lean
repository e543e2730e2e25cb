import DocSync.Proofs.Model.Reachable
import DocSync.Proofs.Render.Reads

/-!
Models that stand for a document: each node has the fields and the children that its kind asks for, and
all text kept around them is punctuation with blanks. Such a model is shown as a text that says what
the model is.
-/

namespace DocSync

open Lexer (Blanks Lexeme)

variable {m : Model} {config : Config} {k r : Key} {frame : Frame} {text x y : List Char} {mark : Char}
  {shape : Shape}

/-! ### The shape of a document -/

/-- The text of a token that is a value. -/
def IsValue (text : List Char) : Prop := ∃ kind, Lexeme kind text ∧ kind.isScalar = true

/-- The texts of a frame are brackets and a comma with blanks around them. -/
structure Frame.Brackets (isObject : Bool) (frame : Frame) : Prop where
  opening : Gap (openMark isObject) frame.opening.toList
  separator : Gap ',' frame.separator.toList
  closing : Gap (closeMark isObject) frame.closing.toList

/-- The texts of a frame are the punctuation of its kind with blanks around it; its indent is nothing
but blanks. -/
structure Frame.Fits (kind : Kind) (frame : Frame) : Prop where
  texts : match kind with
    | .object => frame.Brackets true
    | .array => frame.Brackets false
    | .pair => Gap ':' frame.opening.toList ∧ Blanks frame.closing.toList
    | .scalar => True
  indent : Blanks frame.indent.toList
  untrailed : frame.trailing = false
  plain : frame.strays = []

namespace Model

/-- A node has the fields and the children that its kind asks for, and nothing else. -/
def Filled (m : Model) (k : Key) : Prop :=
  match (m.node k).kind with
  | .object => (m.node k).fields = .empty ∧ ∀ c ∈ m.children k, (m.node c).kind = .pair
  | .array => (m.node k).fields = .empty ∧ ∀ c ∈ m.children k, (m.node c).kind ≠ .pair
  | .pair => ∃ key, Lexeme .string key ∧
    ((∃ value, IsValue value ∧ m.children k = [] ∧ (m.node k).fields =
        Dict.ofList [(keyField, String.ofList key), (valueName, String.ofList value)]) ∨
      (∃ c, m.children k = [c] ∧ ((m.node c).kind = .object ∨ (m.node c).kind = .array) ∧
        (m.node k).fields = Dict.ofList [(keyField, String.ofList key)]))
  | .scalar => ∃ value, IsValue value ∧
    (m.node k).fields = Dict.ofList [(valueName, String.ofList value)]

/-- All nodes of a model are such as a document is made of. -/
structure Furnished (m : Model) : Prop where
  filled : ∀ {k}, m.Holds k → m.Filled k
  framed : ∀ {k frame}, m.Holds k →
    (m.node k).frames.get? ((m.node k).edgeName .child) = some frame → frame.Fits (m.node k).kind

/-- A model has one node at top level, with nothing but blanks around it, and all its nodes are such as
a document is made of. -/
structure DocumentShaped (m : Model) (r : Key) : Prop extends m.Furnished where
  single : m.roots = [r]
  alone : (m.node r).next = none
  leading : Blanks m.leading.toList
  trailing : Blanks m.trailing.toList
  plain : m.strays = []

end Model

/-- Settings under which nothing but blanks is added to the punctuation of generated text. -/
structure Config.Blank (config : Config) : Prop where
  indent : ∃ indent : String, config.givenIndent = .str indent ∧ Blanks indent.toList
  untrailed : config.trailingSeparator = false
  plain : config.strays.filter (fun member => member.1 == "trailing_separator") = []

/-! ### Frames -/

theorem blanks_append (blanks : Blanks x) (blanks' : Blanks y) : Blanks (x ++ y) :=
  List.forall_mem_append.2 ⟨blanks, blanks'⟩

/-- A mark is padded by more blanks. -/
theorem Gap.pad (gap : Gap mark text) (blanks : Blanks x) (blanks' : Blanks y) :
    Gap mark (x ++ (text ++ y)) := by
  obtain ⟨before, after, rfl, first, last⟩ := gap
  exact ⟨x ++ before, after ++ y, by simp, blanks_append blanks first, blanks_append last blanks'⟩

/-- What is left of a padded mark when blanks at its end are gone is a padded mark. -/
theorem Gap.of_append (solid : Lexer.isBlank mark = false) (gap : Gap mark (text ++ x))
    (blanks : Blanks x) : Gap mark text := by
  obtain ⟨before, after, split, first, last⟩ := gap
  rcases List.append_eq_append_iff.1 split with ⟨excess, rfl, same⟩ | ⟨excess, rfl, same⟩
  · -- The mark itself would be one of the blanks.
    have inside : mark ∈ x := by rw [same]; simp
    rw [blanks mark inside] at solid
    cases solid
  · cases excess with
    | nil =>
      have inside : mark ∈ x := by rw [← List.nil_append x, ← same]; simp
      rw [blanks mark inside] at solid
      cases solid
    | cons c excess =>
      obtain ⟨rfl, rfl⟩ := List.cons.inj same
      exact ⟨before, excess, rfl, first, (List.forall_mem_append.1 last).1⟩

/-- The opening of a container that has lost its children still has its bracket. -/
theorem gap_emptyOpening (solid : Lexer.isBlank mark = false) (gap : Gap mark frame.opening.toList)
    (blanks : Blanks frame.indent.toList) : Gap mark frame.emptyOpening.toList := by
  by_cases flat : (frame.indent.toList.isEmpty ||
      !('\n' :: frame.indent.toList).isSuffixOf frame.opening.toList) = true
  · simpa only [Frame.emptyOpening, flat, if_true] using gap
  · -- The indent and the line feed before it are blanks at the end of the opening.
    simp only [Frame.emptyOpening, flat, Bool.false_eq_true, if_false]
    rw [Bool.or_eq_true, not_or, Bool.not_eq_true', Bool.not_eq_false,
      List.isSuffixOf_iff_suffix] at flat
    obtain ⟨front, same⟩ := flat.2
    have split : front ++ '\n' :: frame.indent.toList =
        (front ++ ['\n']) ++ frame.indent.toList := by simp
    rw [← same, split] at gap ⊢
    have feed : Blanks ['\n'] := by simp [Blanks, Lexer.isBlank]
    have outer := gap.of_append solid blanks
    rw [List.length_append, Nat.add_sub_cancel, List.take_left, String.toList_ofList]
    split
    · rw [List.dropLast_concat]
      exact outer.of_append solid feed
    · exact outer

/-- The frame that is generated for a container under blanks has its brackets. -/
theorem exists_brackets (isObject : Bool) (blank : config.Blank) {indent : String}
    (blanks : Blanks indent.toList) :
    ∃ frame, Frame.generatedUnder config (kindOf isObject) (.str indent) = .ok frame ∧
      frame.Brackets isObject ∧ Blanks frame.indent.toList ∧ frame.trailing = false ∧
        frame.strays = [] := by
  obtain ⟨⟨level, given, levels⟩, untrailed, plain⟩ := blank
  have nothing : Blanks [] := List.forall_mem_nil _
  have space : Blanks [' '] := by simp [Blanks, Lexer.isBlank]
  have feed : Blanks ['\n'] := by simp [Blanks, Lexer.isBlank]
  have brackets : (kindOf isObject).brackets? =
      some (String.ofList [openMark isObject], String.ofList [closeMark isObject]) := by
    cases isObject <;> rfl
  have inner : Blanks ('\n' :: (indent ++ level).toList) := by
    rw [String.toList_append]
    exact blanks_append feed (blanks_append blanks levels)
  -- With nothing to indent by, the frame is on one line; otherwise each item stands on a line of its own.
  by_cases none : indent = ""
  · refine ⟨{ Frame.flat config (String.ofList [openMark isObject])
      (String.ofList [closeMark isObject]) with strays := [] }, ?_, ⟨?_, ?_, ?_⟩, nothing, untrailed,
      rfl⟩
    · simp [Frame.generatedUnder, brackets, none, Json.isVoid, plain]
    · exact ⟨[], [], by simp [Frame.flat], nothing, nothing⟩
    · exact ⟨[], [' '], by simp [Frame.flat, Frame.flatSeparator], nothing, space⟩
    · exact ⟨[], [], by simp [Frame.flat], nothing, nothing⟩
  · refine ⟨{ Frame.spread config (String.ofList [openMark isObject])
      (String.ofList [closeMark isObject]) indent (indent ++ level) with strays := [] }, ?_,
      ⟨?_, ?_, ?_⟩, ?_, untrailed, rfl⟩
    · simp [Frame.generatedUnder, brackets, none, Json.isVoid, plain, given, Json.sum?, Json.asText,
        Json.text?]
    · exact ⟨[], '\n' :: (indent ++ level).toList, by simp [Frame.spread], nothing, inner⟩
    · exact ⟨[], '\n' :: (indent ++ level).toList, by simp [Frame.spread], nothing, inner⟩
    · exact ⟨'\n' :: indent.toList, [], by simp [Frame.spread], blanks_append feed blanks, nothing⟩
    · exact fun c inside => inner c (List.mem_cons_of_mem _ inside)

/-- Frames that are generated under blanks fit. -/
theorem exists_fits (blank : config.Blank) (kind : Kind) {indent : String}
    (blanks : Blanks indent.toList) :
    ∃ frame, Frame.generatedUnder config kind (.str indent) = .ok frame ∧ frame.Fits kind := by
  have nothing : Blanks "".toList := List.forall_mem_nil _
  cases kind with
  | object =>
    obtain ⟨frame, generated, brackets, indent, untrailed, plain⟩ :=
      exists_brackets true blank blanks
    exact ⟨frame, generated, brackets, indent, untrailed, plain⟩
  | array =>
    obtain ⟨frame, generated, brackets, indent, untrailed, plain⟩ :=
      exists_brackets false blank blanks
    exact ⟨frame, generated, brackets, indent, untrailed, plain⟩
  | pair =>
    refine ⟨{ opening := ": " }, rfl, ⟨⟨[], [' '], rfl, nothing, ?_⟩, nothing⟩, nothing, rfl, rfl⟩
    simp [Blanks, Lexer.isBlank]
  | scalar => exact ⟨{}, rfl, trivial, nothing, rfl, rfl⟩

namespace Model

/-- What generated text continues is a text of some sort, such as blanks, wherever all frames around nodes
have an indent of that sort. -/
theorem Sound.exists_contextIndent {P : String → Prop} (sound : m.Sound) (none_ : P "")
    (framed : ∀ {k owner frame}, m.Holds k → (m.node k).owner = some owner →
      (m.node owner).frames.get? ((m.node owner).edgeName .child) = some frame →
        P frame.indent ∧ frame.strays = []) (held : m.Holds k) :
    ∃ indent : String, m.contextIndent k = .str indent ∧ P indent := by
  unfold Model.contextIndent
  generalize m.nodes.size = fuel
  induction fuel generalizing k with
  | zero => exact ⟨"", rfl, none_⟩
  | succ fuel ih =>
    rw [contextIndentFrom, container?]
    cases owned : (m.node k).owner with
    | none => exact ⟨"", rfl, none_⟩
    | some owner =>
      have above := sound.holds_of_over held (sound.over_of_owner held owned).1
      simp only [Option.map_some]
      -- The owner tells the indentation, or else the place where it stands itself.
      cases stored : (m.node owner).frames.get? ((m.node owner).edgeName .child) with
      | none => exact ih above
      | some frame =>
        obtain ⟨indent, plain⟩ := framed held owned stored
        refine ⟨frame.indent, ?_, indent⟩
        simp [Frame.givenIndent, Frame.given, plain]

theorem Furnished.exists_contextIndent (furnished : m.Furnished) (sound : m.Sound)
    (held : m.Holds k) :
    ∃ indent : String, m.contextIndent k = .str indent ∧ Blanks indent.toList := by
  refine sound.exists_contextIndent (P := fun indent => Blanks indent.toList) (List.forall_mem_nil _)
    (fun {k owner frame} held owned stored => ?_) held
  have fits := furnished.framed
    (sound.holds_of_over held (sound.over_of_owner held owned).1) stored
  exact ⟨fits.indent, fits.plain⟩

/-- Stored or generated, the frame of a node's slot fits. -/
theorem Furnished.exists_frame (furnished : m.Furnished) (sound : m.Sound) (blank : config.Blank)
    (held : m.Holds k) : ∃ frame, m.frame config k ((m.node k).edgeName .child) = .ok frame ∧
      frame.Fits (m.node k).kind := by
  rw [Model.frame]
  cases stored : (m.node k).frames.get? ((m.node k).edgeName .child) with
  | some frame => exact ⟨frame, rfl, furnished.framed held stored⟩
  | none =>
    obtain ⟨indent, context, blanks⟩ := furnished.exists_contextIndent sound held
    rw [context]
    exact exists_fits blank _ blanks

end Model

/-! ### Texts -/

/-- However the items of a container are spaced. -/
def anyhow (_ : List (List Char)) : Prop := True

/-- A row of texts that each stand for a thing, with a gap between each two. -/
inductive Row {α : Type} (isGap : List Char → Prop) (stands : List Char → α → Prop) :
    List Char → List α → Prop
  | last {text : List Char} {a : α} : stands text a → Row isGap stands text [a]
  | more {text gap row : List Char} {a : α} {rest : List α} :
    stands text a → isGap gap → Row isGap stands row rest →
      Row isGap stands (text ++ (gap ++ row)) (a :: rest)

namespace Row

variable {α β : Type} {isGap isGap' : List Char → Prop} {stands : List Char → α → Prop}
  {stands' : List Char → β → Prop} {row row' gap : List Char} {things things' : List α}

/-- Two rows with a gap between them are a row. -/
theorem append (first : Row isGap stands row things) (between : isGap gap)
    (second : Row isGap stands row' things') : Row isGap stands (row ++ (gap ++ row')) (things ++ things') := by
  induction first with
  | last within => exact .more within between second
  | more within between' _ ih =>
    rw [List.append_assoc, List.append_assoc]
    exact .more within between' ih

/-- Texts with one separator between them are a row. -/
theorem of_texts {separator first : List Char} {texts : List (List Char)} (separates : isGap separator)
    (each : List.Forall₂ stands (first :: texts) things) :
    Row isGap stands (first ++ texts.flatMap (separator ++ ·)) things := by
  induction texts generalizing first things with
  | nil =>
    obtain ⟨a, _, within, none_, rfl⟩ := List.forall₂_cons_left_iff.1 each
    cases none_
    rw [List.flatMap_nil, List.append_nil]
    exact .last within
  | cons second texts ih =>
    obtain ⟨a, rest, within, later, rfl⟩ := List.forall₂_cons_left_iff.1 each
    rw [List.flatMap_cons, List.append_assoc]
    exact .more within separates (ih later)

/-- Texts that stand for things may stand for others that are told by these. -/
theorem map {f : α → β} (gaps : ∀ gap, isGap gap → isGap' gap)
    (each : ∀ text a, stands text a → stands' text (f a)) (reads : Row isGap stands row things) :
    Row isGap' stands' row (things.map f) := by
  induction reads with
  | last within => exact .last (each _ _ within)
  | more within between _ ih => exact .more (each _ _ within) (gaps _ between) ih

/-- If all gaps of a row are one separator, and each text is the one that is shown for its thing, the row
is what these texts are with the separator between them. -/
theorem eq_intercalate {separator : String} {shown : α → String}
    (gaps : ∀ gap, isGap gap → gap = separator.toList)
    (each : ∀ text a, stands text a → text = (shown a).toList) (reads : Row isGap stands row things) :
    row = (separator.intercalate (things.map shown)).toList := by
  induction reads with
  | last within => rw [List.map_singleton, String.intercalate_singleton, each _ _ within]
  | @more text gap row a rest within between later ih =>
    obtain ⟨b, rest, rfl⟩ : ∃ b bs, rest = b :: bs := by cases later <;> exact ⟨_, _, rfl⟩
    rw [each _ _ within, gaps _ between, ih]
    simp only [List.map_cons, String.intercalate_cons_cons, String.toList_append, List.append_assoc]

end Row

/-- A row of texts that say something, with a comma between each two. -/
def ReadsRow : List Char → List Shape → Prop := Row (Gap ',') (ReadsWithin anyhow)

namespace ReadsRow

variable {row : List Char} {shapes : List Shape}

/-- In a row the blanks at the end of each text belong to what comes behind it. -/
theorem exists_items (reads : ReadsRow row shapes) : ∃ leading body shape items last,
    row = leading ++ (body ++ (itemsText items ++ last)) ∧ Blanks leading ∧ Blanks last ∧
      Reads anyhow body shape ∧ (∀ item ∈ items, Gap ',' item.gap ∧ Reads anyhow item.text item.shape) ∧
        shapes = shape :: items.map Item.shape := by
  unfold ReadsRow at reads
  induction reads with
  | @last text shape within =>
    obtain ⟨leading, body, trailing, rfl, blanks, blanks', reads⟩ := within
    exact ⟨leading, body, shape, [], trailing, by simp [itemsText], blanks, blanks', reads, by simp,
      rfl⟩
  | @more text gap row shape shapes within isGap _ ih =>
    obtain ⟨leading, body, trailing, rfl, blanks₁, blanks₂, reads⟩ := within
    obtain ⟨leading', body', shape', items, last, rfl, blanks₃, blanks₄, reads', all, rfl⟩ := ih
    refine ⟨leading, body, shape, ⟨trailing ++ (gap ++ leading'), body', shape'⟩ :: items, last, ?_,
      blanks₁, blanks₄, reads, ?_, rfl⟩
    · simp [itemsText]
    · exact List.forall_mem_cons.2 ⟨⟨isGap.pad blanks₂ blanks₃, reads'⟩, all⟩

end ReadsRow

/-- A row between brackets is a container. -/
theorem readsWithin_row {isObject : Bool} {opening closing row : List Char} {shapes : List Shape}
    (opens : Gap (openMark isObject) opening) (closes : Gap (closeMark isObject) closing)
    (reads : ReadsRow row shapes) (areItems : ∀ item ∈ shapes, item.isPair = isObject) :
    ReadsWithin anyhow (opening ++ (row ++ closing)) (.node (kindOf isObject, .empty) shapes) := by
  obtain ⟨leading, body, shape, items, last, rfl, blanks₁, blanks₂, within, all, rfl⟩ :=
    reads.exists_items
  obtain ⟨before, inside, rfl, blanks₃, blanks₄⟩ := opens
  obtain ⟨inside', after, rfl, blanks₅, blanks₆⟩ := closes
  refine ⟨before, itemsText (⟨openMark isObject :: (inside ++ leading), body, shape⟩ :: items) ++
    ((last ++ inside') ++ [closeMark isObject]), after, ?_, blanks₃, blanks₆, ?_⟩
  · simp [itemsText]
  · rw [List.forall_mem_cons, List.forall_mem_map] at areItems
    refine .container (blanks_append blanks₄ blanks₁) (fun item member => (all item member).1)
      (blanks_append blanks₂ blanks₅) trivial ?_ ?_
    · exact List.forall_mem_cons.2 areItems
    · exact List.forall_mem_cons.2 ⟨within, fun item member => (all item member).2⟩

theorem readsWithin_empty {isObject : Bool} {opening closing : List Char}
    (opens : Gap (openMark isObject) opening) (closes : Gap (closeMark isObject) closing) :
    ReadsWithin anyhow (opening ++ closing) (.node (kindOf isObject, .empty) []) := by
  obtain ⟨before, inside, rfl, blanks₁, blanks₂⟩ := opens
  obtain ⟨inside', after, rfl, blanks₃, blanks₄⟩ := closes
  exact ⟨before, openMark isObject :: ((inside ++ inside') ++ [closeMark isObject]), after, by simp,
    blanks₁, blanks₄, .empty isObject (blanks_append blanks₂ blanks₃)⟩

theorem readsWithin_field {key opening value closing : List Char} (lexeme : Lexeme .string key)
    (gap : Gap ':' opening) (isValue : IsValue value) (blanks : Blanks closing) :
    ReadsWithin anyhow (key ++ (opening ++ (value ++ closing))) (.node (.pair, Dict.ofList
      [(keyField, String.ofList key), (valueName, String.ofList value)]) []) := by
  obtain ⟨kind, lexeme', isScalar⟩ := isValue
  exact ⟨[], key ++ (opening ++ value), closing, by simp, List.forall_mem_nil _, blanks,
    .field lexeme gap lexeme' isScalar⟩

theorem readsWithin_slot {key opening closing : List Char} (lexeme : Lexeme .string key)
    (gap : Gap ':' opening) (within : ReadsWithin anyhow text shape)
    (isContainer : shape.isContainer = true) (blanks : Blanks closing) :
    ReadsWithin anyhow (key ++ (opening ++ (text ++ closing)))
      (.node (.pair, Dict.ofList [(keyField, String.ofList key)]) [shape]) := by
  obtain ⟨leading, body, trailing, rfl, blanks₁, blanks₂, reads⟩ := within
  have gap' : Gap ':' (opening ++ leading) := by
    simpa using gap.pad (List.forall_mem_nil _) blanks₁
  exact ⟨[], key ++ ((opening ++ leading) ++ body), trailing ++ closing, by simp,
    List.forall_mem_nil _, blanks_append blanks₂ blanks, .slot lexeme gap' reads isContainer⟩

namespace Model

/-- Trees of a model are shown as texts that say their shapes. -/
def Voiced (m : Model) (config : Config) (link : Option Key) : Prop :=
  ∃ texts : List (List Char),
    List.Forall₂ (m.Renders config) (m.treesAt link) (texts.map String.ofList) ∧
      List.Forall₂ (ReadsWithin anyhow) texts (m.shapesAt link)

theorem map_label_shapesAt (m : Model) (link : Option Key) :
    (m.shapesAt link).map Tree.label = (m.chainAt link).map m.contentOf := by
  rw [shapesAt, chainAt_eq_map_label, Tree.mapAll_eq_map, List.map_map, List.map_map]
  refine List.map_congr_left fun tree _ => ?_
  cases tree with
  | node k children => rw [Function.comp, Tree.map]; rfl

/-- The items of a container are of the kinds of its children. -/
theorem areItems_of_children {isObject : Bool}
    (kinds : ∀ c ∈ m.children k, ((m.node c).kind == .pair) = isObject) :
    ∀ item ∈ m.shapesAt (m.node k).head, item.isPair = isObject := by
  intro item member
  have label := List.mem_map_of_mem (f := Tree.label) member
  rw [map_label_shapesAt] at label
  obtain ⟨c, child, same⟩ := List.mem_map.1 label
  rw [Shape.isPair, ← same]
  exact kinds c child

/-- A container whose children are shown is shown. -/
theorem voiced_container (isObject : Bool) (kind : (m.node k).kind = kindOf isObject)
    (fields : (m.node k).fields = .empty)
    (framed : m.frame config k ((m.node k).edgeName .child) = .ok frame)
    (fits : frame.Brackets isObject) (blanks : Blanks frame.indent.toList)
    (untrailed : frame.trailing = false) (plain : frame.strays = [])
    (kinds : ∀ c ∈ m.children k, ((m.node c).kind == .pair) = isObject)
    (below : m.Voiced config (m.node k).head) :
    ∃ text, m.Renders config (m.tree k) (String.ofList text) ∧
      ReadsWithin anyhow text (.node (m.contentOf k) (m.shapesAt (m.node k).head)) := by
  have areItems := areItems_of_children kinds
  have content : m.contentOf k = (kindOf isObject, .empty) := by
    rw [contentOf, kind, fields]
  have isContainer : (m.node k).kind = .object ∨ (m.node k).kind = .array := by
    rw [kind]
    cases isObject <;> simp [kindOf]
  obtain ⟨texts, renders, reads⟩ := below
  rw [content, tree_eq]
  generalize m.shapesAt (m.node k).head = shapes at areItems reads
  -- Without children the brackets close at once; otherwise a separator stands between any two.
  cases reads with
  | nil =>
    rw [List.map_nil, List.forall₂_nil_right_iff] at renders
    have shown := renders_container_nil isContainer framed plain
    refine ⟨frame.emptyOpening.toList ++ frame.closing.toList, ?_, ?_⟩
    · rw [renders]
      simpa using shown
    · exact readsWithin_empty (gap_emptyOpening (isBlank_openMark isObject) fits.opening blanks)
        fits.closing
  | @cons first shape texts shapes one others =>
    exact ⟨_, renders_container_row isContainer framed plain untrailed renders,
      readsWithin_row fits.opening fits.closing (Row.of_texts fits.separator (.cons one others))
        areItems⟩

/-- A link that leads to one node leads to one tree. -/
theorem exists_shape_of_children {c : Key} (children : m.children k = [c]) :
    ∃ tree shape, m.treesAt (m.node k).head = [tree] ∧ m.shapesAt (m.node k).head = [shape] ∧
      shape.label = m.contentOf c := by
  have labels := m.map_label_shapesAt (m.node k).head
  rw [children_eq] at children
  have trees := m.chainAt_eq_map_label (m.node k).head
  rw [children, List.map_singleton] at labels
  rw [children] at trees
  obtain ⟨shape, shapes, label⟩ := List.map_eq_singleton_iff.1 labels
  obtain ⟨tree, single, _⟩ := List.map_eq_singleton_iff.1 trees.symm
  exact ⟨tree, shape, single, shapes, label⟩

theorem voiced_pair (kind : (m.node k).kind = .pair) (filled : m.Filled k)
    (framed : m.frame config k ((m.node k).edgeName .child) = .ok frame) (fits : frame.Fits .pair)
    (below : m.Voiced config (m.node k).head) :
    ∃ text, m.Renders config (m.tree k) (String.ofList text) ∧
      ReadsWithin anyhow text (.node (m.contentOf k) (m.shapesAt (m.node k).head)) := by
  obtain ⟨⟨opening, closing⟩, _, untrailed, plain⟩ := fits
  have slot : (m.node k).edgeName .child = valueName := by
    rw [Node.edgeName, kind]
    rfl
  rw [slot] at framed
  rw [Filled, kind] at filled
  rw [contentOf, kind, tree_eq]
  -- The value is a field, or it is the only child.
  obtain ⟨key, lexeme, ⟨value, isValue, childless, fields⟩ | ⟨c, children, isContainer, fields⟩⟩ :=
    filled
  · have keyed : (m.node k).fields.get? keyField = some (String.ofList key) := by
      rw [fields, get?_keyField]
    have valued : (m.node k).fields.get? valueName = some (String.ofList value) := by
      rw [fields, get?_valueName]
    have trees : m.treesAt (m.node k).head = [] := by
      rw [children_eq, chainAt_eq_map_label] at childless
      exact List.map_eq_nil_iff.1 childless
    have shown := renders_pair_field kind keyed valued framed plain
    refine ⟨key ++ (frame.opening.toList ++ (value ++ frame.closing.toList)), ?_, ?_⟩
    · rw [trees]
      simpa [String.append_assoc] using shown
    · rw [shapesAt, trees, Tree.mapAll, fields]
      exact readsWithin_field lexeme opening isValue closing
  · have keyed : (m.node k).fields.get? keyField = some (String.ofList key) := by
      rw [fields, Dict.get?_ofList_singleton]
    obtain ⟨tree, shape, trees, shapes, label⟩ := exists_shape_of_children children
    obtain ⟨texts, renders, reads⟩ := below
    rw [trees, List.forall₂_map_right_iff] at renders
    rw [shapes] at reads ⊢
    obtain ⟨text, others, within, none_, rfl⟩ := List.forall₂_cons_right_iff.1 reads
    cases none_
    have shown := renders_pair_slot kind keyed framed plain (List.forall₂_cons.1 renders).1 untrailed
    have holds : shape.isContainer = true := by
      rw [Shape.isContainer, label]
      simpa [contentOf] using isContainer
    refine ⟨key ++ (frame.opening.toList ++ (text ++ frame.closing.toList)), ?_, ?_⟩
    · rw [trees]
      simpa [String.append_assoc] using shown
    · rw [fields]
      exact readsWithin_slot lexeme opening within holds closing

theorem voiced_scalar (kind : (m.node k).kind = .scalar) (filled : m.Filled k)
    (childless : (m.node k).head = none) :
    ∃ text, m.Renders config (m.tree k) (String.ofList text) ∧
      ReadsWithin anyhow text (.node (m.contentOf k) (m.shapesAt (m.node k).head)) := by
  rw [Filled, kind] at filled
  obtain ⟨value, ⟨kind', lexeme, isScalar⟩, fields⟩ := filled
  have valued : (m.node k).fields.get? valueName = some (String.ofList value) := by
    rw [fields, Dict.get?_ofList_singleton]
  refine ⟨value, renders_scalar kind valued, ?_⟩
  rw [contentOf, kind, fields, childless, shapesAt_none]
  exact ⟨[], value, [], by simp, List.forall_mem_nil _, List.forall_mem_nil _,
    .scalar lexeme isScalar⟩

/-- A node is shown as what it is, once what is below it is. -/
theorem Furnished.voiced_node (furnished : m.Furnished) (sound : m.Sound) (blank : config.Blank)
    (held : m.Holds k) (below : m.Voiced config (m.node k).head) :
    ∃ text, m.Renders config (m.tree k) (String.ofList text) ∧
      ReadsWithin anyhow text (.node (m.contentOf k) (m.shapesAt (m.node k).head)) := by
  obtain ⟨frame, framed, fits⟩ := furnished.exists_frame sound blank held
  have filled := furnished.filled held
  -- The frame fits the kind, so what it puts between the parts is read as it should.
  cases kind : (m.node k).kind with
  | object =>
    rw [kind] at fits
    simp only [Filled, kind] at filled
    exact voiced_container true kind filled.1 framed fits.texts fits.indent
      fits.untrailed fits.plain (fun c child => by rw [filled.2 c child]; rfl) below
  | array =>
    rw [kind] at fits
    simp only [Filled, kind] at filled
    exact voiced_container false kind filled.1 framed fits.texts fits.indent
      fits.untrailed fits.plain (fun c child => beq_false_of_ne (filled.2 c child)) below
  | pair => exact voiced_pair kind filled framed (kind ▸ fits) below
  | scalar =>
    refine voiced_scalar kind filled ?_
    have slotted := sound.slotted held
    rw [kind] at slotted
    simpa [Kind.slot?] using slotted

/-- Every chain is shown as what it is. -/
theorem Furnished.voiced (furnished : m.Furnished) (sound : m.Sound) (blank : config.Blank)
    (held : m.Holds k) : m.Voiced config (some k) := by
  refine sound.descend (motive := fun k => m.Voiced config (some k)) (fun k held ih => ?_) held
  have part : ∀ e, m.Voiced config ((m.node k).target? e) := by
    intro e
    cases leads : (m.node k).target? e with
    | none => exact ⟨[], by simp, by simp⟩
    | some c => exact ih c ⟨e, leads⟩
  obtain ⟨text, renders, within⟩ := furnished.voiced_node sound blank held (part .child)
  obtain ⟨texts, all, reads⟩ := part .next
  refine ⟨text :: texts, ?_, ?_⟩
  · rw [sound.treesAt_some held, List.map_cons]
    exact .cons renders all
  · rw [sound.shapesAt_some held]
    exact .cons within reads

/-- A model that stands for a document is shown as a text that says its shape. -/
theorem DocumentShaped.exists_render (shaped : m.DocumentShaped r) (sound : m.Sound)
    (blank : config.Blank) (notPair : (m.node r).kind ≠ .pair) :
    ∃ out shape, m.render config = .ok out ∧ ReadAs anyhow out shape ∧
      m.shapesAt (some r) = [shape] := by
  have held : m.Holds r := sound.holds_root (by simp [shaped.single])
  obtain ⟨texts, renders, reads⟩ := shaped.voiced sound blank held
  rw [sound.treesAt_some held, shaped.alone, treesAt_none, List.forall₂_map_right_iff] at renders
  rw [sound.shapesAt_some held, shaped.alone, shapesAt_none] at reads ⊢
  obtain ⟨text, others, within, none_, rfl⟩ := List.forall₂_cons_right_iff.1 reads
  cases none_
  have rendered := render_eq sound shaped.single shaped.alone shaped.plain
    (List.forall₂_cons.1 renders).1
  obtain ⟨leading, body, trailing, rfl, blanks, blanks', said⟩ := within
  refine ⟨_, _, rendered, ⟨⟨m.leading.toList ++ leading, body, trailing ++ m.trailing.toList, ?_,
    blanks_append shaped.leading blanks, blanks_append blanks' shaped.trailing, said⟩, ?_⟩, rfl⟩
  · simp
  · exact beq_false_of_ne notPair

end Model

/-- Every model that stands for a document, and has no pair at top level, is shown as a text that is
parsed, and read as a model with the same snapshot. -/
theorem build_render_snapshot (sound : m.Sound) (shaped : m.DocumentShaped r)
    (notPair : (m.node r).kind ≠ .pair) (blank : config.Blank) :
    ∃ out, m.render config = .ok out ∧ ∀ file supply, ∃ tree m' count,
      Parser.parse out file = .ok tree ∧ Model.build out file supply = .ok (m', count) ∧
        ∀ indent, m'.snapshot.text indent = m.snapshot.text indent := by
  obtain ⟨out, shape, rendered, readAs, shapes⟩ := shaped.exists_render sound blank notPair
  refine ⟨out, rendered, fun file supply => ?_⟩
  obtain ⟨tree, parsed, _⟩ := readAs.parse file
  obtain ⟨m', count, built, same⟩ := readAs.build sound shaped.single shapes file supply
  exact ⟨tree, m', count, parsed, built, same⟩

/-- An object that was read empty, and has been given a pair with an array for its value. -/
def nestedSpace : Workspace :=
  afterCalls (readIn "\x7b \x7d" 0)
    [.create (some "p") .pair { fields := Dict.ofList [(keyField, "\"k\"")] },
      .create (some "a") .array {},
      .create (some "s") .scalar { fields := Dict.ofList [(valueName, "10")] },
      .appendChild "a" itemsSlot "s", .appendChild "p" valueName "a",
      .appendChild "n1" membersSlot "p"]

theorem filled_nestedSpace : ∀ k < 4, nestedSpace.model.Filled k := by
  have kinds : (nestedSpace.model.node 0).kind = .object ∧ (nestedSpace.model.node 1).kind = .pair ∧
      (nestedSpace.model.node 2).kind = .array ∧ (nestedSpace.model.node 3).kind = .scalar := by
    decide +kernel
  intro k inside
  match k with
  | 0 =>
    rw [Model.Filled, kinds.1]
    exact ⟨by decide +kernel, by decide +kernel⟩
  | 1 =>
    rw [Model.Filled, kinds.2.1]
    exact ⟨['"', 'k', '"'], Lexer.lexeme_of_scan rfl, .inr ⟨2, by decide +kernel⟩⟩
  | 2 =>
    rw [Model.Filled, kinds.2.2.1]
    exact ⟨by decide +kernel, by decide +kernel⟩
  | 3 =>
    rw [Model.Filled, kinds.2.2.2]
    exact ⟨['1', '0'], ⟨.number, Lexer.lexeme_of_scan rfl, rfl⟩, by decide +kernel⟩

theorem documentShaped_nestedSpace : nestedSpace.model.DocumentShaped 0 := by
  have size : nestedSpace.model.nodes.size = 4 := by decide +kernel
  have nothing : Blanks "".toList := List.forall_mem_nil _
  -- Only the object has a frame stored, which is that of the text it was read from.
  have framed : ∀ k < 4, (nestedSpace.model.node k).frames = if k = 0 then
      Dict.ofList [(membersSlot, { opening := "\x7b ", closing := "\x7d", separator := ", " })]
        else {} := by decide +kernel
  have fits : ∀ k < 4, ∀ frame, (nestedSpace.model.node k).frames.get?
      ((nestedSpace.model.node k).edgeName .child) = some frame →
        frame.Fits (nestedSpace.model.node k).kind := by
    intro k inside frame stored
    rw [framed k inside] at stored
    split at stored
    · next first =>
      subst first
      have kind : (nestedSpace.model.node 0).kind = .object := by decide +kernel
      rw [Node.edgeName, kind] at stored
      rw [kind]
      obtain rfl := Option.some.inj (Dict.get?_ofList_singleton.symm.trans stored)
      have space : Blanks [' '] := by simp [Blanks, Lexer.isBlank]
      exact ⟨⟨⟨[], [' '], rfl, nothing, space⟩, ⟨[], [' '], rfl, nothing, space⟩,
        ⟨[], [], rfl, nothing, nothing⟩⟩, nothing, rfl, rfl⟩
    · cases stored
  have edges : nestedSpace.model.leading = "" ∧ nestedSpace.model.trailing = "" := by
    decide +kernel
  exact {
    filled := fun held => filled_nestedSpace _ (size ▸ held.1)
    framed := fun held stored => fits _ (size ▸ held.1) _ stored
    single := by decide +kernel
    alone := by decide +kernel
    leading := edges.1 ▸ nothing
    trailing := edges.2 ▸ nothing
    plain := by decide +kernel }

theorem blank_default : Config.Blank {} where
  indent := ⟨"  ", rfl, by simp [Blanks, Lexer.isBlank]⟩
  untrailed := rfl
  plain := rfl

theorem build_render_snapshot_nested : ∃ out, nestedSpace.model.render {} = .ok out ∧
    out = "\x7b \"k\": [10]\x7d" ∧ ∃ m count, Model.build out .null 0 = .ok (m, count) ∧
      m.snapshot.text none = nestedSpace.model.snapshot.text none := by
  have sound : nestedSpace.model.Sound := ((reachable_readIn "\x7b \x7d" 0).afterCalls _).sound
  obtain ⟨out, rendered, rebuilt⟩ := build_render_snapshot sound documentShaped_nestedSpace
    (by decide +kernel) blank_default
  have shows : (nestedSpace.model.render {}).toOption = some "\x7b \"k\": [10]\x7d" := by
    decide +kernel
  obtain ⟨tree, m, count, _, built, same⟩ := rebuilt .null 0
  rw [rendered] at shows
  exact ⟨out, rendered, Option.some.inj shows, m, count, built, same none⟩

/-- A pair that stands at top level, where the object that held it is gone. -/
def pairSpace : Workspace := afterCalls (readIn "\x7b\"a\": 1\x7d" 0) [.detach "n2", .remove "n1"]

theorem documentShaped_pairSpace : pairSpace.model.DocumentShaped 1 := by
  have nothing : Blanks "".toList := List.forall_mem_nil _
  have alone : ∀ {k}, pairSpace.model.Holds k → k = 1 := by
    intro k held
    have size : pairSpace.model.nodes.size = 2 := by decide +kernel
    have only : ∀ k < 2, (pairSpace.model.node k).live = true → k = 1 := by decide +kernel
    exact only k (size ▸ held.1) held.2
  have kind : (pairSpace.model.node 1).kind = .pair := by decide +kernel
  have framed : (pairSpace.model.node 1).frames =
      Dict.ofList [(valueName, { opening := ": " })] := by decide +kernel
  have edges : pairSpace.model.leading = "" ∧ pairSpace.model.trailing = "" := by decide +kernel
  exact {
    filled := by
      intro k held
      rw [alone held, Model.Filled, kind]
      exact ⟨['"', 'a', '"'], Lexer.lexeme_of_scan rfl, .inl ⟨['1'],
        ⟨.number, Lexer.lexeme_of_scan rfl, rfl⟩, by decide +kernel, by decide +kernel⟩⟩
    framed := by
      intro k frame held stored
      rw [alone held, framed, Node.edgeName, kind] at stored
      rw [alone held, kind]
      obtain rfl := Option.some.inj (Dict.get?_ofList_singleton.symm.trans stored)
      have space : Blanks [' '] := by simp [Blanks, Lexer.isBlank]
      exact ⟨⟨⟨[], [' '], rfl, nothing, space⟩, nothing⟩, nothing, rfl, rfl⟩
    single := by decide +kernel
    alone := by decide +kernel
    leading := edges.1 ▸ nothing
    trailing := edges.2 ▸ nothing
    plain := by decide +kernel }

/-- A pair at top level is shown as a text that is not parsed. -/
theorem not_build_render_snapshot : ¬ ∀ (m : Model) (r : Key) (config : Config), m.Sound →
    m.DocumentShaped r → config.Blank → ∃ out, m.render config = .ok out ∧
      ∀ file supply, ∃ tree m' count, Parser.parse out file = .ok tree ∧
        Model.build out file supply = .ok (m', count) ∧
          ∀ indent, m'.snapshot.text indent = m.snapshot.text indent := by
  intro always
  have sound : pairSpace.model.Sound := ((reachable_readIn "\x7b\"a\": 1\x7d" 0).afterCalls _).sound
  obtain ⟨out, rendered, rebuilt⟩ := always _ 1 {} sound documentShaped_pairSpace blank_default
  obtain ⟨tree, _, _, parsed, _⟩ := rebuilt .null 0
  have fails : ((pairSpace.model.render {}).toOption.bind fun out =>
      (Parser.parse out .null).toOption.map fun _ => ()) = none := by decide +kernel
  rw [rendered] at fails
  simp [Except.toOption, parsed] at fails

end DocSync
