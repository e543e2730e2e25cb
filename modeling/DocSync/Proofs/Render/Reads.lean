import DocSync.Proofs.Grammar.Machine
import DocSync.Proofs.Grammar.Scanning
import DocSync.Proofs.Render.Fidelity
import DocSync.Proofs.Snapshot.Shape

/-!
What a text says, told without positions: the shape that it is read as, and how the siblings in it are
spaced. Every text that says something is parsed, and the model built from it has that shape; every
text that is parsed says something.
-/

namespace DocSync

open Lexer (Blanks Lexeme Lexes Closed Cursor)

/-! ### Shapes of parse trees -/

/-- What a node shows of what it is made of. -/
def formOf (made : Makeup) : Kind × Dict String := (made.1, made.2.fields)

/-- The shape that a parse tree becomes. -/
def ParseTree.shape (tree : ParseTree) : Shape := (tree.blueprint [] "").map formOf

/-- A shape shows nothing of where a tree was read. -/
theorem ParseTree.Regular.map_blueprint {tree : ParseTree} (regular : tree.Regular)
    (source : List Char) (fingerprint : String) :
    (tree.blueprint source fingerprint).map formOf = tree.shape := by
  have form : ∀ tree : ParseTree, formOf (Build.makeup source fingerprint tree) =
      formOf (Build.makeup [] "" tree) := by
    intro tree
    unfold Build.makeup
    split <;> rfl
  -- Where a tree was read shows in frames and origins alone, so it is enough that the trees below agree.
  have node : ∀ {tree : ParseTree}, tree.Regular → (∀ inner ∈ tree.nested,
      (inner.blueprint source fingerprint).map formOf = inner.shape) →
        (tree.blueprint source fingerprint).map formOf = tree.shape := by
    intro tree regular inner
    rw [ParseTree.shape, ParseTree.blueprint_eq regular, ParseTree.blueprint_eq regular, Tree.map,
      Tree.map, form, Tree.mapAll_eq_map, Tree.mapAll_eq_map, List.map_map, List.map_map]
    exact congrArg _ (List.map_congr_left inner)
  induction regular with
  | token t => exact node (.token t) fun _ inside => nomatch inside
  | object span all ih => exact node (.object span all) ih
  | array span all ih => exact node (.array span all) ih
  | @pair key value span regular ih =>
    refine node (.pair key span regular) fun inner inside => ?_
    cases value with
    | token t => cases inside
    | rule r children within =>
      obtain rfl := List.mem_singleton.1 inside
      exact ih

theorem ParseTree.shape_token (t : Token) : (ParseTree.token t).shape =
    .node (.scalar, Dict.ofList [(valueName, t.lexeme)]) [] := by
  simp [shape, blueprint, Tree.map, Tree.mapAll, formOf, Build.scalarMakeup]

theorem ParseTree.shape_container (isObject : Bool) (children : List ParseTree) (span : Location) :
    (ParseTree.rule (ruleOf isObject) children span).shape =
      .node (kindOf isObject, .empty) (children.map ParseTree.shape) := by
  have below : Tree.mapAll formOf (blueprintAll [] "" children) = children.map shape := by
    rw [blueprintAll_eq_map, Tree.mapAll_eq_map, List.map_map]
    rfl
  cases isObject <;>
    simp [shape, ruleOf, blueprint, Tree.map, formOf, Build.containerMakeup, below, kindOf]

theorem ParseTree.shape_pair_token (key t : Token) (span : Location) :
    (ParseTree.rule .pair [.token key, .token t] span).shape = .node (.pair,
      Dict.ofList [(keyField, key.lexeme), (valueName, t.lexeme)]) [] := by
  simp [shape, blueprint, Tree.map, Tree.mapAll, formOf, Build.pairMakeup, Build.pairFields]

theorem ParseTree.shape_pair_rule (key : Token) (r : Rule) (children : List ParseTree)
    (span inner : Location) :
    (ParseTree.rule .pair [.token key, .rule r children inner] span).shape = .node (.pair,
      Dict.ofList [(keyField, key.lexeme)]) [(ParseTree.rule r children inner).shape] := by
  simp [shape, blueprint, Tree.map, Tree.mapAll, formOf, Build.pairMakeup, Build.pairFields]

/-- The shape of a pair. -/
def Shape.isPair (shape : Shape) : Bool := shape.label.1 == .pair

/-- The shape of an object or an array. -/
def Shape.isContainer (shape : Shape) : Bool := shape.label.1 == .object || shape.label.1 == .array

/-! ### What a text says -/

/-- An item in the text of a container: what lies before it, its own text, and what that says. -/
structure Item where
  gap : List Char
  text : List Char
  shape : Shape

/-- The text of a row of items. -/
def itemsText (items : List Item) : List Char := items.flatMap fun item => item.gap ++ item.text

/-- A text says a shape, and the gaps between the items of each container in it are spaced in some
way. -/
inductive Reads (spacing : List (List Char) → Prop) : List Char → Shape → Prop
  | scalar {kind : TokenKind} {text : List Char} : Lexeme kind text → kind.isScalar = true →
    Reads spacing text (.node (.scalar, Dict.ofList [(valueName, String.ofList text)]) [])
  | empty (isObject : Bool) {blank : List Char} : Blanks blank →
    Reads spacing (openMark isObject :: (blank ++ [closeMark isObject]))
      (.node (kindOf isObject, .empty) [])
  | container {isObject : Bool} {opening text closing : List Char} {shape : Shape}
    {rest : List Item} :
    Blanks opening → (∀ item ∈ rest, Gap ',' item.gap) → Blanks closing →
      spacing (rest.map Item.gap) →
      (∀ item ∈ ⟨openMark isObject :: opening, text, shape⟩ :: rest, item.shape.isPair = isObject) →
      (∀ item ∈ ⟨openMark isObject :: opening, text, shape⟩ :: rest,
        Reads spacing item.text item.shape) →
      Reads spacing (itemsText (⟨openMark isObject :: opening, text, shape⟩ :: rest) ++
          (closing ++ [closeMark isObject]))
        (.node (kindOf isObject, .empty) (shape :: rest.map Item.shape))
  | field {key gap value : List Char} {kind : TokenKind} : Lexeme .string key → Gap ':' gap →
    Lexeme kind value → kind.isScalar = true → Reads spacing (key ++ (gap ++ value))
      (.node (.pair, Dict.ofList
        [(keyField, String.ofList key), (valueName, String.ofList value)]) [])
  | slot {key gap text : List Char} {shape : Shape} : Lexeme .string key → Gap ':' gap →
    Reads spacing text shape → shape.isContainer = true → Reads spacing (key ++ (gap ++ text))
      (.node (.pair, Dict.ofList [(keyField, String.ofList key)]) [shape])

variable {spacing : List (List Char) → Prop} {file : Json} {pos : Cursor} {text x y : List Char}
  {shape : Shape} {isObject : Bool} {ts before : List Token} {tree : ParseTree}

/-! ### What says something is parsed -/

/-- A text says what it is to be read as, where it is read: the tokens, the tree that is derived from
them, and how that tree lies in the text. -/
structure Parsed (spacing : List (List Char) → Prop) (file : Json) (pos : Cursor) (text : List Char)
    (shape : Shape) (ts : List Token) (tree : ParseTree) : Prop where
  lexes : Lexes file pos text ts
  derives : Derives ts (.item shape.isPair tree)
  shows : tree.shape = shape
  laid : Laid pos.offset text tree
  evenly : (∀ gaps, spacing gaps → gaps.Pairwise (· = ·)) →
    ∀ source, Occurs source pos.offset text → tree.Evenly source

/-- Items are parsed at whatever place they stand. -/
def Parses (spacing : List (List Char) → Prop) (text : List Char) (shape : Shape) : Prop :=
  ∀ (file : Json) (pos : Cursor), ∃ ts tree, Parsed spacing file pos text shape ts tree

/-- A comma with blanks around it, and then an item, is a comma and the item. -/
theorem Parses.after_gap (parses : Parses spacing text shape) {gap : List Char} {mark : Char}
    {kind : TokenKind} (isMark : Lexer.punctuation? mark = some kind) (isGap : Gap mark gap)
    (file : Json) (pos : Cursor) : ∃ (comma : Token) (pos' : Cursor) (ts : List Token)
      (tree : ParseTree), comma.kind = kind ∧ pos'.offset = pos.offset + gap.length ∧
      Lexes file pos (gap ++ text) (comma :: ts) ∧ Parsed spacing file pos' text shape ts tree := by
  obtain ⟨b, a, rfl, blanks, blanks'⟩ := isGap
  let marked := (pos.advance b).advance [mark]
  obtain ⟨ts, tree, parsed⟩ := parses file (marked.advance a)
  refine ⟨Lexer.tokenAt file kind [mark] (pos.advance b) marked, marked.advance a, ts, tree, rfl, ?_,
    ?_, parsed⟩
  · simp only [marked, Lexer.Cursor.offset_advance, List.length_append, List.length_cons,
      List.length_nil]
    omega
  · rw [List.append_assoc, List.cons_append]
    exact (Lexes.after_mark isMark (parsed.lexes.after_blanks blanks')).after_blanks blanks

theorem ParseTree.Regular.isPair_shape (regular : tree.Regular) :
    tree.shape.isPair = tree.isPair := by
  cases regular with
  | token t => rw [ParseTree.shape_token]; rfl
  | @object children span _ => rw [show Rule.object = ruleOf true from rfl, ParseTree.shape_container]; rfl
  | @array children span _ => rw [show Rule.array = ruleOf false from rfl, ParseTree.shape_container]; rfl
  | @pair key value span _ =>
    cases value with
    | token t => rw [ParseTree.shape_pair_token]; rfl
    | rule r children inner => rw [ParseTree.shape_pair_rule]; rfl

/-- What is said in the cell of a tree. -/
def Cell.item (cell : Cell) : Item := ⟨cell.gap, cell.text, cell.tree.shape⟩

theorem itemsText_item (cells : List Cell) : itemsText (cells.map Cell.item) = rowText cells := by
  rw [itemsText, List.flatMap_map]
  rfl

/-- The trees of a row, which starts at a position, are each parsed from their own text. -/
structure ParsedRow (spacing : List (List Char) → Prop) (at_ : Nat) (cells : List Cell) : Prop where
  laid : ∀ p ∈ placed at_ cells, Laid p.1 p.2.text p.2.tree
  evenly : (∀ gaps, spacing gaps → gaps.Pairwise (· = ·)) →
    ∀ p ∈ placed at_ cells, ∀ source, Occurs source p.1 p.2.text → p.2.tree.Evenly source

theorem Parsed.cons {gap : List Char} {cells : List Cell} {at_ : Nat}
    (parsed : Parsed spacing file pos text shape ts tree) (start : at_ + gap.length = pos.offset)
    (row : ParsedRow spacing (pos.offset + text.length) cells) :
    ParsedRow spacing at_ (⟨gap, text, tree⟩ :: cells) where
  laid := by
    rw [placed, List.forall_mem_cons, start]
    exact ⟨parsed.laid, row.laid⟩
  evenly even := by
    rw [placed, List.forall_mem_cons, start]
    exact ⟨parsed.evenly even, row.evenly even⟩

/-- The trees of a row are of the form that what is said asks for. -/
theorem ParsedRow.isPair {cells : List Cell} {at_ : Nat} (row : ParsedRow spacing at_ cells)
    (areItems : ∀ item ∈ cells.map Cell.item, item.shape.isPair = isObject) :
    ∀ cell ∈ cells, cell.tree.isPair = isObject := by
  intro cell member
  obtain ⟨start, there⟩ := exists_placed member at_
  rw [← (row.laid _ there).regular.isPair_shape]
  exact areItems _ (List.mem_map_of_mem member)

/-- The items of a container are read one after the other behind those before them. -/
theorem exists_row {latest : ParseTree} {earlier : List ParseTree}
    (lexes : Lexes file pos x before) (derives : Derives before (.items isObject (latest :: earlier)))
    {rest : List Item} (gaps : ∀ item ∈ rest, Gap ',' item.gap)
    (areItems : ∀ item ∈ rest, item.shape.isPair = isObject)
    (parses : ∀ item ∈ rest, Parses spacing item.text item.shape) :
    ∃ (ts : List Token) (cells : List Cell), rest = cells.map Cell.item ∧
      Lexes file pos (x ++ rowText cells) ts ∧
      Derives ts (.items isObject ((cells.map Cell.tree).reverse ++ latest :: earlier)) ∧
      ParsedRow spacing (pos.offset + x.length) cells := by
  induction rest generalizing x before latest earlier with
  | nil =>
    refine ⟨before, [], rfl, ?_, derives, by simp [placed], by simp [placed]⟩
    rwa [rowText, List.flatMap_nil, List.append_nil]
  | cons item rest ih =>
    rw [List.forall_mem_cons] at gaps areItems parses
    obtain ⟨comma, pos', ts, tree, isComma, offset, lexed, parsed⟩ :=
      parses.1.after_gap (show Lexer.punctuation? ',' = some .comma from rfl) gaps.1 file
        (pos.advance x)
    -- A comma ends any token, so the item is read as if it stood alone.
    have both := lexes.append lexed fun rest _ => by
      rw [List.append_assoc]
      exact gaps.1.closed (.inl rfl) _
    have more := Derives.more derives isComma (areItems.1 ▸ parsed.derives)
    obtain ⟨ts', cells, rfl, lexes', derives', row⟩ := ih both more gaps.2 areItems.2 parses.2
    rw [Lexer.Cursor.offset_advance] at offset
    refine ⟨ts', ⟨item.gap, item.text, tree⟩ :: cells, ?_, ?_, ?_, parsed.cons offset.symm ?_⟩
    · rw [List.map_cons, Cell.item, parsed.shows]
    · simpa [rowText] using lexes'
    · simpa using derives'
    · have there : pos'.offset + item.text.length = pos.offset + (x ++ (item.gap ++ item.text)).length := by
        simp only [offset, List.length_append]
        omega
      rwa [there]

/-- What has the shape of an object or an array is an instance of a rule. -/
theorem ParseTree.Regular.eq_rule (regular : tree.Regular)
    (isContainer : tree.shape.isContainer = true) :
    (∃ r children span, tree = .rule r children span) ∧ tree.isPair = false := by
  cases regular with
  | token t =>
    rw [ParseTree.shape_token] at isContainer
    cases isContainer
  | object span _ => exact ⟨⟨_, _, _, rfl⟩, rfl⟩
  | array span _ => exact ⟨⟨_, _, _, rfl⟩, rfl⟩
  | @pair key value span _ =>
    cases value with
    | token t =>
      rw [ParseTree.shape_pair_token] at isContainer
      cases isContainer
    | rule r children inner =>
      rw [ParseTree.shape_pair_rule] at isContainer
      cases isContainer

/-- An instance of a rule that is no pair has the shape of an object or an array. -/
theorem ParseTree.Regular.isContainer_shape {r : Rule} {children : List ParseTree} {span : Location}
    (regular : (ParseTree.rule r children span).Regular)
    (notPair : (ParseTree.rule r children span).isPair = false) :
    (ParseTree.rule r children span).shape.isContainer = true := by
  cases regular with
  | object _ _ => rw [show Rule.object = ruleOf true from rfl, shape_container]; rfl
  | array _ _ => rw [show Rule.array = ruleOf false from rfl, shape_container]; rfl
  | pair _ _ _ => cases notPair

theorem Derives.value_of_item (derives : Derives ts (.item isObject tree))
    (isValue : isObject = false) : Derives ts (.value tree) := by
  subst isValue
  cases derives with
  | element value => exact value

/-- A lexeme that is a value is parsed as its token. -/
theorem parsed_scalar {kind : TokenKind} (lexeme : Lexeme kind text) (isScalar : kind.isScalar = true)
    (file : Json) (pos : Cursor) :
    Parsed spacing file pos text (.node (.scalar, Dict.ofList [(valueName, String.ofList text)]) [])
      [Lexer.tokenAt file kind text pos (pos.advance text)]
      (.token (Lexer.tokenAt file kind text pos (pos.advance text))) where
  lexes := .lexeme lexeme
  derives := .element (.scalar isScalar)
  shows := ParseTree.shape_token _
  laid := .token lexeme isScalar rfl rfl (by simp [Lexer.tokenAt, Lexer.Cursor.offset_advance])
  evenly := fun _ _ _ => .token _

theorem punctuation?_openMark (isObject : Bool) :
    Lexer.punctuation? (openMark isObject) = some (openerOf isObject) := by
  cases isObject <;> rfl

theorem punctuation?_closeMark (isObject : Bool) :
    Lexer.punctuation? (closeMark isObject) = some (closerOf isObject) := by
  cases isObject <;> rfl

/-- Neither an object nor an array is a pair. -/
theorem Shape.isPair_container (isObject : Bool) (fields : Dict String) (below : List Shape) :
    Shape.isPair (.node (kindOf isObject, fields) below) = false := by
  cases isObject <;> rfl

theorem parses_empty (isObject : Bool) (blanks : Blanks text) :
    Parses spacing (openMark isObject :: (text ++ [closeMark isObject]))
      (.node (kindOf isObject, .empty) []) := by
  intro file pos
  let first := Lexer.tokenAt file (openerOf isObject) [openMark isObject] pos
    (pos.advance [openMark isObject])
  let inner := (pos.advance [openMark isObject]).advance text
  let last := Lexer.tokenAt file (closerOf isObject) [closeMark isObject] inner
    (inner.advance [closeMark isObject])
  -- Both brackets count.
  have stop : last.span.stop = (pos.offset + (text.length + 2) : Nat) := by
    simp only [last, inner, Lexer.tokenAt, Lexer.Cursor.offset_advance, List.length_singleton]
    omega
  refine ⟨[first, last], .rule (ruleOf isObject) [] (first.span.spanTo last.span), ?_, ?_, ?_, ?_, ?_⟩
  · exact .after_mark (punctuation?_openMark isObject)
      (.after_blanks blanks (.after_mark (punctuation?_closeMark isObject) .nil))
  · rw [Shape.isPair_container]
    exact .element (.container rfl rfl (.none isObject))
  · exact ParseTree.shape_container isObject [] _
  · refine .empty blanks rfl ?_
    rw [Location.spanTo, stop, orElse_of_pos (by omega)]
  · exact fun _ source _ => .rule .nil (by simp)

theorem parses_container {opening closing : List Char} {rest : List Item} (blanks : Blanks opening)
    (gaps : ∀ item ∈ rest, Gap ',' item.gap) (blanks' : Blanks closing)
    (spaced : spacing (rest.map Item.gap))
    (areItems : ∀ item ∈ (⟨openMark isObject :: opening, text, shape⟩ : Item) :: rest,
      item.shape.isPair = isObject)
    (parses : ∀ item ∈ (⟨openMark isObject :: opening, text, shape⟩ : Item) :: rest,
      Parses spacing item.text item.shape) :
    Parses spacing (itemsText (⟨openMark isObject :: opening, text, shape⟩ :: rest) ++
      (closing ++ [closeMark isObject]))
      (.node (kindOf isObject, .empty) (shape :: rest.map Item.shape)) := by
  intro file pos
  rw [List.forall_mem_cons] at areItems parses
  -- The first item is read behind the opening bracket, and the others behind the first one.
  obtain ⟨ts₁, tree, parsed⟩ := parses.1 file ((pos.advance [openMark isObject]).advance opening)
  obtain ⟨ts, cells, rfl, lexes, derives, later⟩ :=
    exists_row (parsed.lexes.after_blanks blanks)
      (.first (areItems.1 ▸ parsed.derives)) gaps areItems.2 parses.2
  obtain rfl := parsed.shows
  let cell : Cell := ⟨openMark isObject :: opening, text, tree⟩
  have row : ParsedRow spacing pos.offset (cell :: cells) := by
    refine parsed.cons ?_ ?_
    · simp only [Lexer.Cursor.offset_advance, List.length_cons, List.length_nil]
      omega
    · simpa [Lexer.Cursor.offset_advance, Nat.add_assoc] using later
  have areTrees := row.isPair (List.forall_mem_cons.2 areItems)
  rw [List.forall_mem_cons] at areTrees
  rw [List.forall_mem_map] at gaps
  let inside := opening ++ text ++ rowText cells
  let inner := ((pos.advance [openMark isObject]).advance inside).advance closing
  let first := Lexer.tokenAt file (openerOf isObject) [openMark isObject] pos
    (pos.advance [openMark isObject])
  let last := Lexer.tokenAt file (closerOf isObject) [closeMark isObject] inner
    (inner.advance [closeMark isObject])
  have whole : rowText (cell :: cells) ++ (closing ++ [closeMark isObject]) =
      openMark isObject :: (inside ++ (closing ++ [closeMark isObject])) := by
    simp [rowText, inside, cell]
  have start : (first.span.spanTo last.span).start = pos.offset := rfl
  have stop : (first.span.spanTo last.span).stop = (pos.offset + (rowText (cell :: cells)).length +
      (closing.length + 1) : Nat) := by
    have ends : last.span.stop = (pos.offset + (rowText (cell :: cells)).length +
        (closing.length + 1) : Nat) := by
      simp only [last, inner, inside, cell, rowText, List.flatMap_cons, Lexer.tokenAt,
        Lexer.Cursor.offset_advance, List.length_append, List.length_cons, List.length_nil]
      omega
    rw [Location.spanTo, ends, orElse_of_pos (by omega)]
  have trees : ((cells.map Cell.tree).reverse ++ [tree]).reverse = tree :: cells.map Cell.tree := by
    simp
  have said : itemsText (⟨openMark isObject :: opening, text, tree.shape⟩ :: cells.map Cell.item) =
      rowText (cell :: cells) := itemsText_item (cell :: cells)
  rw [said]
  refine ⟨first :: (ts ++ [last]), .rule (ruleOf isObject) (tree :: cells.map Cell.tree)
    (first.span.spanTo last.span), ?_, ?_, ?_, ?_, ?_⟩
  · rw [whole]
    refine .after_mark (punctuation?_openMark isObject) (lexes.append
      (.after_blanks blanks' (.after_mark (punctuation?_closeMark isObject) .nil)) ?_)
    intro rest _
    rw [List.append_assoc]
    refine .of_blanks blanks' (Lexer.closed_mark ?_)
    cases isObject
    · exact .inr (.inr (.inl rfl))
    · exact .inr (.inr (.inr rfl))
  · rw [Shape.isPair_container, ← trees]
    exact .element (.container rfl rfl derives)
  · rw [ParseTree.shape_container, List.map_cons, List.map_map, List.map_map]
    rfl
  · exact .container blanks gaps blanks' areTrees.1 areTrees.2 start stop row.laid
  · intro even source occurs
    obtain ⟨_, _, _, between⟩ := ofContainer_cons occurs start stop row.laid
    refine .rule ?_ fun child member => ?_
    · rw [between]
      refine even _ ?_
      rwa [List.map_map] at spaced
    · obtain ⟨other, there, rfl⟩ := List.mem_map.1
        (show child ∈ (cell :: cells).map Cell.tree from member)
      obtain ⟨place, there⟩ := exists_placed there pos.offset
      exact row.evenly even _ there source (occurs_of_placed occurs.left _ there)

/-- A key, a colon and a value are a pair, which has the shape that its parts ask for. -/
theorem parses_pair {key gap : List Char} {pair : Shape} (lexeme : Lexeme .string key)
    (isGap : Gap ':' gap) (parses : Parses spacing text shape) (isValue : shape.isPair = false)
    (isPair : pair.isPair = true)
    (shows : ∀ {k : Token} {tree : ParseTree} {span : Location}, k.lexeme = String.ofList key →
      tree.Regular → tree.shape = shape →
        (ParseTree.rule .pair [.token k, tree] span).shape = pair) :
    Parses spacing (key ++ (gap ++ text)) pair := by
  intro file pos
  have keyed : Parsed spacing file pos key _ _ _ := parsed_scalar lexeme rfl file pos
  obtain ⟨colon, pos', ts, tree, isColon, offset, lexed, parsed⟩ :=
    parses.after_gap (show Lexer.punctuation? ':' = some .colon from rfl) isGap file
      (pos.advance key)
  let first := Lexer.tokenAt file .string key pos (pos.advance key)
  have here : pos'.offset = pos.offset + key.length + gap.length := by
    rw [offset, Lexer.Cursor.offset_advance]
  -- The pair ends where its value does.
  have stop : (first.span.spanTo tree.span).stop =
      (pos.offset + key.length + gap.length + text.length : Nat) := by
    have ends := parsed.laid.span.2
    have some_ := List.length_pos_iff.2 parsed.laid.text_ne_nil
    rw [Location.spanTo, ends, here, orElse_of_pos (by omega)]
  refine ⟨first :: colon :: ts, .rule .pair [.token first, tree] (first.span.spanTo tree.span),
    ?_, ?_, shows rfl parsed.laid.regular parsed.shows, ?_, ?_⟩
  · refine keyed.lexes.append lexed fun rest _ => ?_
    rw [List.append_assoc]
    exact isGap.closed (.inr (.inl rfl)) _
  · rw [isPair]
    exact .member rfl isColon (parsed.derives.value_of_item isValue)
  · refine .pair keyed.laid rfl isGap ?_ (here ▸ parsed.laid) rfl stop
    rw [← parsed.laid.regular.isPair_shape, parsed.shows, isValue]
  · intro even source occurs
    refine .rule (List.pairwise_singleton _ _) fun child member => ?_
    rcases List.mem_cons.1 member with same | later
    · exact same ▸ .token first
    · obtain rfl := List.mem_singleton.1 later
      exact parsed.evenly even source (here ▸ occurs.right.right)

/-- A text that says something is parsed, wherever it stands. -/
theorem Reads.parses (reads : Reads spacing text shape) : Parses spacing text shape := by
  induction reads with
  | scalar lexeme isScalar => exact fun file pos => ⟨_, _, parsed_scalar lexeme isScalar file pos⟩
  | empty isObject blanks => exact parses_empty isObject blanks
  | container blanks gaps blanks' spaced areItems _ ih =>
    exact parses_container blanks gaps blanks' spaced areItems ih
  | @field key gap value kind lexeme isGap isValue isScalar =>
    refine parses_pair lexeme isGap (fun file pos => ⟨_, _, parsed_scalar isValue isScalar file pos⟩)
      rfl rfl fun {k tree span} named regular same => ?_
    -- What has the shape of a scalar is a token with its value.
    cases regular with
    | token t =>
      rw [ParseTree.shape_token] at same
      have fields := congrArg Prod.snd (Tree.node.inj same).1
      have value := congrArg (Dict.get? · valueName) fields
      simp only [Dict.get?_ofList_singleton, Option.some.injEq] at value
      rw [ParseTree.shape_pair_token, named, value]
    | @object children inner _ =>
      rw [show Rule.object = ruleOf true from rfl, ParseTree.shape_container] at same
      cases (Tree.node.inj same).1
    | @array children inner _ =>
      rw [show Rule.array = ruleOf false from rfl, ParseTree.shape_container] at same
      cases (Tree.node.inj same).1
    | @pair key value inner _ =>
      have pair := congrArg Shape.isPair same
      rw [(ParseTree.Regular.pair key inner ‹_›).isPair_shape] at pair
      cases pair
  | @slot key gap text shape lexeme isGap _ isContainer ih =>
    have isValue : shape.isPair = false := by
      simp only [Shape.isContainer, Bool.or_eq_true, beq_iff_eq] at isContainer
      rw [Shape.isPair]
      rcases isContainer with kind | kind <;> rw [kind] <;> rfl
    refine parses_pair lexeme isGap ih isValue rfl fun {k tree span} named regular same => ?_
    subst same
    obtain ⟨⟨r, children, inner, rfl⟩, _⟩ := regular.eq_rule isContainer
    rw [ParseTree.shape_pair_rule, named]

/-! ### Documents -/

/-- A text says a shape with nothing but blanks on either side. -/
def ReadsWithin (spacing : List (List Char) → Prop) (text : List Char) (shape : Shape) : Prop :=
  ∃ leading body trailing, text = leading ++ (body ++ trailing) ∧ Blanks leading ∧ Blanks trailing ∧
    Reads spacing body shape

/-- A whole text says a shape, which is not that of a pair. -/
def ReadAs (spacing : List (List Char) → Prop) (source : String) (shape : Shape) : Prop :=
  ReadsWithin spacing source.toList shape ∧ shape.isPair = false

variable {source : String} {m : Model} {root : Key}

/-- A text that says something is parsed as just that. -/
theorem ReadAs.parse (readAs : ReadAs spacing source shape) (file : Json) :
    ∃ tree, Parser.parse source file = .ok tree ∧ tree.Regular ∧ tree.shape = shape ∧
      ((∀ gaps, spacing gaps → gaps.Pairwise (· = ·)) → tree.Evenly source.toList) := by
  obtain ⟨⟨leading, body, trailing, split, blanks, blanks', reads⟩, notPair⟩ := readAs
  obtain ⟨ts, tree, parsed⟩ := reads.parses file (Cursor.advance {} leading)
  let behind := (Cursor.advance {} leading).advance body
  let last := Lexer.tokenAt file .eof [] (behind.advance trailing) (behind.advance trailing)
  have closed : Closed trailing := by
    rw [← List.append_nil trailing]
    exact .of_blanks blanks' Lexer.closed_nil
  have tail : Lexer.lex file trailing behind = ⟨[last], none⟩ := by
    have passed : Lexer.lex file (trailing ++ []) behind = _ := Lexer.lex_blanks blanks'
    rwa [List.append_nil, Lexer.lex_nil] at passed
  -- Between the blanks on either side lie the tokens of the document, and at the end comes one of its own.
  have tokens : Lexer.tokenize source file = ⟨ts ++ [last], none⟩ := by
    change Lexer.lex file source.toList {} = _
    rw [split, Lexer.lex_blanks blanks, parsed.lexes _ closed, tail]
    rfl
  refine ⟨tree, ?_, parsed.laid.regular, parsed.shows, fun even => ?_⟩
  · rw [Parser.parse, tokens]
    exact Parser.treeOf_of_derives (parsed.derives.value_of_item notPair) rfl
  · exact parsed.evenly even _ ⟨leading, trailing, split, by simp [Lexer.Cursor.offset_advance]⟩

/-- A model that is a parse has the shape of its tree. -/
theorem Build.Spelled.shapesAt (spelled : Build.Spelled m source tree) (regular : tree.Regular)
    (single : m.roots = [root]) : m.shapesAt (some root) = [tree.shape] := by
  obtain ⟨root', roots, _, made⟩ := spelled.single
  obtain rfl : root = root' := by simpa [single] using roots
  have forms := congrArg (Tree.mapAll formOf) made
  rw [Tree.mapAll_mapAll, Tree.mapAll, Tree.mapAll, regular.map_blueprint] at forms
  exact forms

/-- A text that says a shape is read as a model of this shape. -/
theorem ReadAs.exists_built (readAs : ReadAs spacing source shape) (file : Json) (supply : Nat) :
    ∃ m' count r, Model.build source file supply = .ok (m', count) ∧ m'.roots = [r] ∧
      m'.shapesAt (some r) = [shape] := by
  obtain ⟨tree, parsed, regular, same, _⟩ := readAs.parse file
  obtain ⟨m', count, built, spelled⟩ := Build.build_eq parsed supply
  obtain ⟨r, roots, _, _⟩ := spelled.single
  exact ⟨m', count, r, built, roots, by rw [spelled.shapesAt regular roots, same]⟩

/-- A text that says the shape of a model is read as a model with the same snapshot. -/
theorem ReadAs.build (readAs : ReadAs spacing source shape) (sound : m.Sound) (single : m.roots = [root])
    (shows : m.shapesAt (some root) = [shape]) (file : Json) (supply : Nat) :
    ∃ m' count, Model.build source file supply = .ok (m', count) ∧
      ∀ indent, m'.snapshot.text indent = m.snapshot.text indent := by
  obtain ⟨m', count, root', built, roots, same⟩ := readAs.exists_built file supply
  exact ⟨m', count, built, text_snapshot_congr (Model.sound_of_build built) sound roots single
    (same.trans shows.symm)⟩

end DocSync
