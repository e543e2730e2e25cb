import DocSync.Proofs.Render.Reads

/-!
What a text becomes by being read and shown again, character by character: of the texts between the
children of a tree only the first is used, and everything else stays. The result says what the text
said, and comes back as it is from then on.
-/

namespace DocSync

open Lexer (Blanks Lexeme)

/-! ### Texts with other gaps -/

/-- A row of texts with gaps between them. -/
def interlaced : List (List Char) → List (List Char) → List Char
  | [], _ => []
  | first :: rest, gaps => first ++ (List.zipWith (· ++ ·) gaps rest).flatten

/-- The text of a span around the texts of its parts, with gaps that are made of those in the
source. -/
def regapped (regap : List (List Char) → List (List Char)) (source : List Char) (span : Location)
    (texts : List (List Char)) : List Location → List Char
  | [] => span.slice source
  | first :: rest =>
    Text.slice source span.start first.start ++
      (interlaced texts (regap (gapsBetween source (first :: rest))) ++
        Text.slice source ((rest.getLast?).getD first).stop span.stop)

mutual
/-- The text of a tree with other gaps between the children of each tree in it. -/
def ParseTree.respelled (regap : List (List Char) → List (List Char)) (source : List Char) :
    ParseTree → List Char
  | .token t => t.span.slice source
  | .rule _ children span =>
    regapped regap source span (respelledAll regap source children) (children.map ParseTree.span)

/-- The texts of several trees with other gaps in them. -/
def ParseTree.respelledAll (regap : List (List Char) → List (List Char)) (source : List Char) :
    List ParseTree → List (List Char)
  | [] => []
  | tree :: rest => tree.respelled regap source :: respelledAll regap source rest
end

/-- The source of a tree with other gaps, and with the text on either side of the tree. -/
def ParseTree.rewritten (tree : ParseTree) (regap : List (List Char) → List (List Char))
    (source : String) : String :=
  let text := source.toList
  String.ofList (Text.sliceTo text tree.span.start ++
    (tree.respelled regap text ++ Text.sliceFrom text tree.span.stop))

/-- The first gap in the place of each gap. -/
def likeFirst (gaps : List (List Char)) : List (List Char) := gaps.map fun _ => gaps.headD []

theorem pairwise_likeFirst (gaps : List (List Char)) : (likeFirst gaps).Pairwise (· = ·) :=
  List.pairwise_map.2 (List.pairwise_of_forall fun _ _ => rfl)

variable {regap : List (List Char) → List (List Char)} {source text x gap separator : List Char}
  {at_ : Nat} {tree : ParseTree} {span : Location} {isObject : Bool} {rest : List Cell}

theorem ParseTree.respelledAll_eq_map (trees : List ParseTree) :
    respelledAll regap source trees = trees.map (respelled regap source) := by
  induction trees with
  | nil => rw [respelledAll, List.map_nil]
  | cons tree rest ih => rw [respelledAll, ih, List.map_cons]

/-- With one gap throughout, each text but the first has that gap before it. -/
theorem interlaced_likeFirst (texts : List (List Char))
    (separates : ∀ cell ∈ rest.head?, separator = cell.gap) (same : texts.length = rest.length) :
    interlaced (x :: texts) (likeFirst (rest.map Cell.gap)) =
      x ++ texts.flatMap (separator ++ ·) := by
  rw [interlaced]
  refine congrArg (x ++ ·) ?_
  -- All gaps are like the first, which is the separator.
  have gaps : likeFirst (rest.map Cell.gap) = List.replicate texts.length separator := by
    cases rest with
    | nil => rw [same]; rfl
    | cons cell rest =>
      rw [separates cell rfl, same, likeFirst, List.map_const', List.length_map]
      rfl
  rw [gaps]
  clear gaps same
  induction texts with
  | nil => rfl
  | cons text texts ih =>
    rw [List.length_cons, List.replicate_succ, List.zipWith_cons_cons, List.flatten_cons, ih,
      List.flatMap_cons]

/-- With the gaps of a row between its texts, the texts are the row. -/
theorem interlaced_row : interlaced (x :: rest.map Cell.text) (rest.map Cell.gap) =
    x ++ rowText rest := by
  rw [interlaced, rowText]
  refine congrArg (x ++ ·) ?_
  induction rest with
  | nil => rfl
  | cons cell rest ih =>
    rw [List.map_cons, List.map_cons, List.zipWith_cons_cons, List.flatten_cons, ih,
      List.flatMap_cons]

/-! ### The parts of a tree's text -/

theorem respelled_token {t : Token} (laid : Laid at_ text (.token t))
    (occurs : Occurs source at_ text) : (ParseTree.token t).respelled regap source = text := by
  obtain ⟨start, stop⟩ := laid.span
  rw [ParseTree.respelled, Location.slice]
  rw [ParseTree.span] at start stop
  rw [start, stop, occurs.slice]

theorem respelled_empty {r : Rule} (occurs : Occurs source at_ text) (start : span.start = at_)
    (stop : span.stop = (at_ + text.length : Nat)) :
    (ParseTree.rule r [] span).respelled regap source = text := by
  rw [ParseTree.respelled, List.map_nil, regapped, Location.slice, start, stop, occurs.slice]

theorem respelled_container {blank closing : List Char}
    (occurs : Occurs source at_ (rowText (⟨openMark isObject :: blank, text, tree⟩ :: rest) ++
      (closing ++ [closeMark isObject])))
    (start : span.start = at_)
    (stop : span.stop = (at_ + (rowText (⟨openMark isObject :: blank, text, tree⟩ :: rest)).length +
        (closing.length + 1) : Nat))
    (laid : ∀ p ∈ placed at_ (⟨openMark isObject :: blank, text, tree⟩ :: rest),
      Laid p.1 p.2.text p.2.tree) :
    (ParseTree.rule (ruleOf isObject) (tree :: rest.map Cell.tree) span).respelled regap source =
      (openMark isObject :: blank) ++ (interlaced (tree.respelled regap source ::
        rest.map fun cell => cell.tree.respelled regap source) (regap (rest.map Cell.gap)) ++
          (closing ++ [closeMark isObject])) := by
  obtain ⟨opening, ending, _, between⟩ := ofContainer_cons occurs start stop laid
  simp only [List.map_cons, Frame.ofContainer, String.toList_ofList] at opening ending between
  rw [ParseTree.respelled, ParseTree.respelledAll_eq_map, List.map_cons, List.map_cons, List.map_map,
    regapped, between, opening, ending]
  rfl

theorem respelled_pair {keyText : List Char} {key : Token} (single : ∀ gap, regap [gap] = [gap])
    (laidKey : Laid at_ keyText (.token key))
    (laid : Laid (at_ + keyText.length + gap.length) text tree) (start : span.start = at_)
    (stop : span.stop = (at_ + keyText.length + gap.length + text.length : Nat))
    (occurs : Occurs source at_ (keyText ++ (gap ++ text))) :
    (ParseTree.rule .pair [.token key, tree] span).respelled regap source =
      keyText ++ (gap ++ tree.respelled regap source) := by
  obtain ⟨keyStart, keyStop⟩ := laidKey.span
  obtain ⟨between, ending⟩ := ofPair_eq occurs keyStop laid.span.1 laid.span.2 stop
  simp only [Frame.ofPair, String.toList_ofList] at between ending
  -- Nothing stands before the key, and the only gap is left as it is.
  have opening : Text.slice source span.start key.span.start = [] := by
    rw [show key.span.start = span.start from keyStart.trans start.symm, Text.slice, Nat.sub_self]
    exact List.take_zero
  rw [ParseTree.respelled, ParseTree.respelledAll_eq_map]
  simp only [List.map_cons, List.map_nil, regapped, gapsBetween, between, single,
    List.getLast?_singleton, Option.getD_some, ending, List.append_nil, interlaced,
    List.zipWith_cons_cons, List.zipWith_nil_right, List.flatten_cons, List.flatten_nil,
    respelled_token laidKey occurs.left]
  rw [ParseTree.span, opening, List.nil_append]

/-! ### With the gaps that are there -/

/-- With the gaps that it has, a tree's text is that of the source. -/
theorem Laid.respelled_id (laid : Laid at_ text tree) (occurs : Occurs source at_ text) :
    tree.respelled id source = text := by
  -- Gaps that are left alone give back each stretch.
  induction laid with
  | token lexeme isScalar shows start stop =>
    exact respelled_token (.token lexeme isScalar shows start stop) occurs
  | empty blanks start stop =>
    exact respelled_empty occurs start (by rw [stop]; simp; omega)
  | @container at_ isObject blank text closing tree rest span blanks gaps blanks' isItem areItems
      start stop laid ih =>
    have each : ∀ cell ∈ (⟨openMark isObject :: blank, text, tree⟩ : Cell) :: rest,
        cell.tree.respelled id source = cell.text := by
      intro cell member
      obtain ⟨position, there⟩ := exists_placed member at_
      exact ih _ there (occurs_of_placed occurs.left _ there)
    rw [List.forall_mem_cons] at each
    rw [respelled_container occurs start stop laid, each.1, List.map_congr_left each.2, id,
      interlaced_row]
    simp [rowText]
  | @pair at_ keyText gap text key tree span laidKey isString isGap notPair laid start stop _ ih =>
    rw [respelled_pair (fun _ => rfl) laidKey laid start stop occurs, ih occurs.right.right]

/-! ### With the first gap for all gaps -/

/-- A row with the first gap for all gaps says what its trees are. -/
theorem reads_row (text : List Char) {blank closing : List Char} (blanks : Blanks blank)
    (gaps : ∀ cell ∈ rest, Gap ',' cell.gap) (blanks' : Blanks closing)
    (areItems : ∀ cell ∈ (⟨openMark isObject :: blank, text, tree⟩ : Cell) :: rest,
      cell.tree.Regular ∧ cell.tree.isPair = isObject)
    (each : ∀ cell ∈ (⟨openMark isObject :: blank, text, tree⟩ : Cell) :: rest,
      Reads (List.Pairwise (· = ·)) (cell.tree.respelled likeFirst source) cell.tree.shape) :
    Reads (List.Pairwise (· = ·))
      ((openMark isObject :: blank) ++ (interlaced (tree.respelled likeFirst source ::
        rest.map fun cell => cell.tree.respelled likeFirst source) (likeFirst (rest.map Cell.gap)) ++
          (closing ++ [closeMark isObject])))
      (.node (kindOf isObject, .empty) (tree.shape :: (rest.map Cell.tree).map ParseTree.shape)) := by
  let item (gap : List Char) (cell : Cell) : Item :=
    ⟨gap, cell.tree.respelled likeFirst source, cell.tree.shape⟩
  let items := rest.map (item ((rest.map Cell.gap).headD []))
  have row : interlaced (tree.respelled likeFirst source ::
      rest.map fun cell => cell.tree.respelled likeFirst source) (likeFirst (rest.map Cell.gap)) =
        tree.respelled likeFirst source ++ itemsText items := by
    have first : ∀ cell ∈ rest.head?, (rest.map Cell.gap).headD [] = cell.gap := by
      intro cell isFirst
      cases rest with
      | nil => cases isFirst
      | cons head rest => cases isFirst; rfl
    rw [interlaced_likeFirst _ first (List.length_map _), itemsText, List.flatMap_map,
      List.flatMap_map]
  have shapes : items.map Item.shape = (rest.map Cell.tree).map ParseTree.shape := by
    rw [List.map_map, List.map_map]
    rfl
  have whole : (openMark isObject :: blank) ++ ((tree.respelled likeFirst source ++ itemsText items) ++
      (closing ++ [closeMark isObject])) = itemsText (⟨openMark isObject :: blank,
        tree.respelled likeFirst source, tree.shape⟩ :: items) ++
          (closing ++ [closeMark isObject]) := by
    simp [itemsText]
  -- The items are those of the cells, whatever gap they are given.
  have transfer : ∀ {P : Item → Prop}, (∀ gap, ∀ cell ∈ (⟨openMark isObject :: blank, text, tree⟩ :
      Cell) :: rest, P (item gap cell)) → ∀ entry ∈ (⟨openMark isObject :: blank,
        tree.respelled likeFirst source, tree.shape⟩ : Item) :: items, P entry := by
    intro P all
    rw [List.forall_mem_cons]
    refine ⟨all _ _ List.mem_cons_self, ?_⟩
    rw [List.forall_mem_map]
    exact fun cell member => all _ cell (List.mem_cons_of_mem _ member)
  rw [row, whole, ← shapes]
  refine .container blanks ?_ blanks' ?_ (transfer fun gap cell member => ?_)
    (transfer fun gap => each)
  · rw [List.forall_mem_map]
    intro cell member
    cases rest with
    | nil => cases member
    | cons first rest => exact gaps first List.mem_cons_self
  · have even := pairwise_likeFirst (rest.map Cell.gap)
    rw [likeFirst, List.map_map] at even
    rwa [List.map_map]
  · obtain ⟨regular, isItem⟩ := areItems cell member
    exact regular.isPair_shape.trans isItem

/-- The text with the first gap for all gaps says what the tree is, and all its gaps are even. -/
theorem Laid.reads_likeFirst (laid : Laid at_ text tree) (occurs : Occurs source at_ text) :
    Reads (List.Pairwise (· = ·)) (tree.respelled likeFirst source) tree.shape := by
  -- The texts of the children say what they did, and all gaps of a container are alike now.
  induction laid with
  | @token at_ text t lexeme isScalar shows start stop =>
    rw [respelled_token (.token lexeme isScalar shows start stop) occurs, ParseTree.shape_token, shows]
    exact .scalar lexeme isScalar
  | empty blanks start stop =>
    rw [respelled_empty occurs start (by rw [stop]; simp; omega), ParseTree.shape_container]
    exact .empty _ blanks
  | @container at_ isObject blank text closing tree rest span blanks gaps blanks' isItem areItems
      start stop laid ih =>
    rw [respelled_container occurs start stop laid, ParseTree.shape_container, List.map_cons]
    refine reads_row text blanks gaps blanks' (fun cell member => ?_)
      fun cell member => ?_
    · obtain ⟨position, there⟩ := exists_placed member at_
      refine ⟨(laid _ there).regular, ?_⟩
      rcases List.mem_cons.1 member with same | later
      · exact same ▸ isItem
      · exact areItems cell later
    · obtain ⟨position, there⟩ := exists_placed member at_
      exact ih _ there (occurs_of_placed occurs.left _ there)
  | @pair at_ keyText gap text key tree span laidKey isString isGap notPair laid start stop _ ih =>
    rw [respelled_pair (fun _ => rfl) laidKey laid start stop occurs]
    have value := ih occurs.right.right
    obtain ⟨lexeme, shows⟩ : Lexeme .string keyText ∧ key.lexeme = String.ofList keyText := by
      cases laidKey with
      | token lexeme _ shows _ _ => exact ⟨isString ▸ lexeme, shows⟩
    cases tree with
    | token t =>
      cases laid with
      | token lexeme' isScalar shows' start' stop' =>
        rw [respelled_token (.token lexeme' isScalar shows' start' stop') occurs.right.right,
          ParseTree.shape_pair_token, shows, shows']
        exact .field lexeme isGap lexeme' isScalar
    | rule r children inner =>
      rw [ParseTree.shape_pair_rule, shows]
      exact .slot lexeme isGap value (laid.regular.isContainer_shape notPair)

variable {m : Model} {config : Config} {fingerprint : String} {T : Tree Key}

theorem renders_empty {blank : List Char}
    (occurs : Occurs source at_ (openMark isObject :: (blank ++ [closeMark isObject])))
    (start : span.start = at_) (stop : span.stop = (at_ + (blank.length + 2) : Nat))
    (same : T.map m.madeOf =
      (ParseTree.rule (ruleOf isObject) [] span).blueprint source fingerprint) :
    m.Renders config T (String.ofList (openMark isObject :: (blank ++ [closeMark isObject]))) := by
  obtain ⟨k, children, rfl, made, below⟩ := exists_node_of_map (regular_container (by simp)) same
  rw [nested_container] at below
  cases below
  rw [makeup_container] at made
  obtain ⟨kind, framed⟩ := frame_of_madeOf config made
  obtain ⟨opening, closing⟩ := ofContainer_nil occurs start stop
  -- The frame has kept the text between the brackets.
  have shows : String.ofList (openMark isObject :: (blank ++ [closeMark isObject])) =
      (Frame.ofContainer source span []).emptyOpening ++
        (Frame.ofContainer source span []).closing := by
    rw [← String.toList_inj, String.toList_ofList, String.toList_append, opening, closing]
    rfl
  rw [shows]
  exact Model.renders_container_nil kind framed rfl

/-- A container is shown as what its children are shown as, with the first gap between them. -/
theorem renders_row {blank closing x : List Char} {texts : List (List Char)}
    (occurs : Occurs source at_ (rowText (⟨openMark isObject :: blank, text, tree⟩ :: rest) ++
      (closing ++ [closeMark isObject])))
    (start : span.start = at_)
    (stop : span.stop = (at_ + (rowText (⟨openMark isObject :: blank, text, tree⟩ :: rest)).length +
        (closing.length + 1) : Nat))
    (laid : ∀ p ∈ placed at_ (⟨openMark isObject :: blank, text, tree⟩ :: rest),
      Laid p.1 p.2.text p.2.tree)
    (same : T.map m.madeOf = (ParseTree.rule (ruleOf isObject) (tree :: rest.map Cell.tree)
      span).blueprint source fingerprint)
    (each : ∀ {trees : List (Tree Key)},
      List.Forall₂ (fun T child => T.map m.madeOf = child.blueprint source fingerprint) trees
        (tree :: rest.map Cell.tree) →
          List.Forall₂ (m.Renders config) trees ((x :: texts).map String.ofList))
    (length : texts.length = rest.length) :
    m.Renders config T (String.ofList ((openMark isObject :: blank) ++
      (interlaced (x :: texts) (likeFirst (rest.map Cell.gap)) ++
        (closing ++ [closeMark isObject])))) := by
  have regular : ∀ child ∈ tree :: rest.map Cell.tree, child.Regular := regular_of_placed laid
  obtain ⟨k, children, rfl, made, below⟩ := exists_node_of_map (regular_container regular) same
  rw [nested_container] at below
  rw [makeup_container] at made
  obtain ⟨kind, framed⟩ := frame_of_madeOf config made
  obtain ⟨opening, ending, first, _⟩ := ofContainer_cons occurs start stop laid
  -- The frame has kept the first gap, and puts it between any two children.
  rw [interlaced_likeFirst _ first length, ← opening, ← ending]
  exact Model.renders_container_row kind framed rfl rfl (each below)

theorem renders_pair {keyText body : List Char} {key : Token}
    (laidKey : Laid at_ keyText (.token key))
    (laid : Laid (at_ + keyText.length + gap.length) text tree)
    (stop : span.stop = (at_ + keyText.length + gap.length + text.length : Nat))
    (occurs : Occurs source at_ (keyText ++ (gap ++ text)))
    (shows : ∀ t, tree = .token t → t.lexeme = String.ofList body)
    (inner : ∀ {T : Tree Key}, T.map m.madeOf = tree.blueprint source fingerprint →
      m.Renders config T (String.ofList body))
    (same : T.map m.madeOf =
      (ParseTree.rule .pair [.token key, tree] span).blueprint source fingerprint) :
    m.Renders config T (String.ofList (keyText ++ (gap ++ body))) := by
  obtain ⟨k, children, rfl, made, below⟩ := exists_node_of_map (.pair key span laid.regular) same
  have keyStop : key.span.stop = (at_ + keyText.length : Nat) := laidKey.span.2
  obtain ⟨opening, closing⟩ := ofPair_eq occurs keyStop laid.span.1 laid.span.2 stop
  have kind : (m.node k).kind = .pair := congrArg Prod.fst made
  have content := congrArg Prod.snd made
  have framed : m.frame config k valueName = .ok (Frame.ofPair source span key.span tree.span) := by
    have frames : (m.node k).frames = Dict.ofList
      [(valueName, Frame.ofPair source span key.span tree.span)] := congrArg Content.frames content
    rw [Model.frame, frames, Dict.get?_ofList_singleton]
  have fields : (m.node k).fields =
      Dict.ofList ((Build.pairFields key tree).map fun part => (part.1, part.2.lexeme)) :=
    congrArg Content.fields content
  have keyed : (m.node k).fields.get? keyField = some key.lexeme := by
    rw [fields]
    cases tree <;> simp [Build.pairFields]
  have keyShown : key.lexeme = String.ofList keyText := by
    cases laidKey with
    | token _ _ shows _ _ => exact shows
  -- The frame has kept the gap before the value.
  have whole : String.ofList (keyText ++ (gap ++ body)) =
      key.lexeme ++ (Frame.ofPair source span key.span tree.span).opening ++ String.ofList body ++
        (Frame.ofPair source span key.span tree.span).closing := by
    rw [← String.toList_inj]
    simp [keyShown, opening, closing]
  rw [whole]
  cases tree with
  | token t =>
    cases below
    rw [← shows t rfl]
    refine Model.renders_pair_field kind keyed ?_ framed rfl
    rw [fields]
    simp [Build.pairFields]
  | rule r trees inside =>
    obtain ⟨T, later, standing, none_, rfl⟩ := List.forall₂_cons_right_iff.1 below
    cases none_
    exact Model.renders_pair_slot kind keyed framed rfl (inner standing) rfl

/-- What a tree of the text becomes is shown with the first gap for all gaps. -/
theorem Laid.renders_likeFirst (laid : Laid at_ text tree) (occurs : Occurs source at_ text)
    {T : Tree Key} (same : T.map m.madeOf = tree.blueprint source fingerprint) :
    m.Renders config T (String.ofList (tree.respelled likeFirst source)) := by
  induction laid generalizing T with
  | @token at_ text t lexeme isScalar shows start stop =>
    obtain ⟨k, children, rfl, made, below⟩ := exists_node_of_map (.token t) same
    have kind : (m.node k).kind = .scalar := congrArg Prod.fst made
    have fields : (m.node k).fields = Dict.ofList [(valueName, t.lexeme)] :=
      congrArg (fun made => made.2.fields) made
    rw [respelled_token (.token lexeme isScalar shows start stop) occurs, ← shows]
    exact Model.renders_scalar kind (by rw [fields, Dict.get?_ofList_singleton])
  | empty blanks start stop =>
    rw [respelled_empty occurs start (by rw [stop]; simp; omega)]
    exact renders_empty occurs start stop same
  | @container at_ isObject blank text closing tree rest span blanks gaps blanks' isItem areItems
      start stop laid ih =>
    rw [respelled_container occurs start stop laid]
    refine renders_row occurs start stop laid same (fun {trees} below => ?_) (List.length_map _)
    -- Each child is shown by what it becomes, wherever it stands in the row.
    have each : ∀ cell ∈ (⟨openMark isObject :: blank, text, tree⟩ : Cell) :: rest,
        ∀ {T : Tree Key}, T.map m.madeOf = cell.tree.blueprint source fingerprint →
          m.Renders config T (String.ofList (cell.tree.respelled likeFirst source)) := by
      intro cell member
      obtain ⟨position, there⟩ := exists_placed member at_
      exact ih _ there (occurs_of_placed occurs.left _ there)
    rw [show tree :: rest.map Cell.tree =
      ((⟨openMark isObject :: blank, text, tree⟩ : Cell) :: rest).map Cell.tree from rfl,
      List.forall₂_map_right_iff] at below
    rw [show tree.respelled likeFirst source ::
      rest.map (fun cell => cell.tree.respelled likeFirst source) =
        ((⟨openMark isObject :: blank, text, tree⟩ : Cell) :: rest).map
          fun cell => cell.tree.respelled likeFirst source from rfl, List.map_map,
      List.forall₂_map_right_iff]
    refine List.Forall₂.flip (((List.forall₂_and_left _ _).2 ⟨each, below.flip⟩).imp ?_)
    exact fun cell T both => both.1 both.2
  | @pair at_ keyText gap text key tree span laidKey isString isGap notPair laid start stop _ ih =>
    rw [respelled_pair (fun _ => rfl) laidKey laid start stop occurs]
    refine renders_pair laidKey laid stop occurs (fun t isToken => ?_) (ih occurs.right.right) same
    subst isToken
    rw [respelled_token laid occurs.right.right]
    cases laid with
    | token _ _ shows _ _ => exact shows

/-! ### The document -/

variable {document : String} {file : Json}

/-- Around the tree of a document its text stays as it is, and so it does in the tree with the gaps
that are there. -/
theorem rewritten_of_parse (parsed : Parser.parse document file = .ok tree) :
    ∃ leading body trailing, Blanks leading ∧ Blanks trailing ∧ Laid leading.length body tree ∧
      tree.isPair = false ∧ Occurs document.toList leading.length body ∧
      Text.sliceTo document.toList tree.span.start = leading ∧
      Text.sliceFrom document.toList tree.span.stop = trailing ∧
      document.toList = leading ++ (body ++ trailing) ∧
      ∀ regap, (tree.rewritten regap document).toList =
        leading ++ (tree.respelled regap document.toList ++ trailing) := by
  obtain ⟨leading, body, trailing, split, blanks, blanks', laid, notPair⟩ :=
    Parser.laid_of_parse parsed
  obtain ⟨start, stop⟩ := laid.span
  obtain ⟨before, after⟩ := outside_eq split start stop
  refine ⟨leading, body, trailing, blanks, blanks', laid, notPair, ⟨leading, trailing, split, rfl⟩,
    before, after, split, fun regap => ?_⟩
  rw [ParseTree.rewritten, before, after, String.toList_ofList]

/-- A text that is parsed is its own tree with the gaps that are there. -/
theorem rewritten_id (parsed : Parser.parse document file = .ok tree) :
    tree.rewritten id document = document := by
  obtain ⟨leading, body, trailing, _, _, laid, _, occurs, _, _, split, rewritten⟩ :=
    rewritten_of_parse parsed
  rw [← String.toList_inj, rewritten, laid.respelled_id occurs, ← split]

/-- With the first gap for all gaps the text says what its tree is. -/
theorem readAs_rewritten (parsed : Parser.parse document file = .ok tree) :
    ReadAs (List.Pairwise (· = ·)) (tree.rewritten likeFirst document) tree.shape := by
  obtain ⟨leading, body, trailing, blanks, blanks', laid, notPair, occurs, _, _, _, rewritten⟩ :=
    rewritten_of_parse parsed
  exact ⟨⟨leading, _, trailing, rewritten likeFirst, blanks, blanks', laid.reads_likeFirst occurs⟩,
    laid.regular.isPair_shape.trans notPair⟩

/-- The model of a text is shown as the text with the first gap for all gaps, which is the text
itself just if the gaps are even. -/
theorem render_of_spelled (parsed : Parser.parse document file = .ok tree)
    (spelled : Build.Spelled m document tree) (config : Config) :
    m.render config = .ok (tree.rewritten likeFirst document) ∧
      (tree.rewritten likeFirst document = document ↔ tree.Evenly document.toList) := by
  obtain ⟨leading, body, trailing, _, _, laid, _, occurs, before, after, split, rewritten⟩ :=
    rewritten_of_parse parsed
  obtain ⟨root, roots, alone, below⟩ := spelled.single
  have held : m.Holds root := spelled.sound.holds_root (by simp [roots])
  rw [spelled.sound.treesAt_some held, alone, Model.treesAt_none, Tree.mapAll, Tree.mapAll] at below
  have same : (m.tree root).map m.madeOf =
    tree.blueprint document.toList (Digest.fingerprint document) := (List.cons.inj below).1
  have around : ∀ {shown : String}, m.Renders config (m.tree root) shown → ∃ out,
      m.render config = .ok out ∧ out.toList = leading ++ (shown.toList ++ trailing) := by
    intro shown renders
    refine ⟨_, Model.render_eq spelled.sound roots alone spelled.plain renders, ?_⟩
    simp [spelled.leading, spelled.trailing, before, after]
  obtain ⟨out, rendered, text⟩ := around (laid.renders_likeFirst occurs same)
  rw [String.toList_ofList, ← rewritten, String.toList_inj] at text
  subst text
  refine ⟨rendered, ?_⟩
  -- What is shown is one text, so what is known of any showing holds of this one.
  have whole : tree.Shown m config document.toList (Digest.fingerprint document) body :=
    laid.shown occurs
  obtain ⟨shown, renders, _, even⟩ := whole same
  obtain ⟨out, rendered', text⟩ := around renders
  rw [rendered] at rendered'
  cases rendered'
  rw [← String.toList_inj, text, ← even]
  conv => enter [1, 2]; rw [split]
  rw [List.append_cancel_left_eq, List.append_cancel_right_eq]

/-- Every text that is parsed becomes a model that is shown as the text with the first gap for all
gaps of a chain. That text is parsed again, says the same, and is shown as it is. -/
theorem render_build_rewritten (parsed : Parser.parse document file = .ok tree) (supply : Nat) :
    ∃ m count, Model.build document file supply = .ok (m, count) ∧
      tree.rewritten id document = document ∧
      (∀ config, m.render config = .ok (tree.rewritten likeFirst document)) ∧
      (tree.rewritten likeFirst document = document ↔ tree.Evenly document.toList) ∧
      ∀ file' supply', ∃ tree' m' count',
        Parser.parse (tree.rewritten likeFirst document) file' = .ok tree' ∧
        Model.build (tree.rewritten likeFirst document) file' supply' = .ok (m', count') ∧
        (∀ indent, m'.snapshot.text indent = m.snapshot.text indent) ∧
        ∀ config, m'.render config = .ok (tree.rewritten likeFirst document) := by
  obtain ⟨m, count, built, spelled⟩ := Build.build_eq parsed supply
  obtain ⟨root, roots, _, _⟩ := spelled.single
  have regular := Parser.regular_of_parse parsed
  have readAs := readAs_rewritten parsed
  refine ⟨m, count, built, rewritten_id parsed,
    fun config => (render_of_spelled parsed spelled config).1,
    (render_of_spelled parsed spelled {}).2, fun file' supply' => ?_⟩
  obtain ⟨tree', parsed', regular', same, evenly⟩ := readAs.parse file'
  obtain ⟨m', count', built', spelled'⟩ := Build.build_eq parsed' supply'
  obtain ⟨root', roots', _, _⟩ := spelled'.single
  refine ⟨tree', m', count', parsed', built',
    text_snapshot_congr spelled'.sound spelled.sound roots' roots ?_, fun config => ?_⟩
  · rw [spelled'.shapesAt regular' roots', spelled.shapesAt regular roots, same]
  · obtain ⟨rendered, even⟩ := render_of_spelled parsed' spelled' config
    rw [rendered, even.2 (evenly fun gaps even => even)]

theorem render_build_rewritten_spread : ∃ tree,
    Parser.parse "[1, 2,3]" .null = .ok tree ∧
    ∃ m count, Model.build "[1, 2,3]" .null 0 = .ok (m, count) ∧
      (∀ config, m.render config = .ok (tree.rewritten likeFirst "[1, 2,3]")) ∧
      tree.rewritten likeFirst "[1, 2,3]" = "[1, 2, 3]" := by
  have rewrites : ((Parser.parse "[1, 2,3]" .null).toOption.map fun tree =>
      tree.rewritten likeFirst "[1, 2,3]") = some "[1, 2, 3]" := by decide +kernel
  have parses : (Parser.parse "[1, 2,3]" .null).toOption.isSome = true := by decide +kernel
  obtain ⟨tree, parsed⟩ := Except.exists_ok parses
  rw [parsed] at rewrites
  obtain ⟨m, count, built, _, rendered, _⟩ := render_build_rewritten parsed 0
  exact ⟨tree, parsed, m, count, built, rendered, Option.some.inj rewrites⟩

end DocSync
