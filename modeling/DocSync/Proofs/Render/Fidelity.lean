import DocSync.Proofs.Dict
import DocSync.Proofs.Model.Built
import DocSync.Proofs.Outcome
import DocSync.Proofs.Render.Emit
import DocSync.Proofs.Text.Spacing

/-!
What a text comes to when it is read and shown again. Of each chain only the first gap is kept, so
the text comes back just if the gaps of each chain are alike; otherwise it comes back with the same
tokens and other blanks.
-/

namespace DocSync

open Lexer (Blanks Lexeme)

variable {source x y : List Char} {at_ : Nat} {row : List Cell}

/-- The texts between spans that follow one another. -/
def gapsBetween (source : List Char) : List Location → List (List Char)
  | first :: second :: rest =>
    Text.slice source first.stop second.start :: gapsBetween source (second :: rest)
  | _ => []

/-- All children of a tree, and those of all trees below it, have the same text between them. -/
inductive ParseTree.Evenly (source : List Char) : ParseTree → Prop
  | token (t : Token) : Evenly source (.token t)
  | rule {r : Rule} {children : List ParseTree} {span : Location} :
    (gapsBetween source (children.map ParseTree.span)).Pairwise (· = ·) →
      (∀ child ∈ children, Evenly source child) → Evenly source (.rule r children span)

section

variable {α : Type} (key value : α)

/-- With its value as a field a pair has the key as another field. -/
@[simp] theorem get?_keyField :
    (Dict.ofList [(keyField, key), (valueName, value)]).get? keyField = some key := by
  simp [Dict.ofList, Dict.get?_insert, keyField, valueName]

@[simp] theorem get?_valueName :
    (Dict.ofList [(keyField, key), (valueName, value)]).get? valueName = some value := by
  simp [Dict.ofList, Dict.get?_insert]

/-- A pair that has a child for its value has no field for it. -/
@[simp] theorem get?_valueName_of_slot : (Dict.ofList [(keyField, key)]).get? valueName = none := by
  simp [Dict.ofList, Dict.get?_insert, keyField, valueName]

end

/-! ### Stretches of a text -/

/-- A text stands in another one at a position. -/
def Occurs (source : List Char) (at_ : Nat) (x : List Char) : Prop :=
  ∃ before after, source = before ++ (x ++ after) ∧ before.length = at_

namespace Occurs

theorem left (occurs : Occurs source at_ (x ++ y)) : Occurs source at_ x := by
  obtain ⟨before, after, rfl, rfl⟩ := occurs
  exact ⟨before, y ++ after, by simp, rfl⟩

theorem right (occurs : Occurs source at_ (x ++ y)) : Occurs source (at_ + x.length) y := by
  obtain ⟨before, after, rfl, rfl⟩ := occurs
  exact ⟨before ++ x, after, by simp, by simp⟩

theorem le (occurs : Occurs source at_ x) : at_ + x.length ≤ source.length := by
  obtain ⟨before, after, rfl, rfl⟩ := occurs
  simp

theorem slice (occurs : Occurs source at_ x) :
    Text.slice source at_ (at_ + x.length : Nat) = x := by
  obtain ⟨before, after, rfl, rfl⟩ := occurs
  rw [Text.slice_ofNat (Nat.le_add_right _ _) (by simp), List.drop_left,
    Nat.add_sub_cancel_left, List.take_left]

end Occurs

/-- The children of a row stand where they are placed. -/
theorem occurs_of_placed (occurs : Occurs source at_ (rowText row)) :
    ∀ p ∈ placed at_ row, Occurs source p.1 p.2.text := by
  induction row generalizing at_ with
  | nil => exact fun p inside => nomatch inside
  | cons cell rest ih =>
    have split : rowText (cell :: rest) = cell.gap ++ (cell.text ++ rowText rest) := by
      simp [rowText]
    rw [split] at occurs
    exact List.forall_mem_cons.2 ⟨occurs.right.left, ih occurs.right.right⟩

/-- Between the spans of a row lie the gaps of its cells. -/
theorem gapsBetween_row {span : Location} (stop : span.stop = at_)
    (laid : ∀ p ∈ placed at_ row, Laid p.1 p.2.text p.2.tree)
    (occurs : Occurs source at_ (rowText row)) :
    gapsBetween source (span :: row.map fun cell => cell.tree.span) = row.map Cell.gap ∧
      (((row.map fun cell => cell.tree.span).getLast?).getD span).stop =
        (at_ + (rowText row).length : Nat) := by
  induction row generalizing at_ span with
  | nil => exact ⟨rfl, by simpa [rowText] using stop⟩
  | cons cell rest ih =>
    have split : rowText (cell :: rest) = cell.gap ++ (cell.text ++ rowText rest) := by
      simp [rowText]
    rw [split] at occurs
    rw [placed, List.forall_mem_cons] at laid
    obtain ⟨here, later⟩ := laid
    obtain ⟨start', stop'⟩ := here.span
    obtain ⟨gaps, last⟩ := ih stop' later occurs.right.right
    -- The first gap lies between the span before the row and that of its first cell.
    constructor
    · rw [List.map_cons, gapsBetween, List.map_cons, gaps, stop, start', occurs.left.slice]
    · rw [List.map_cons, List.getLast?_cons, Option.getD_some, last, split]
      simp
      omega

/-! ### Trees of a model -/

/-- What a node of a model is made of. -/
def Model.madeOf (m : Model) (k : Key) : Makeup := ((m.node k).kind, (m.node k).toContent)

theorem Tree.forall₂_of_mapAll {α β γ : Type} {f : α → β} {g : γ → Tree β} {trees : List (Tree α)}
    {xs : List γ} (same : Tree.mapAll f trees = xs.map g) :
    List.Forall₂ (fun tree x => tree.map f = g x) trees xs := by
  induction trees generalizing xs with
  | nil =>
    rw [Tree.mapAll] at same
    rw [List.map_eq_nil_iff.1 same.symm]
    exact .nil
  | cons tree rest ih =>
    rw [Tree.mapAll] at same
    cases xs with
    | nil => cases same
    | cons x xs =>
      obtain ⟨first, later⟩ := List.cons.inj same
      exact .cons first (ih later)

theorem Laid.regular {text : List Char} {tree : ParseTree} (laid : Laid at_ text tree) :
    tree.Regular := by
  -- Each rule of the layout is one of the grammar.
  induction laid with
  | token => exact .token _
  | @empty _ isObject _ span =>
    cases isObject
    · exact .array span (by simp)
    · exact .object span (by simp)
  | @container at_ isObject blank text closing tree rest span _ _ _ _ _ _ _ _ ih =>
    have all : ∀ child ∈ tree :: rest.map Cell.tree, child.Regular := by
      have each : ∀ cell ∈ (⟨openMark isObject :: blank, text, tree⟩ : Cell) :: rest,
          cell.tree.Regular := fun cell member =>
        let ⟨start, inside⟩ := exists_placed member at_
        ih _ inside
      rw [List.forall_mem_cons] at each ⊢
      exact ⟨each.1, List.forall_mem_map.2 each.2⟩
    cases isObject
    · exact .array span all
    · exact .object span all
  | pair _ _ _ _ _ _ _ _ ih => exact .pair _ _ ih

theorem regular_of_placed {row : List Cell} (laid : ∀ p ∈ placed at_ row, Laid p.1 p.2.text p.2.tree) :
    ∀ child ∈ row.map Cell.tree, child.Regular := by
  intro child member
  obtain ⟨cell, inside, rfl⟩ := List.mem_map.1 member
  obtain ⟨position, there⟩ := exists_placed inside at_
  exact (laid _ there).regular

variable {m : Model} {config : Config} {fingerprint : String} {text : List Char} {tree : ParseTree}

/-- A tree of a model that is what a tree of the text becomes is shown as the same tokens, and just
as it stands in the text if the text keeps its gaps even. -/
def ParseTree.Shown (m : Model) (config : Config) (source : List Char) (fingerprint : String)
    (tree : ParseTree) (text : List Char) : Prop :=
  ∀ {T : Tree Key}, T.map m.madeOf = tree.blueprint source fingerprint →
    ∃ out : String, m.Renders config T out ∧ Respaced out.toList text ∧
      (out.toList = text ↔ tree.Evenly source)

/-- Trees of a row are shown one by one. -/
theorem exists_shown {trees : List (Tree Key)} {cells : List Cell}
    (each : ∀ cell ∈ cells, cell.tree.Shown m config source fingerprint cell.text)
    (same : List.Forall₂ (fun T child => T.map m.madeOf = child.blueprint source fingerprint) trees
      (cells.map Cell.tree)) :
    ∃ texts : List String, List.Forall₂ (m.Renders config) trees texts ∧
      List.Forall₂ (fun x cell => Respaced x cell.text) (texts.map String.toList) cells ∧
      (texts.map String.toList = cells.map Cell.text ↔
        ∀ cell ∈ cells, cell.tree.Evenly source) := by
  induction cells generalizing trees with
  | nil =>
    cases same
    exact ⟨[], .nil, .nil, by simp⟩
  | cons cell rest ih =>
    rw [List.map_cons] at same
    cases same with
    | cons first later =>
      rw [List.forall_mem_cons] at each
      obtain ⟨out, renders, respaced, even⟩ := each.1 first
      obtain ⟨texts, all, spaced, evenly⟩ := ih each.2 later
      -- The row comes out as it was just if its first text does and the rest does.
      refine ⟨out :: texts, .cons renders all, .cons respaced spaced, ?_⟩
      rw [List.map_cons, List.map_cons, List.cons.injEq, even, evenly, List.forall_mem_cons]

/-- The kind of a container. -/
def kindOf (isObject : Bool) : Kind := if isObject then .object else .array

/-- The slot of a container. -/
def slotOf (isObject : Bool) : String := if isObject then membersSlot else itemsSlot

theorem makeup_container (isObject : Bool) (children : List ParseTree) (span : Location) :
    Build.makeup source fingerprint (.rule (ruleOf isObject) children span) =
      Build.containerMakeup source fingerprint (kindOf isObject) (slotOf isObject) children span := by
  cases isObject <;> rfl

theorem nested_container (isObject : Bool) (children : List ParseTree) (span : Location) :
    (ParseTree.rule (ruleOf isObject) children span).nested = children := by
  cases isObject <;> rfl

/-- A container of a model keeps the frame that was sampled for it. -/
theorem stored_of_madeOf {k : Key} {isObject : Bool} {children : List ParseTree} {span : Location}
    (made : m.madeOf k = Build.containerMakeup source fingerprint (kindOf isObject)
      (slotOf isObject) children span) :
    (m.node k).kind = kindOf isObject ∧ (m.node k).edgeName .child = slotOf isObject ∧
      (m.node k).frames.get? (slotOf isObject) =
        some (Frame.ofContainer source span (children.map ParseTree.span)) := by
  have kind : (m.node k).kind = kindOf isObject := congrArg Prod.fst made
  have frames : (m.node k).frames = Dict.ofList [(slotOf isObject,
      Frame.ofContainer source span (children.map ParseTree.span))] :=
    congrArg (fun made => made.2.frames) made
  refine ⟨kind, ?_, by rw [frames, Dict.get?_ofList_singleton]⟩
  rw [Node.edgeName, kind]
  cases isObject <;> rfl

/-- A container of a model has the frame that was sampled for it. -/
theorem frame_of_madeOf (config : Config) {k : Key} {isObject : Bool} {children : List ParseTree}
    {span : Location}
    (made : m.madeOf k = Build.containerMakeup source fingerprint (kindOf isObject)
      (slotOf isObject) children span) :
    ((m.node k).kind = .object ∨ (m.node k).kind = .array) ∧
      m.frame config k ((m.node k).edgeName .child) =
        .ok (Frame.ofContainer source span (children.map ParseTree.span)) := by
  obtain ⟨kind, slot, stored⟩ := stored_of_madeOf made
  refine ⟨by rw [kind]; cases isObject <;> simp [kindOf], ?_⟩
  rw [Model.frame, slot, stored]

theorem toList_intercalate (separator : String) (first : String) (rest : List String) :
    (separator.intercalate (first :: rest)).toList =
      first.toList ++ (rest.map String.toList).flatMap (separator.toList ++ ·) := by
  induction rest generalizing first with
  | nil => simp
  | cons second rest ih =>
    rw [String.intercalate_cons_cons, String.toList_append, ih]
    simp

/-- A container comes to its children's texts between its brackets, with the separator before each
text but the first. -/
theorem Model.renders_container_row {config : Config} {k : Key} {frame : Frame}
    {children : List (Tree Key)} {first : List Char} {rest : List (List Char)}
    (kind : (m.node k).kind = .object ∨ (m.node k).kind = .array)
    (framed : m.frame config k ((m.node k).edgeName .child) = .ok frame) (plain : frame.strays = [])
    (untrailed : frame.trailing = false)
    (all : List.Forall₂ (m.Renders config) children ((first :: rest).map String.ofList)) :
    m.Renders config (.node k children) (String.ofList (frame.opening.toList ++
      (first ++ rest.flatMap (frame.separator.toList ++ ·) ++ frame.closing.toList))) := by
  have some_ : children ≠ [] := by
    rintro rfl
    cases all
  have texts : (rest.map String.ofList).map String.toList = rest := by
    rw [List.map_map]
    exact (List.map_congr_left fun text _ => String.toList_ofList).trans (List.map_id rest)
  have renders := renders_container kind framed plain some_ all
  rw [untrailed, if_neg Bool.false_ne_true, String.append_empty] at renders
  -- The same text, as a list of characters.
  refine cast (congrArg (m.Renders config _) ?_) renders
  rw [← String.toList_inj, String.toList_ofList, String.toList_append, String.toList_append,
    List.map_cons, toList_intercalate, texts, String.toList_ofList, List.append_assoc]

/-- A tree of a model that is what a regular tree becomes has a node of its makeup at its top. -/
theorem exists_node_of_map {T : Tree Key} (regular : tree.Regular)
    (same : T.map m.madeOf = tree.blueprint source fingerprint) :
    ∃ k children, T = .node k children ∧ m.madeOf k = Build.makeup source fingerprint tree ∧
      List.Forall₂ (fun T child => T.map m.madeOf = child.blueprint source fingerprint) children
        tree.nested := by
  cases T with
  | node k children =>
    rw [ParseTree.blueprint_eq regular, Tree.map] at same
    obtain ⟨made, below⟩ := Tree.node.inj same
    exact ⟨k, children, rfl, made, Tree.forall₂_of_mapAll below⟩

/-! ### The parts of a tree's text -/

/-- A scalar is shown as its lexeme. -/
theorem shown_token {t : Token} (lexeme : Lexeme t.kind text) (shows : t.lexeme = String.ofList text) :
    (ParseTree.token t).Shown m config source fingerprint text := by
  intro T same
  obtain ⟨k, children, rfl, made, below⟩ := exists_node_of_map (.token t) same
  obtain ⟨c, tail, rfl, solid, _⟩ := lexeme
  have kind : (m.node k).kind = .scalar := congrArg Prod.fst made
  have fields : (m.node k).fields = Dict.ofList [(valueName, t.lexeme)] :=
    congrArg (fun made => made.2.fields) made
  refine ⟨t.lexeme, Model.renders_scalar kind ?_, ?_, ?_⟩
  · rw [fields, Dict.get?_ofList_singleton]
  · rw [shows, String.toList_ofList]
    exact .same solid
  · rw [shows, String.toList_ofList]
    exact iff_of_true rfl (.token t)

theorem isBlank_openMark (isObject : Bool) : Lexer.isBlank (openMark isObject) = false := by
  cases isObject <;> rfl

theorem isBlank_closeMark (isObject : Bool) : Lexer.isBlank (closeMark isObject) = false := by
  cases isObject <;> rfl

theorem regular_container {isObject : Bool} {children : List ParseTree} {span : Location}
    (all : ∀ child ∈ children, child.Regular) :
    (ParseTree.rule (ruleOf isObject) children span).Regular := by
  cases isObject
  · exact .array span all
  · exact .object span all

/-- The brackets of a container without children are split before the closing one. -/
theorem ofContainer_nil {isObject : Bool} {blank : List Char} {span : Location}
    (occurs : Occurs source at_ (openMark isObject :: (blank ++ [closeMark isObject])))
    (start : span.start = at_) (stop : span.stop = (at_ + (blank.length + 2) : Nat)) :
    (Frame.ofContainer source span []).emptyOpening.toList = openMark isObject :: blank ∧
      (Frame.ofContainer source span []).closing.toList = [closeMark isObject] := by
  have split : openMark isObject :: (blank ++ [closeMark isObject]) =
      (openMark isObject :: blank) ++ [closeMark isObject] := rfl
  have length : ((openMark isObject :: blank) ++ [closeMark isObject]).length =
      blank.length + 2 := by simp
  have whole : span.slice source = (openMark isObject :: blank) ++ [closeMark isObject] := by
    rw [split] at occurs
    rw [Location.slice, start, stop, ← length, occurs.slice]
  -- All but the last character is the opening.
  have last : Text.clamp (blank.length + 2) (-1) = (openMark isObject :: blank).length := by
    rw [Text.clamp, if_pos (by omega), List.length_cons]
    omega
  constructor
  · simp only [Frame.ofContainer, Frame.emptyOpening, whole, List.dropLast_concat]
    simp
  · simp only [Frame.ofContainer, whole, Text.sliceFrom, length, last, List.drop_left,
      String.toList_ofList]

theorem shown_empty {isObject : Bool} {blank : List Char} {span : Location}
    (occurs : Occurs source at_ (openMark isObject :: (blank ++ [closeMark isObject])))
    (start : span.start = at_) (stop : span.stop = (at_ + (blank.length + 2) : Nat)) :
    (ParseTree.rule (ruleOf isObject) [] span).Shown m config source fingerprint
      (openMark isObject :: (blank ++ [closeMark isObject])) := by
  intro T same
  obtain ⟨k, children, rfl, made, below⟩ :=
    exists_node_of_map (regular_container (by simp)) same
  rw [nested_container] at below
  cases below
  rw [makeup_container] at made
  obtain ⟨kind, framed⟩ := frame_of_madeOf config made
  obtain ⟨opening, closing⟩ := ofContainer_nil occurs start stop
  -- The opening and the closing, put together, are what was read.
  have shows : ((Frame.ofContainer source span []).emptyOpening ++
      (Frame.ofContainer source span []).closing).toList =
        openMark isObject :: (blank ++ [closeMark isObject]) := by
    rw [String.toList_append, opening, closing, List.cons_append]
  refine ⟨_, Model.renders_container_nil kind framed rfl, ?_, ?_⟩
  · rw [List.map_nil, shows]
    exact .same (isBlank_openMark isObject)
  · rw [List.map_nil, shows]
    exact iff_of_true rfl (.rule .nil (by simp))

/-- A container's frame has the texts on either side of its children, and the first text that is
between two of them. -/
theorem ofContainer_cons {isObject : Bool} {blank text closing : List Char} {tree : ParseTree}
    {rest : List Cell} {span : Location}
    (occurs : Occurs source at_ (rowText (⟨openMark isObject :: blank, text, tree⟩ :: rest) ++
      (closing ++ [closeMark isObject])))
    (start : span.start = at_)
    (stop : span.stop = (at_ + (rowText (⟨openMark isObject :: blank, text, tree⟩ :: rest)).length +
        (closing.length + 1) : Nat))
    (laid : ∀ p ∈ placed at_ (⟨openMark isObject :: blank, text, tree⟩ :: rest),
      Laid p.1 p.2.text p.2.tree) :
    let frame := Frame.ofContainer source span ((tree :: rest.map Cell.tree).map ParseTree.span)
    frame.opening.toList = openMark isObject :: blank ∧
      frame.closing.toList = closing ++ [closeMark isObject] ∧
      (∀ cell ∈ rest.head?, frame.separator.toList = cell.gap) ∧
      gapsBetween source ((tree :: rest.map Cell.tree).map ParseTree.span) = rest.map Cell.gap := by
  have row := occurs.left
  have split : rowText (⟨openMark isObject :: blank, text, tree⟩ :: rest) =
      (openMark isObject :: blank) ++ (text ++ rowText rest) := by simp [rowText]
  rw [split] at row
  rw [placed, List.forall_mem_cons] at laid
  obtain ⟨here, later⟩ := laid
  obtain ⟨start', stop'⟩ := here.span
  obtain ⟨gaps, last⟩ := gapsBetween_row stop' later row.right.right
  have spans : (tree :: rest.map Cell.tree).map ParseTree.span =
      tree.span :: rest.map fun cell => cell.tree.span := by simp
  rw [spans]
  -- The opening ends where the first child starts, and the closing starts where the last one ends.
  refine ⟨?_, ?_, ?_, gaps⟩
  · simp only [Frame.ofContainer, String.toList_ofList]
    rw [start, start', row.left.slice]
  · simp only [Frame.ofContainer, String.toList_ofList]
    have ends := occurs.right.slice
    have here : at_ + (openMark isObject :: blank).length + text.length + (rowText rest).length =
        at_ + (rowText (⟨openMark isObject :: blank, text, tree⟩ :: rest)).length := by
      simp [rowText]
      omega
    rw [last, stop, here]
    rwa [List.length_append, List.length_singleton] at ends
  · intro cell first
    obtain ⟨others, rfl⟩ := List.head?_eq_some_iff.1 first
    simp only [Frame.ofContainer, List.map_cons, String.toList_ofList]
    rw [List.map_cons, gapsBetween] at gaps
    exact List.head_eq_of_cons_eq gaps

theorem evenly_rule_iff {r : Rule} {children : List ParseTree} {span : Location} :
    (ParseTree.rule r children span).Evenly source ↔
      (gapsBetween source (children.map ParseTree.span)).Pairwise (· = ·) ∧
        ∀ child ∈ children, child.Evenly source :=
  ⟨fun | .rule gaps all => ⟨gaps, all⟩, fun ⟨gaps, all⟩ => .rule gaps all⟩

/-- Elements are alike if all of them are what the first one is. -/
theorem pairwise_eq_iff {α : Type} {x : α} {xs : List α} (first : ∀ y ∈ xs.head?, x = y) :
    xs.Pairwise (· = ·) ↔ ∀ y ∈ xs, y = x := by
  cases xs with
  | nil => simp
  | cons y ys =>
    obtain rfl := first y rfl
    rw [List.pairwise_cons, List.forall_mem_cons]
    constructor
    · exact fun ⟨alike, _⟩ => ⟨rfl, fun z inside => (alike z inside).symm⟩
    · exact fun ⟨_, alike⟩ => ⟨fun z inside => (alike z inside).symm,
        List.pairwise_of_forall_mem_list fun a inside b inside' =>
          (alike a inside).trans (alike b inside').symm⟩

/-- A row is as it was if its gaps are the separator and its texts are what they were. -/
theorem forall₂_row_iff {separator : List Char} {shown : List (List Char)} {cells : List Cell}
    (length : shown.length = cells.length) :
    List.Forall₂ (fun x cell => cell.gap = separator ∧ x = cell.text) shown cells ↔
      (∀ gap ∈ cells.map Cell.gap, gap = separator) ∧ shown = cells.map Cell.text := by
  induction cells generalizing shown with
  | nil =>
    rw [List.length_eq_zero_iff.1 length]
    simp
  | cons cell cells ih =>
    cases shown with
    | nil => cases length
    | cons x shown =>
      rw [List.forall₂_cons, ih (Nat.succ.inj length), List.map_cons, List.map_cons,
        List.forall_mem_cons, List.cons.injEq, and_and_and_comm]

/-- A row between brackets, shown with the first gap for all gaps. -/
theorem respaced_brackets (isObject : Bool) {blank text closing separator : List Char}
    {tree : ParseTree} {rest : List Cell} {shown : List (List Char)} (blanks : Blanks blank)
    (blanks' : Blanks closing) (gaps : ∀ cell ∈ rest, Gap ',' cell.gap)
    (first : ∀ cell ∈ rest.head?, separator = cell.gap)
    (respaced : List.Forall₂ (fun x cell => Respaced x cell.text) (x :: shown)
      (⟨openMark isObject :: blank, text, tree⟩ :: rest)) :
    let out := (openMark isObject :: blank) ++ (x ++ shown.flatMap (separator ++ ·) ++
      (closing ++ [closeMark isObject]))
    let cells : List Cell := ⟨openMark isObject :: blank, text, tree⟩ :: rest
    let source := rowText cells ++ (closing ++ [closeMark isObject])
    Respaced out source ∧
      (out = source ↔ (rest.map Cell.gap).Pairwise (· = ·) ∧ x :: shown = cells.map Cell.text) := by
  intro out cells source
  obtain ⟨one, others⟩ := List.forall₂_cons.1 respaced
  -- Without another child the separator shows nowhere.
  obtain ⟨separator', separates, first', shows⟩ : ∃ separator', Gap ',' separator' ∧
      (∀ cell ∈ rest.head?, separator' = cell.gap) ∧
      shown.flatMap (separator ++ ·) = shown.flatMap (separator' ++ ·) := by
    cases others with
    | nil => exact ⟨[','], ⟨[], [], rfl, List.forall_mem_nil _, List.forall_mem_nil _⟩, by simp, rfl⟩
    | @cons _ cell _ _ _ _ =>
      have same := first cell rfl
      exact ⟨separator, same ▸ gaps cell List.mem_cons_self, first, rfl⟩
  obtain ⟨inner, same⟩ := Respaced.row separates others gaps one
  rw [← shows] at inner same
  have split : source = (openMark isObject :: blank) ++ ((text ++ rowText rest) ++
      (closing ++ [closeMark isObject])) := by simp [source, cells, rowText]
  rw [split]
  constructor
  · have opened : Respaced [openMark isObject] [openMark isObject] :=
      .same (isBlank_openMark isObject)
    exact opened.gap blanks blanks (inner.gap blanks' blanks' (.same (isBlank_closeMark isObject)))
  · rw [List.append_cancel_left_eq, List.append_cancel_right_eq, same,
      forall₂_row_iff others.length_eq, pairwise_eq_iff (x := separator'), List.map_cons,
      List.cons.injEq, and_left_comm]
    intro gap inside
    rw [List.head?_map] at inside
    obtain ⟨cell, head, rfl⟩ := Option.map_eq_some_iff.1 inside
    exact first' cell head

theorem shown_container {isObject : Bool} {blank text closing : List Char} {tree : ParseTree}
    {rest : List Cell} {span : Location} (blanks : Blanks blank)
    (gaps : ∀ cell ∈ rest, Gap ',' cell.gap) (blanks' : Blanks closing)
    (occurs : Occurs source at_ (rowText (⟨openMark isObject :: blank, text, tree⟩ :: rest) ++
      (closing ++ [closeMark isObject])))
    (start : span.start = at_)
    (stop : span.stop = (at_ + (rowText (⟨openMark isObject :: blank, text, tree⟩ :: rest)).length +
        (closing.length + 1) : Nat))
    (laid : ∀ p ∈ placed at_ (⟨openMark isObject :: blank, text, tree⟩ :: rest),
      Laid p.1 p.2.text p.2.tree)
    (each : ∀ cell ∈ (⟨openMark isObject :: blank, text, tree⟩ : Cell) :: rest,
      cell.tree.Shown m config source fingerprint cell.text) :
    (ParseTree.rule (ruleOf isObject) (tree :: rest.map Cell.tree) span).Shown m config source
      fingerprint (rowText (⟨openMark isObject :: blank, text, tree⟩ :: rest) ++
        (closing ++ [closeMark isObject])) := by
  intro T same
  have regular : ∀ child ∈ tree :: rest.map Cell.tree, child.Regular := regular_of_placed laid
  obtain ⟨k, trees, rfl, made, below⟩ := exists_node_of_map (regular_container regular) same
  rw [nested_container] at below
  rw [makeup_container] at made
  obtain ⟨kind, framed⟩ := frame_of_madeOf config made
  obtain ⟨opening, ending, first, between⟩ := ofContainer_cons occurs start stop laid
  rw [evenly_rule_iff, between]
  obtain ⟨texts, all, respaced, even⟩ := exists_shown each below
  have plain : (Frame.ofContainer source span
    ((tree :: rest.map Cell.tree).map ParseTree.span)).strays = [] := rfl
  have untrailed : (Frame.ofContainer source span
    ((tree :: rest.map Cell.tree).map ParseTree.span)).trailing = false := rfl
  -- Only what has been told of the frame counts from here on.
  generalize Frame.ofContainer source span ((tree :: rest.map Cell.tree).map ParseTree.span) =
    frame at framed opening ending first plain untrailed
  cases texts with
  | nil => cases respaced
  | cons x texts =>
    rw [List.map_cons] at respaced even
    obtain ⟨spaced, same⟩ := respaced_brackets isObject blanks blanks' gaps first respaced
    have shows : (frame.opening ++ (frame.separator.intercalate (x :: texts) ++
        if frame.trailing then frame.separator else "") ++ frame.closing).toList =
          (openMark isObject :: blank) ++
            (x.toList ++ (texts.map String.toList).flatMap (frame.separator.toList ++ ·) ++
              (closing ++ [closeMark isObject])) := by
      rw [untrailed, if_neg Bool.false_ne_true, String.append_empty, String.toList_append,
        String.toList_append, toList_intercalate, opening, ending, List.append_assoc]
    refine ⟨_, Model.renders_container kind framed plain ?_ all, ?_⟩
    · rintro rfl
      cases all
    · rw [shows, same, even]
      exact ⟨spaced, and_congr_right fun _ => List.forall_mem_map.symm⟩

/-- A pair's frame has what lies between its parts. -/
theorem ofPair_eq {keyText gap text : List Char} {span key value : Location}
    (occurs : Occurs source at_ (keyText ++ (gap ++ text)))
    (stop' : key.stop = (at_ + keyText.length : Nat))
    (start' : value.start = (at_ + keyText.length + gap.length : Nat))
    (stop : value.stop = (at_ + keyText.length + gap.length + text.length : Nat))
    (whole : span.stop = (at_ + keyText.length + gap.length + text.length : Nat)) :
    (Frame.ofPair source span key value).opening.toList = gap ∧
      (Frame.ofPair source span key value).closing.toList = [] := by
  simp only [Frame.ofPair, String.toList_ofList]
  rw [stop', start', stop, whole, occurs.right.left.slice]
  refine ⟨rfl, ?_⟩
  simp [Text.slice]

theorem shown_pair {keyText gap text : List Char} {key : Token} {tree : ParseTree}
    {span : Location} (laidKey : Laid at_ keyText (.token key)) (isGap : Gap ':' gap)
    (notPair : tree.isPair = false)
    (laid : Laid (at_ + keyText.length + gap.length) text tree)
    (stop : span.stop = (at_ + keyText.length + gap.length + text.length : Nat))
    (occurs : Occurs source at_ (keyText ++ (gap ++ text)))
    (inner : tree.Shown m config source fingerprint text) :
    (ParseTree.rule .pair [.token key, tree] span).Shown m config source fingerprint
      (keyText ++ (gap ++ text)) := by
  intro T same
  obtain ⟨k, children, rfl, made, below⟩ := exists_node_of_map (.pair key span laid.regular) same
  have keyStop : key.span.stop = (at_ + keyText.length : Nat) := laidKey.span.2
  obtain ⟨opening, closing⟩ := ofPair_eq occurs keyStop laid.span.1 laid.span.2 stop
  have kind : (m.node k).kind = .pair := congrArg Prod.fst made
  have content := congrArg Prod.snd made
  have framed : m.frame config k valueName = .ok (Frame.ofPair source span key.span tree.span) := by
    have frames : (m.node k).frames = Dict.ofList
      [(valueName, Frame.ofPair source span key.span tree.span)] := congrArg Content.frames content
    rw [Model.frame, frames, Dict.get?_ofList_singleton]
  have fields : (m.node k).fields =
      Dict.ofList ((Build.pairFields key tree).map fun part => (part.1, part.2.lexeme)) :=
    congrArg Content.fields content
  have keyed : (m.node k).fields.get? keyField = some key.lexeme := by
    rw [fields]
    cases tree <;> simp [Build.pairFields]
  -- The key comes as it is, and so does the gap; all depends on the value.
  obtain ⟨body, renders, spaced, even⟩ : ∃ body : String,
      m.Renders config (.node k children) (key.lexeme ++
        (Frame.ofPair source span key.span tree.span).opening ++ body ++
        (Frame.ofPair source span key.span tree.span).closing) ∧
      Respaced body.toList text ∧ (body.toList = text ↔ tree.Evenly source) := by
    cases tree with
    | token t =>
      cases below
      have valued : (m.node k).fields.get? valueName = some t.lexeme := by
        rw [fields]
        simp [Build.pairFields]
      cases laid with
      | token lexeme _ shows _ _ =>
        obtain ⟨c, tail, rfl, solid, _⟩ := lexeme
        refine ⟨t.lexeme, Model.renders_pair_field kind keyed valued framed rfl, ?_, ?_⟩
        · rw [shows, String.toList_ofList]
          exact .same solid
        · rw [shows, String.toList_ofList]
          exact iff_of_true rfl (.token t)
    | rule r trees inside =>
      obtain ⟨T, later, standing, none_, rfl⟩ := List.forall₂_cons_right_iff.1 below
      cases none_
      obtain ⟨body, renders, respaced, even⟩ := inner standing
      exact ⟨body, Model.renders_pair_slot kind keyed framed rfl renders rfl, respaced, even⟩
  refine ⟨_, renders, ?_⟩
  cases laidKey with
  | token lexeme _ shows _ _ =>
    have total : (key.lexeme ++ (Frame.ofPair source span key.span tree.span).opening ++ body ++
        (Frame.ofPair source span key.span tree.span).closing).toList =
          keyText ++ (gap ++ body.toList) := by
      simp [shows, opening, closing]
    obtain ⟨c, tail, rfl, solid, _⟩ := lexeme
    rw [total, List.append_cancel_left_eq, List.append_cancel_left_eq, even, evenly_rule_iff]
    refine ⟨(Respaced.same solid).mark rfl isGap isGap spaced, ?_⟩
    simp [gapsBetween, ParseTree.Evenly.token]

/-- What a tree becomes is shown as the tree stands in the text, but for the gaps that are not kept. -/
theorem Laid.shown (laid : Laid at_ text tree) (occurs : Occurs source at_ text) :
    tree.Shown m config source fingerprint text := by
  induction laid with
  | @token at_ text t lexeme isScalar shows start stop => exact shown_token lexeme shows
  | @empty at_ isObject blank span blanks start stop => exact shown_empty occurs start stop
  | @container at_ isObject blank text closing tree rest span blanks gaps blanks' isItem areItems
      start stop laid ih =>
    refine shown_container blanks gaps blanks' occurs start stop laid fun cell inside => ?_
    obtain ⟨position, inside⟩ := exists_placed inside at_
    exact ih _ inside (occurs_of_placed occurs.left _ inside)
  | @pair at_ keyText gap text key tree span laidKey isString between notPair laid start stop ihKey
      ih => exact shown_pair laidKey between notPair laid stop occurs (ih occurs.right.right)

/-! ### The document -/

/-- The text around a tree is what its model keeps as leading and trailing text. -/
theorem outside_eq {leading body trailing : List Char} {span : Location}
    (split : source = leading ++ (body ++ trailing)) (start : span.start = leading.length)
    (stop : span.stop = (leading.length + body.length : Nat)) :
    Text.sliceTo source span.start = leading ∧ Text.sliceFrom source span.stop = trailing := by
  have inside : leading.length ≤ source.length := by simp [split]
  have inside' : leading.length + body.length ≤ source.length := by simp [split]
  rw [start, stop, Text.sliceTo, Text.sliceFrom, Text.clamp_ofNat inside, Text.clamp_ofNat inside',
    split, List.take_left, ← List.append_assoc, ← List.length_append, List.drop_left]
  exact ⟨rfl, rfl⟩

/-- The model of a parse can be shown, and it is shown just as the text was if in each chain of it all
siblings have the same text between them. -/
theorem Build.Spelled.exists_render {text : String} {file : Json} (spelled : Build.Spelled m text tree)
    (parsed : Parser.parse text file = .ok tree) (config : Config) :
    ∃ out, m.render config = .ok out ∧ (out = text ↔ tree.Evenly text.toList) := by
  obtain ⟨root, roots, alone, below⟩ := spelled.single
  obtain ⟨leading, body, trailing, split, _, _, laid, _⟩ := Parser.laid_of_parse parsed
  obtain ⟨start, stop⟩ := laid.span
  obtain ⟨before, after⟩ := outside_eq split start stop
  have held : m.Holds root := spelled.sound.holds_root (by simp [roots])
  rw [spelled.sound.treesAt_some held, alone, Model.treesAt_none, Tree.mapAll, Tree.mapAll] at below
  have whole : tree.Shown m config text.toList (Digest.fingerprint text) body :=
    laid.shown ⟨leading, trailing, split, rfl⟩
  obtain ⟨shown, renders, _, even⟩ := whole (List.cons.inj below).1
  refine ⟨_, Model.render_eq spelled.sound roots alone spelled.plain renders, ?_⟩
  have around : (m.leading ++ shown ++ m.trailing).toList = leading ++ (shown.toList ++ trailing) := by
    simp [spelled.leading, spelled.trailing, before, after]
  -- What lies before and behind the document is shown as it was, so only its own text may differ.
  rw [← even, ← String.toList_inj, around]
  conv => enter [1, 2]; rw [split]
  rw [List.append_cancel_left_eq, List.append_cancel_right_eq]

/-- Every text that parses becomes a model that can be shown, and it is shown just as the text was
if in each chain of it all siblings have the same text between them. -/
theorem render_build_eq_iff {text : String} {file : Json} (parsed : Parser.parse text file = .ok tree)
    (supply : Nat) (config : Config) :
    ∃ m count out, Model.build text file supply = .ok (m, count) ∧ m.render config = .ok out ∧
      (out = text ↔ tree.Evenly text.toList) := by
  obtain ⟨m, count, built, spelled⟩ := Build.build_eq parsed supply
  obtain ⟨out, shown, even⟩ := spelled.exists_render parsed config
  exact ⟨m, count, out, built, shown, even⟩

/-- What a text is shown as after it was read. -/
def shownAgain (text : String) : Option String := do
  let (m, _) ← (Model.build text .null 0).toOption
  (m.render {}).toOption

theorem render_build_eq_spread : ∃ tree,
    Parser.parse "[1,\n 2,\n \x7b\"a\" : []\x7d]\n" .null = .ok tree ∧
    ∃ m count out, Model.build "[1,\n 2,\n \x7b\"a\" : []\x7d]\n" .null 0 = .ok (m, count) ∧
      m.render {} = .ok out ∧ (out = "[1,\n 2,\n \x7b\"a\" : []\x7d]\n" ↔
        tree.Evenly "[1,\n 2,\n \x7b\"a\" : []\x7d]\n".toList) := by
  have parses : (Parser.parse "[1,\n 2,\n \x7b\"a\" : []\x7d]\n" .null).toOption.isSome = true := by
    decide +kernel
  obtain ⟨tree, parsed⟩ := Except.exists_ok parses
  exact ⟨tree, parsed, render_build_eq_iff parsed 0 {}⟩

/-- Of an array's gaps only the first is kept, so a text with another one is not given back. -/
theorem render_build_ne_uneven : ∃ tree m count, Parser.parse "[1, 2,3]" .null = .ok tree ∧
    Model.build "[1, 2,3]" .null 0 = .ok (m, count) ∧
      m.render {} = .ok "[1, 2, 3]" ∧ m.render {} ≠ .ok "[1, 2,3]" := by
  have parses : (Parser.parse "[1, 2,3]" .null).toOption.isSome = true := by decide +kernel
  have builds : (Model.build "[1, 2,3]" .null 0).toOption.isSome = true := by decide +kernel
  have shows : shownAgain "[1, 2,3]" = some "[1, 2, 3]" := by decide +kernel
  obtain ⟨tree, parsed⟩ := Except.exists_ok parses
  obtain ⟨⟨m, count⟩, built⟩ := Except.exists_ok builds
  simp only [shownAgain, built, Except.toOption, Option.bind_eq_bind, Option.bind_some] at shows
  refine ⟨tree, m, count, parsed, built, ?_⟩
  cases shown : m.render {} with
  | error e =>
    rw [shown] at shows
    cases shows
  | ok out =>
    rw [shown] at shows
    obtain rfl := Option.some.inj shows
    exact ⟨rfl, by simp⟩

end DocSync
