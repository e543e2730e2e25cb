import DocSync.Proofs.Change.SameText
import DocSync.Proofs.Render.BlockStyle
import DocSync.Proofs.Snapshot.Canonical

/-!
The YAML form of a document tells the document. Each node shows by its first token what it is, and the
indentation of the next line tells where its own lines end.
-/

namespace DocSync

open Lexer (Lexeme Closed closed_lineFeed)

variable {m m' : Model} {s s' : Shape} {shapes shapes' : List Shape} {indent bound : Nat}
  {text text' rest rest' : List Char}

/-! ### What a node shows first -/

namespace Shape

/-- What comes behind the first token of a node: the end of its line for a scalar, the colon of a key for
a pair and for an object, the closing bracket for what is empty. An array with anything in it begins with
a dash. -/
def mark? : Shape → Option Char
  | .node (.scalar, _) _ => some '\n'
  | .node (.pair, _) _ => some ':'
  | .node (.object, _) shapes => some (if shapes.isEmpty then '\x7d' else ':')
  | .node (.array, _) shapes => if shapes.isEmpty then some ']' else none

/-- A text begins with a token and a character that ends it, or with a dash. -/
def Front : Option Char → List Char → Prop
  | some mark, text => ∃ kind token tail, Lexeme kind token ∧ Closed (mark :: tail) ∧
    text = token ++ mark :: tail
  | none, text => ∃ tail, text = '-' :: ' ' :: tail

theorem Front.unique {mark mark' : Option Char} (front : Front mark text) (front' : Front mark' text) :
    mark = mark' := by
  match mark, mark' with
  | some mark, some mark' =>
    -- The tokens are the same, and so is what stands right behind them.
    obtain ⟨kind, token, tail, lexeme, closed, rfl⟩ := front
    obtain ⟨kind', token', tail', lexeme', closed', same⟩ := front'
    rw [(List.cons.inj (lexeme.cancel lexeme' closed closed' same).2).1]
  | some mark, none =>
    obtain ⟨kind, token, tail, lexeme, closed, rfl⟩ := front
    obtain ⟨tail', same⟩ := front'
    exact absurd same (lexeme.ne_dash closed)
  | none, some mark' =>
    obtain ⟨kind, token, tail, lexeme, closed, rfl⟩ := front'
    obtain ⟨tail', same⟩ := front
    exact absurd same (lexeme.ne_dash closed)
  | none, none => rfl

theorem Front.append {mark : Option Char} (front : Front mark text) (rest : List Char) :
    Front mark (text ++ rest) := by
  cases mark with
  | some mark =>
    obtain ⟨kind, token, tail, lexeme, closed, rfl⟩ := front
    refine ⟨kind, token, tail ++ rest, lexeme, fun c first => closed c first, by simp⟩
  | none =>
    obtain ⟨tail, rfl⟩ := front
    exact ⟨tail ++ rest, rfl⟩

/-- The mark of a pair is a colon. -/
theorem mark?_of_isPair (isPair : s.isPair = true) : s.mark? = some ':' := by
  obtain ⟨⟨kind, fields⟩, below⟩ := s
  obtain rfl : kind = .pair := by simpa [Shape.isPair, Tree.label] using isPair
  rfl

@[simp] theorem fieldText_singleton (name : String) (text : List Char) :
    fieldText (Dict.ofList [(name, String.ofList text)]) name = text := by
  rw [fieldText, Dict.get?_ofList_singleton]
  exact String.toList_ofList

@[simp] theorem fieldText_key (key value : List Char) : fieldText
    (Dict.ofList [(keyField, String.ofList key), (valueName, String.ofList value)]) keyField = key := by
  rw [fieldText, get?_keyField]
  exact String.toList_ofList

@[simp] theorem fieldText_value (key value : List Char) : fieldText
    (Dict.ofList [(keyField, String.ofList key), (valueName, String.ofList value)]) valueName = value := by
  rw [fieldText, get?_valueName]
  exact String.toList_ofList

/-- A filled shape begins as it should. -/
theorem Filled.front (filled : s.Filled) (indent : Nat) : Front s.mark? (s.block indent) := by
  have keyed : ∀ {key : List Char} (tail : List Char), Lexeme .string key →
      Front (some ':') (key ++ ':' :: tail) := fun tail lexeme =>
    ⟨_, _, tail, lexeme, Lexer.closed_mark (.inr (.inl rfl)), rfl⟩
  have bracket : ∀ (kind : TokenKind) {opening closing : Char}, kind.mark? = some opening →
      closing = ']' ∨ closing = '\x7d' → Front (some closing) (opening :: closing :: ['\n']) :=
    fun kind _ _ isMark ends => ⟨kind, _, ['\n'], Lexer.lexeme_of_spelling (.mark isMark),
      Lexer.closed_mark (.inr (.inr ends)), rfl⟩
  induction filled generalizing indent with
  | scalar isValue =>
    obtain ⟨kind, lexeme, -⟩ := isValue
    refine ⟨_, _, [], lexeme, closed_lineFeed, ?_⟩
    rw [block, fieldText_singleton]
  | @container isObject shapes areItems _ ih =>
    cases isObject with
    | true =>
      cases shapes with
      | nil => exact bracket .lbrace rfl (.inr rfl)
      | cons first rest =>
        -- It begins as its first row does.
        have row := (ih first List.mem_cons_self indent).append (rows indent [] (blanks indent) rest)
        rwa [mark?_of_isPair (areItems first List.mem_cons_self)] at row
    | false =>
      cases shapes with
      | nil => exact bracket .lbracket rfl (.inl rfl)
      | cons first rest => exact ⟨_, rfl⟩
  | field lexeme _ =>
    rw [block, fieldText_key]
    exact keyed _ lexeme
  | slot lexeme _ _ _ =>
    rw [block, fieldText_singleton]
    exact keyed _ lexeme

/-- The form of a node begins with no blank. -/
theorem Filled.starts (filled : s.Filled) (indent : Nat) :
    ∃ c tail, s.block indent = c :: tail ∧ c ≠ ' ' := by
  have front := filled.front indent
  match mark : s.mark? with
  | some mark' =>
    -- No token begins with a blank.
    rw [mark] at front
    obtain ⟨kind, token, tail, ⟨c, behind, rfl, notBlank, -⟩, -, same⟩ := front
    refine ⟨c, _, same, ?_⟩
    rintro rfl
    cases notBlank
  | none =>
    rw [mark] at front
    obtain ⟨tail, same⟩ := front
    exact ⟨_, _, same, by decide⟩

/-! ### Where a node ends -/

/-- What comes next, if anything, is indented less far than this. -/
def Dedented (bound : Nat) (rest : List Char) : Prop :=
  rest = [] ∨ ∃ depth c tail, depth < bound ∧ c ≠ ' ' ∧ rest = blanks depth ++ c :: tail

theorem Dedented.mono (dedented : Dedented bound rest) {further : Nat} (le : bound ≤ further) :
    Dedented further rest := by
  obtain rfl | ⟨depth, c, tail, less, notBlank, rfl⟩ := dedented
  · exact .inl rfl
  · exact .inr ⟨depth, c, tail, less.trans_le le, notBlank, rfl⟩

theorem blanks_eq_append (less : indent < bound) :
    blanks bound = blanks indent ++ ' ' :: blanks (bound - indent - 1) := by
  rw [blanks, blanks, blanks, ← List.replicate_succ, List.replicate_append_replicate]
  congr 1
  omega

/-- A line that is indented as far as this is not indented less far. -/
theorem Dedented.ne_line (dedented : Dedented indent rest) {c : Char} {tail : List Char} :
    rest ≠ blanks indent ++ c :: tail := by
  rintro rfl
  obtain none_ | ⟨depth, c, after, less, notBlank, same⟩ := dedented
  · simp at none_
  · -- Where the lesser indentation ends, the greater one goes on.
    rw [blanks_eq_append less, List.append_assoc, List.append_cancel_left_eq] at same
    exact notBlank (List.cons.inj same).1.symm

/-- How each row of an object or an array is opened. -/
def markOf (isObject : Bool) : List Char := if isObject then [] else ['-', ' ']

/-- How far what follows a node may be indented: the next row stands right below a pair, and to the left
of all else. -/
def reach (indent : Nat) (s : Shape) : Nat := if s.isPair then indent + 1 else indent

theorem lt_reach {isObject : Bool} (isItem : s.isPair = isObject) :
    indent < reach (indent + (markOf isObject).length) s := by
  cases isObject <;> simp [reach, isItem, markOf]

/-- The form of a shape can be told from what follows it. -/
def Cancels (s : Shape) : Prop :=
  ∀ ⦃indent : Nat⦄ ⦃s' : Shape⦄ ⦃rest rest' : List Char⦄, s'.Filled → s.isPair = s'.isPair →
    Dedented (reach indent s) rest → Dedented (reach indent s') rest' →
    s.block indent ++ rest = s'.block indent ++ rest' → s = s' ∧ rest = rest'

/-- A chain begins with a line that is indented as it should be. -/
theorem exists_line {isObject : Bool} {others : List Shape} (filled : s.Filled) (rest : List Char) :
    ∃ c tail, c ≠ ' ' ∧ rows indent (markOf isObject) (blanks indent) (s :: others) ++ rest =
      blanks indent ++ c :: tail := by
  cases isObject with
  | true =>
    -- The rows of an object have no mark, so the line begins as the first pair does.
    obtain ⟨c, tail, starts, notBlank⟩ := filled.starts indent
    refine ⟨c, tail ++ (rows indent [] (blanks indent) others ++ rest), notBlank, ?_⟩
    simp only [rows, markOf, if_true, List.length_nil, Nat.add_zero, starts, List.append_assoc,
      List.nil_append, List.cons_append]
  | false =>
    refine ⟨'-', ' ' :: (block (indent + 2) s ++ (rows indent ['-', ' '] (blanks indent) others ++ rest)),
      by decide, ?_⟩
    simp only [rows, markOf, Bool.false_eq_true, if_false, List.length_cons, List.length_nil, Nat.zero_add,
      Nat.reduceAdd, List.append_assoc, List.cons_append, List.nil_append]

/-- What comes behind a row of a chain is indented less far than the row itself. -/
theorem dedented_rows {isObject : Bool} (filled : ∀ s ∈ shapes, Filled s)
    (dedented : Dedented indent rest) :
    Dedented (indent + 1) (rows indent (markOf isObject) (blanks indent) shapes ++ rest) := by
  cases shapes with
  | nil => exact dedented.mono (Nat.le_succ indent)
  | cons first others =>
    obtain ⟨c, tail, notBlank, same⟩ := exists_line (filled first List.mem_cons_self) rest
    exact .inr ⟨indent, c, tail, Nat.lt_succ_self indent, notBlank, same⟩

/-- The rows of a chain can be told from what follows them. -/
theorem rows_cancel {isObject : Bool} (cancels : ∀ s ∈ shapes, Cancels s)
    (filled : ∀ s ∈ shapes, Filled s) (areItems : ∀ s ∈ shapes, Shape.isPair s = isObject)
    (filled' : ∀ s ∈ shapes', Filled s) (areItems' : ∀ s ∈ shapes', Shape.isPair s = isObject)
    (dedented : Dedented indent rest) (dedented' : Dedented indent rest')
    (same : rows indent (markOf isObject) (blanks indent) shapes ++ rest =
      rows indent (markOf isObject) (blanks indent) shapes' ++ rest') :
    shapes = shapes' ∧ rest = rest' := by
  induction shapes generalizing shapes' with
  | nil =>
    cases shapes' with
    | nil => exact ⟨rfl, same⟩
    | cons first' others' =>
      -- A row that only one of the chains has is a line that is not indented less far.
      obtain ⟨c, tail, -, line⟩ := exists_line (filled' first' List.mem_cons_self) rest'
      exact absurd (same.trans line) dedented.ne_line
  | cons first others ih =>
    cases shapes' with
    | nil =>
      obtain ⟨c, tail, -, line⟩ := exists_line (filled first List.mem_cons_self) rest
      exact absurd (same.symm.trans line) dedented'.ne_line
    | cons first' others' =>
      rw [List.forall_mem_cons] at cancels filled areItems filled' areItems'
      simp only [rows, List.append_assoc, List.append_cancel_left_eq] at same
      -- What follows the first row, whatever it is, is indented less far than the row's own lines.
      obtain ⟨rfl, behind⟩ := cancels.1 filled'.1 (areItems.1.trans areItems'.1.symm)
        ((dedented_rows filled.2 dedented).mono (lt_reach areItems.1))
        ((dedented_rows filled'.2 dedented').mono (lt_reach areItems'.1)) same
      obtain ⟨rfl, rest⟩ := ih cancels.2 filled.2 areItems.2 filled'.2 areItems'.2 behind
      exact ⟨rfl, rest⟩

/-- A pair apart, the kind of a node is known by how it begins, and so is whether it is empty. -/
theorem Filled.kind_unique (filled : s.Filled) (filled' : s'.Filled) (pairs : s.isPair = s'.isPair)
    (same : s.block indent ++ rest = s'.block indent ++ rest') :
    s.label.1 = s'.label.1 ∧ (s.isContainer = true → s.children.isEmpty = s'.children.isEmpty) := by
  have front := (filled.front indent).append rest
  rw [same] at front
  have marks := front.unique ((filled'.front indent).append rest')
  obtain ⟨⟨kind, fields⟩, shapes⟩ := s
  obtain ⟨⟨kind', fields'⟩, shapes'⟩ := s'
  clear filled filled' same front
  cases kind <;> cases kind' <;> cases shapes <;> cases shapes' <;>
    simp_all [mark?, isPair, isContainer, Tree.label, Tree.children]

theorem kindOf_injective {isObject isObject' : Bool} (kinds : kindOf isObject = kindOf isObject') :
    isObject = isObject' := by
  cases isObject <;> cases isObject' <;> first | rfl | cases kinds

theorem isContainer_container (isObject : Bool) :
    Shape.isContainer (.node (kindOf isObject, .empty) shapes) = true := by
  cases isObject <;> rfl

/-- An object or an array with anything in it is the rows of its chain; the first one is not indented. -/
theorem blanks_append_block (isObject : Bool) (some_ : shapes ≠ []) :
    blanks indent ++ block indent (.node (kindOf isObject, .empty) shapes) =
      rows indent (markOf isObject) (blanks indent) shapes := by
  obtain ⟨first, others, rfl⟩ := List.exists_cons_of_ne_nil some_
  cases isObject <;> rfl

/-- A value on its own. -/
def scalarOf (value : List Char) : Shape := .node (.scalar, Dict.ofList [(valueName, String.ofList value)]) []

/-- What stands between the colon of a pair and its value. -/
def valueGap (indent : Nat) (value : Shape) : List Char :=
  if value.children.isEmpty then [' '] else '\n' :: blanks (indent + 2)

/-- A pair of a key and a value. It has a scalar as a field and all else as a child. -/
def pairOf (key : List Char) (value : Shape) : Shape :=
  match value with
  | .node (.scalar, fields) _ =>
    .node (.pair, Dict.ofList
      [(keyField, String.ofList key), (valueName, String.ofList (fieldText fields valueName))]) []
  | value => .node (.pair, Dict.ofList [(keyField, String.ofList key)]) [value]

theorem isPair_pairOf (key : List Char) (value : Shape) : (pairOf key value).isPair = true := by
  obtain ⟨⟨kind, fields⟩, shapes⟩ := value
  cases kind <;> rfl

theorem isPair_of_isContainer (isContainer : s.isContainer = true) : s.isPair = false := by
  obtain ⟨⟨kind, fields⟩, shapes⟩ := s
  cases kind <;> first | rfl | cases isContainer

theorem pairOf_scalarOf (key value : List Char) : pairOf key (scalarOf value) =
    .node (.pair, Dict.ofList [(keyField, String.ofList key), (valueName, String.ofList value)]) [] := by
  rw [scalarOf, pairOf, fieldText_singleton]

theorem pairOf_of_isContainer (key : List Char) (isContainer : s.isContainer = true) :
    pairOf key s = .node (.pair, Dict.ofList [(keyField, String.ofList key)]) [s] := by
  obtain ⟨⟨kind, fields⟩, shapes⟩ := s
  cases kind <;> first | rfl | cases isContainer

/-- A filled pair is made up of a key and a value. -/
theorem Filled.exists_pairOf (filled : s.Filled) (isPair : s.isPair = true) :
    ∃ key value, Lexeme .string key ∧ value.Filled ∧ value.isPair = false ∧ s = pairOf key value := by
  cases filled with
  | scalar _ => cases isPair
  | container isObject _ _ => cases isObject <;> cases isPair
  | @field key value lexeme isValue =>
    exact ⟨key, scalarOf value, lexeme, .scalar isValue, rfl, (pairOf_scalarOf key value).symm⟩
  | @slot key value lexeme filled isContainer =>
    exact ⟨key, value, lexeme, filled, isPair_of_isContainer isContainer,
      (pairOf_of_isContainer key isContainer).symm⟩

/-- A pair shows its key and its value. -/
theorem block_pairOf {key : List Char} {value : Shape} (filled : value.Filled)
    (notPair : value.isPair = false) :
    block indent (pairOf key value) =
      key ++ ':' :: (valueGap indent value ++ block (indent + 2) value) := by
  cases filled with
  | @scalar value _ =>
    rw [← scalarOf, pairOf_scalarOf, block, fieldText_key, valueBlock, fieldText_value]
    rw [scalarOf, block, fieldText_singleton]
    rfl
  | container isObject _ _ =>
    rw [pairOf_of_isContainer key (isContainer_container isObject), block, fieldText_singleton,
      valueBlock, valueGap]
  | field _ _ => cases notPair
  | slot _ _ _ => cases notPair

theorem cancels_scalar {value : List Char} (isValue : IsValue value) : Cancels (scalarOf value) := by
  intro indent s' rest rest' filled' pairs dedented dedented' same
  obtain ⟨kinds, -⟩ := (Filled.scalar isValue).kind_unique filled' pairs same
  -- The token ends where its line ends.
  cases filled' with
  | scalar isValue' =>
    obtain ⟨kind, lexeme, -⟩ := isValue
    obtain ⟨kind', lexeme', -⟩ := isValue'
    simp only [scalarOf, block, fieldText_singleton, List.append_assoc, List.cons_append,
      List.nil_append] at same
    obtain ⟨rfl, behind⟩ := lexeme.cancel lexeme' closed_lineFeed closed_lineFeed same
    exact ⟨rfl, (List.cons.inj behind).2⟩
  | container isObject' _ _ => cases isObject' <;> cases kinds
  | field _ _ => cases kinds
  | slot _ _ _ => cases kinds

theorem cancels_container {isObject : Bool} (areItems : ∀ s ∈ shapes, Shape.isPair s = isObject)
    (filled : ∀ s ∈ shapes, Filled s) (cancels : ∀ s ∈ shapes, Cancels s) :
    Cancels (.node (kindOf isObject, .empty) shapes) := by
  intro indent s' rest rest' filled' pairs dedented dedented' same
  obtain ⟨kinds, empties⟩ := (Filled.container isObject areItems filled).kind_unique filled' pairs same
  have empty := empties (isContainer_container isObject)
  cases filled' with
  | scalar _ => cases isObject <;> cases kinds
  | @container isObject' shapes' areItems' filled' =>
    obtain rfl := kindOf_injective kinds
    by_cases none_ : shapes = []
    · obtain rfl := none_
      obtain rfl : shapes' = [] := by simpa [Tree.children] using empty.symm
      exact ⟨rfl, List.append_cancel_left same⟩
    · have some_ : shapes' ≠ [] := fun empty' => none_ (by simpa [Tree.children, empty'] using empty)
      rw [reach, isPair_container, if_neg Bool.false_ne_true] at dedented dedented'
      -- With the first row indented like the others, both are chains of rows.
      have prefixed := congrArg (blanks indent ++ ·) same
      simp only [← List.append_assoc, blanks_append_block isObject none_,
        blanks_append_block isObject some_] at prefixed
      obtain ⟨rfl, rest⟩ :=
        rows_cancel cancels filled areItems filled' areItems' dedented dedented' prefixed
      exact ⟨rfl, rest⟩
  | field _ _ => cases isObject <;> cases kinds
  | slot _ _ _ => cases isObject <;> cases kinds

theorem cancels_pairOf {key : List Char} {value : Shape} (lexeme : Lexeme .string key) (filled : value.Filled)
    (notPair : value.isPair = false) (cancels : Cancels value) : Cancels (pairOf key value) := by
  intro indent s' rest rest' filled' pairs dedented dedented' same
  rw [isPair_pairOf] at pairs
  obtain ⟨key', value', lexeme', filledValue, notPair', rfl⟩ := filled'.exists_pairOf pairs.symm
  simp only [block_pairOf filled notPair, block_pairOf filledValue notPair', List.append_assoc,
    List.cons_append] at same
  -- The key ends at the colon.
  have closed : ∀ rest, Closed (':' :: rest) := fun rest => Lexer.closed_mark (.inr (.inl rfl))
  obtain ⟨rfl, behind⟩ := lexeme.cancel lexeme' (closed _) (closed _) same
  have behind := (List.cons.inj behind).2
  -- Both values stay on the line of the key, or both start on the next one.
  have gaps : valueGap indent value = valueGap indent value' := by
    revert behind
    rw [valueGap, valueGap]
    split <;> split <;> simp
  rw [gaps, List.append_cancel_left_eq] at behind
  rw [reach, isPair_pairOf, if_pos rfl] at dedented dedented'
  -- What follows the pair is also indented less far than the lines of its value may be.
  have within : ∀ {s : Shape}, s.isPair = false → indent + 1 ≤ reach (indent + 2) s := fun notPair => by
    rw [reach, notPair]
    exact Nat.le_succ (indent + 1)
  obtain ⟨rfl, rest⟩ := cancels filledValue (notPair.trans notPair'.symm)
    (dedented.mono (within notPair)) (dedented'.mono (within notPair')) behind
  exact ⟨rfl, rest⟩

/-- The form of a filled shape can be told from what follows it. -/
theorem Filled.cancels (filled : s.Filled) : Cancels s := by
  induction filled with
  | scalar isValue => exact cancels_scalar isValue
  | container isObject areItems filled ih => exact cancels_container areItems filled ih
  | @field key value lexeme isValue =>
    rw [← pairOf_scalarOf]
    exact cancels_pairOf lexeme (.scalar isValue) rfl (cancels_scalar isValue)
  | @slot key value lexeme filled isContainer ih =>
    rw [← pairOf_of_isContainer key isContainer]
    exact cancels_pairOf lexeme filled (isPair_of_isContainer isContainer) ih

/-- The YAML form of a filled shape tells it apart from all others. -/
theorem Filled.block_injective (filled : s.Filled) (filled' : s'.Filled) (pairs : s.isPair = s'.isPair)
    (same : s.block indent = s'.block indent) : s = s' := by
  have nothing : ∀ s, Dedented (reach indent s) [] := fun s => .inl rfl
  refine (filled.cancels filled' pairs (nothing s) (nothing s') ?_).1
  rw [List.append_nil, List.append_nil, same]

end Shape

/-! ### Documents of one form -/

/-- Isomorphic models with one top-level node each have one shape. -/
theorem Model.Isomorphism.shapesAt_root {image : Key → Key} {r r' : Key}
    (iso : Model.Isomorphism m m' image)
    (sound : m.Sound) (sound' : m'.Sound) (single : m.roots = [r]) (single' : m'.roots = [r']) :
    m'.shapesAt (some r') = m.shapesAt (some r) := by
  have root : r ∈ m.roots := single ▸ List.mem_singleton_self r
  obtain rfl : image r = r' := by
    -- The one top-level node goes to the other.
    have image_ : image r ∈ m'.sortedRoots :=
      iso.sortedRoots ▸ List.mem_map_of_mem (mem_sortedRoots.2 root)
    simpa [single'] using mem_sortedRoots.1 image_
  refine sound.shapesAt_image sound'.toLinked iso.holds (fun held => ?_) (fun held e => ?_)
    (sound.holds_root root)
  · rw [Model.contentOf, Model.contentOf, iso.kind held, Dict.ext_get? (iso.field held)]
  · cases e with
    | child => exact iso.head held
    | next => exact iso.next held

/-- The YAML form of a document tells just what its snapshot tells: two texts that are read have the same
form if and only if their snapshots have the same text. -/
theorem yaml_eq_iff_text_snapshot_eq {source source' : String} {file file' : Json}
    {supply supply' count count' : Nat} (built : Model.build source file supply = .ok (m, count))
    (built' : Model.build source' file' supply' = .ok (m', count')) (indent : Option Json.Indent) :
    ∃ yaml yaml', m.yaml = .ok yaml ∧ m'.yaml = .ok yaml' ∧
      (yaml = yaml' ↔ m.snapshot.text indent = m'.snapshot.text indent) := by
  have sound := Model.sound_of_build built
  have sound' := Model.sound_of_build built'
  obtain ⟨r, shape, single, shapes, filled, notPair, shown⟩ := exists_yaml_of_build built
  obtain ⟨r', shape', single', shapes', filled', notPair', shown'⟩ := exists_yaml_of_build built'
  refine ⟨_, _, shown, shown', fun same => ?_, fun same => ?_⟩
  · -- One form comes from one shape, and the shape is all that a snapshot tells.
    have same := filled.block_injective filled' (notPair.trans notPair'.symm) (String.ofList_injective same)
    exact text_snapshot_congr sound sound' single single' (by rw [shapes, shapes', same]) indent
  · -- Alike snapshots are of isomorphic models, and these have one shape.
    obtain ⟨image, iso⟩ :=
      exists_isomorphism_of_records sound sound' (records_eq_of_text_eq sound sound' same)
    have same := iso.shapesAt_root sound sound' single single'
    rw [shapes, shapes', List.singleton_inj] at same
    rw [same]

/-- An array on one line and spread over two has one form. Two items in one inner array, and in two, have
two forms, so that their snapshots have two texts. -/
theorem yaml_eq_iff_text_snapshot_eq_nested :
    (readIn "[[1, 2], [ ]]" 0).model.yaml = (readIn "[ [1,2],\n[] ]" 7).model.yaml ∧
      (readIn "[[1, 2]]" 0).model.snapshot.text none ≠
        (readIn "[[1], [2]]" 0).model.snapshot.text none := by
  constructor
  · have words : Lexer.words "[[1, 2], [ ]]" .null = Lexer.words "[ [1,2],\n[] ]" .null := by decide +kernel
    have built : Model.build "[[1, 2], [ ]]" .null 0 = .ok (_, _) := build_eq_readIn (by decide +kernel)
    have built' : Model.build "[ [1,2],\n[] ]" .null 7 = .ok (_, _) := build_eq_readIn (by decide +kernel)
    have records := records_eq_of_words built built' words
    obtain ⟨yaml, yaml', shown, shown', iff⟩ := yaml_eq_iff_text_snapshot_eq built built' none
    rw [shown, shown', iff.2 (by rw [Snapshot.text, Snapshot.text, Snapshot.lines, Snapshot.lines, records])]
  · have built : Model.build "[[1, 2]]" .null 0 = .ok (_, _) := build_eq_readIn (by decide +kernel)
    have built' : Model.build "[[1], [2]]" .null 0 = .ok (_, _) := build_eq_readIn (by decide +kernel)
    obtain ⟨yaml, yaml', shown, shown', iff⟩ := yaml_eq_iff_text_snapshot_eq built built' none
    have known : (readIn "[[1, 2]]" 0).model.yaml = .ok "- - 1\n  - 2\n" := by decide +kernel
    have known' : (readIn "[[1], [2]]" 0).model.yaml = .ok "- - 1\n- - 2\n" := by decide +kernel
    intro same
    have yamls := iff.2 same
    rw [known] at shown
    rw [known'] at shown'
    rw [← Except.ok.inj shown, ← Except.ok.inj shown'] at yamls
    exact absurd yamls (by decide)

end DocSync
