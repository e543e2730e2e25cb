import DocSync.Proofs.Render.Document
import DocSync.Proofs.Snapshot.Canonical
import DocSync.Proofs.Patch.Shaped
import DocSync.Render.Yaml

/-!
The YAML form of a document. It is made from the shape of the document alone: of its frames and of the
blanks in its text nothing is left.
-/

namespace DocSync

open Lexer (Lexeme)

variable {m : Model} {text text' : List Char} {s : Shape} {count supply : Nat} {file : Json}

/-! ### The YAML form of a shape -/

/-- So many blanks. -/
def blanks (width : Nat) : List Char := List.replicate width ' '

namespace Shape

/-- The text of a field; a field that is not there has none. -/
def fieldText (fields : Dict String) (name : String) : List Char := ((fields.get? name).getD "").toList

mutual
/-- A shape as YAML behind what opens its first line. Its other lines are indented. -/
def block (indent : Nat) : Shape → List Char
  | .node (kind, fields) shapes =>
    match kind with
    | .scalar => fieldText fields valueName ++ ['\n']
    | .pair => fieldText fields keyField ++ ':' :: valueBlock indent fields shapes
    | .object => if shapes.isEmpty then ['\x7b', '\x7d', '\n'] else rows indent [] [] shapes
    | .array => if shapes.isEmpty then ['[', ']', '\n'] else rows indent ['-', ' '] [] shapes

/-- What a pair shows behind its colon. -/
def valueBlock (indent : Nat) (fields : Dict String) : List Shape → List Char
  | [] => ' ' :: (fieldText fields valueName ++ ['\n'])
  | head :: _ =>
    (if head.children.isEmpty then [' '] else '\n' :: blanks (indent + 2)) ++ block (indent + 2) head

/-- The rows of a chain, each opened by a mark; the first one continues `lead`. -/
def rows (indent : Nat) (mark lead : List Char) : List Shape → List Char
  | [] => []
  | first :: rest =>
    lead ++ (mark ++ (block (indent + mark.length) first ++ rows indent mark (blanks indent) rest))
end

/-- What is empty is written alike however far it is indented. -/
theorem block_of_isEmpty (empty : s.children.isEmpty = true) (indent indent' : Nat) :
    s.block indent = s.block indent' := by
  obtain ⟨⟨kind, fields⟩, shapes⟩ := s
  obtain rfl : shapes = [] := List.isEmpty_iff.1 empty
  cases kind <;> rfl

/-- A shape each of whose nodes has the fields and the children that its kind asks for. -/
inductive Filled : Shape → Prop
  | scalar {value : List Char} : IsValue value →
    Filled (.node (.scalar, Dict.ofList [(valueName, String.ofList value)]) [])
  | container (isObject : Bool) {shapes : List Shape} : (∀ s ∈ shapes, Shape.isPair s = isObject) →
    (∀ s ∈ shapes, Filled s) → Filled (.node (kindOf isObject, .empty) shapes)
  | field {key value : List Char} : Lexeme .string key → IsValue value →
    Filled (.node (.pair, Dict.ofList
      [(keyField, String.ofList key), (valueName, String.ofList value)]) [])
  | slot {key : List Char} {s : Shape} : Lexeme .string key → Filled s → Shape.isContainer s = true →
    Filled (.node (.pair, Dict.ofList [(keyField, String.ofList key)]) [s])

end Shape

/-- What a text says is a shape whose nodes have what they need. -/
theorem Reads.filled {spacing : List (List Char) → Prop} (reads : Reads spacing text s) : s.Filled := by
  induction reads with
  | scalar lexeme isScalar => exact .scalar ⟨_, lexeme, isScalar⟩
  -- Of the blanks between the tokens, and of those between empty brackets, nothing is kept.
  | empty isObject _ => exact .container isObject (List.forall_mem_nil _) (List.forall_mem_nil _)
  | @container isObject _ _ _ _ rest _ _ _ _ areItems _ ih =>
    rw [List.forall_mem_cons] at areItems ih
    refine .container isObject (List.forall_mem_cons.2 ⟨areItems.1, ?_⟩)
      (List.forall_mem_cons.2 ⟨ih.1, ?_⟩)
    · exact List.forall_mem_map.2 areItems.2
    · exact List.forall_mem_map.2 ih.2
  | field keyed _ valued isScalar => exact .field keyed ⟨_, valued, isScalar⟩
  | slot keyed _ _ isContainer ih => exact .slot keyed ih isContainer

/-! ### The lines of a model are those of its shape -/

namespace Yaml

theorem ofLines_append (first others : List String) :
    ofLines (first ++ others) = ofLines first ++ ofLines others := by
  rw [ofLines, ofLines, ofLines, List.map_append, String.join_append]

theorem toList_ofLines_singleton (line : String) : (ofLines [line]).toList = line.toList ++ ['\n'] := by
  simp [ofLines, String.join]

theorem toList_spaces (width : Nat) : (spaces width).toList = DocSync.blanks width := String.toList_ofList

/-- What a run gives: lines that make up a text. -/
def Gives (run : Except RenderError (List String)) (text : List Char) : Prop :=
  ∃ lines, run = .ok lines ∧ (ofLines lines).toList = text

theorem Gives.append {run others : Except RenderError (List String)} (first : Gives run text)
    (second : Gives others text') :
    Gives (do return (← run) ++ (← others)) (text ++ text') := by
  obtain ⟨lines, rfl, rfl⟩ := first
  obtain ⟨lines', rfl, rfl⟩ := second
  exact ⟨lines ++ lines', rfl, by rw [ofLines_append, String.toList_append]⟩

theorem gives_line (line : String) : Gives (.ok [line]) (line.toList ++ ['\n']) :=
  ⟨[line], rfl, toList_ofLines_singleton line⟩

/-- The lines of a chain, where those of its trees are known. -/
theorem gives_chainLines {mark : String} {trees : List (Tree Key)}
    (each : ∀ tree ∈ trees, ∀ indent lead, Gives (lines m indent lead tree)
      (lead.toList ++ Shape.block indent (tree.map m.contentOf))) (lead : String) :
    Gives (chainLines m indent mark lead trees)
      (Shape.rows indent mark.toList lead.toList (trees.map (Tree.map m.contentOf))) := by
  induction trees generalizing lead with
  | nil => exact ⟨[], rfl, rfl⟩
  | cons tree rest ih =>
    rw [List.forall_mem_cons] at each
    -- The first row goes on behind the lead, and the others behind an indentation.
    have first := each.1 (indent + mark.length) (lead ++ mark)
    have both := first.append (ih each.2 (spaces indent))
    rw [toList_spaces, String.toList_append, List.append_assoc, List.append_assoc] at both
    rw [List.map_cons, Shape.rows, chainLines, String.length_toList]
    exact both

/-- Whether a value stays on the line of its key: a scalar does, and what is empty. -/
def staysOnLine (m : Model) : Tree Key → Bool
  | .node k children =>
    match (m.node k).kind with
    | .scalar => true
    | .pair => false
    | .object | .array => children.isEmpty

/-- The value of a pair has its own lines, behind the key or below it. -/
theorem valueLines_cons (pair : Node) (indent : Nat) (opened : String) (head : Tree Key)
    (rest : List (Tree Key)) :
    valueLines m pair indent opened (head :: rest) =
      if staysOnLine m head then lines m indent (opened ++ " ") head
      else do return [opened] ++ (← lines m (indent + step) (spaces (indent + step)) head) := by
  obtain ⟨c, below⟩ := head
  rw [valueLines, staysOnLine]
  cases kind : (m.node c).kind <;> cases below <;>
    simp [Tree.label, Tree.children, kind, empty?, Kind.brackets?, lines]

section Kinds

variable {k : Key} {children : List (Tree Key)}

theorem gives_scalar {value : List Char}
    (content : m.contentOf k = (.scalar, Dict.ofList [(valueName, String.ofList value)]))
    (indent : Nat) (lead : String) : Gives (lines m indent lead (.node k children))
      (lead.toList ++ Shape.block indent (.node (m.contentOf k) [])) := by
  have kind : (m.node k).kind = .scalar := congrArg Prod.fst content
  have fields : (m.node k).fields = _ := congrArg Prod.snd content
  have line := gives_line (lead ++ String.ofList value)
  rw [lines]
  simp only [kind, Node.scalarText, fields, Dict.get?_ofList_singleton]
  simpa [content, Shape.block, Shape.fieldText, pure, Except.pure, bind, Except.bind] using line

/-- An object or an array has a line of its brackets, or the lines of its chain. -/
theorem gives_container {isObject : Bool} (content : m.contentOf k = (kindOf isObject, .empty))
    (each : ∀ tree ∈ children, ∀ indent lead, Gives (lines m indent lead tree)
      (lead.toList ++ Shape.block indent (tree.map m.contentOf))) (indent : Nat) (lead : String) :
    Gives (lines m indent lead (.node k children))
      (lead.toList ++ Shape.block indent (.node (m.contentOf k) (children.map (Tree.map m.contentOf)))) := by
  have kind : (m.node k).kind = kindOf isObject := congrArg Prod.fst content
  have empty : ∀ brackets : String, Gives (.ok [lead ++ brackets])
      (lead.toList ++ (brackets.toList ++ ['\n'])) := fun brackets => by
    have line := gives_line (lead ++ brackets)
    rwa [String.toList_append, List.append_assoc] at line
  -- The first row goes on behind what opens the whole.
  have opened : ∀ mark : String, children ≠ [] → Gives (chainLines m indent mark lead children)
      (lead.toList ++ Shape.rows indent mark.toList [] (children.map (Tree.map m.contentOf))) := by
    intro mark some_
    have chain : Gives (chainLines m indent mark lead children) _ := gives_chainLines each lead
    obtain ⟨first, rest, rfl⟩ := List.exists_cons_of_ne_nil some_
    exact chain
  rw [lines, content]
  -- An object and an array differ in their brackets and in the mark of their rows.
  cases isObject with
  | true =>
    simp only [kind, kindOf, if_true, Shape.block, List.isEmpty_map]
    by_cases none_ : children = []
    · rw [none_]
      exact empty "\x7b\x7d"
    · rw [if_neg (by simpa using none_), if_neg (by simpa using none_)]
      exact opened "" none_
  | false =>
    simp only [kind, kindOf, Bool.false_eq_true, if_false, Shape.block, List.isEmpty_map]
    by_cases none_ : children = []
    · rw [none_]
      exact empty "[]"
    · rw [if_neg (by simpa using none_), if_neg (by simpa using none_)]
      exact opened "- " none_

theorem gives_field {key value : List Char} (content : m.contentOf k = (.pair, Dict.ofList
      [(keyField, String.ofList key), (valueName, String.ofList value)])) (indent : Nat) (lead : String) :
    Gives (lines m indent lead (.node k []))
      (lead.toList ++ Shape.block indent (.node (m.contentOf k) [])) := by
  have kind : (m.node k).kind = .pair := congrArg Prod.fst content
  have fields : (m.node k).fields = _ := congrArg Prod.snd content
  have line := gives_line (lead ++ String.ofList key ++ ":" ++ " " ++ String.ofList value)
  rw [lines]
  simp only [kind, fields, get?_keyField, valueLines, get?_valueName]
  simpa [content, Shape.block, Shape.valueBlock, Shape.fieldText, pure, Except.pure] using line

/-- The value of a pair is empty and stays on the line of the key, or it starts on the next one. -/
theorem gives_slot {key : List Char} {tree : Tree Key}
    (content : m.contentOf k = (.pair, Dict.ofList [(keyField, String.ofList key)]))
    (isContainer : Shape.isContainer (tree.map m.contentOf) = true)
    (value : ∀ indent lead, Gives (lines m indent lead tree)
      (lead.toList ++ Shape.block indent (tree.map m.contentOf))) (indent : Nat) (lead : String) :
    Gives (lines m indent lead (.node k [tree]))
      (lead.toList ++ Shape.block indent (.node (m.contentOf k) [tree.map m.contentOf])) := by
  have kind : (m.node k).kind = .pair := congrArg Prod.fst content
  have fields : (m.node k).fields = _ := congrArg Prod.snd content
  -- No scalar hangs on a pair, so that just what is empty stays.
  have stays : staysOnLine m tree = (tree.map m.contentOf).children.isEmpty := by
    obtain ⟨c, below⟩ := tree
    rw [Tree.map, Tree.mapAll_eq_map] at isContainer ⊢
    rw [staysOnLine, Tree.children, List.isEmpty_map]
    cases kindC : (m.node c).kind <;>
      simp [Shape.isContainer, Tree.label, Model.contentOf, kindC] at isContainer ⊢
  rw [lines]
  simp only [kind, fields, Dict.get?_ofList_singleton, valueLines_cons, stays]
  simp only [content, Shape.block, Shape.valueBlock, Shape.fieldText, Dict.get?_ofList_singleton,
    Option.getD_some, String.toList_ofList]
  cases empty : (tree.map m.contentOf).children.isEmpty with
  | true =>
    have line := value indent (lead ++ String.ofList key ++ ":" ++ " ")
    rw [Shape.block_of_isEmpty empty indent (indent + 2)] at line
    simpa using line
  | false =>
    -- The key has a line of its own.
    have both := (gives_line (lead ++ String.ofList key ++ ":")).append
      (value (indent + step) (spaces (indent + step)))
    rw [toList_spaces] at both
    simpa [step, bind, Except.bind, pure, Except.pure] using both

end Kinds

end Yaml

/-- A filled shape is written as its YAML form. -/
theorem Shape.Filled.gives (filled : s.Filled) : ∀ (tree : Tree Key), tree.map m.contentOf = s →
    ∀ indent lead, Yaml.Gives (Yaml.lines m indent lead tree) (lead.toList ++ s.block indent) := by
  induction filled with
  | scalar _ =>
    rintro ⟨k, children⟩ same
    obtain ⟨content, -⟩ := Tree.node.inj same
    exact content ▸ Yaml.gives_scalar content
  | container isObject _ _ ih =>
    rintro ⟨k, children⟩ same
    rw [Tree.map, Tree.node.injEq, Tree.mapAll_eq_map] at same
    obtain ⟨content, rfl⟩ := same
    exact content ▸ Yaml.gives_container content fun tree inside =>
      ih _ (List.mem_map_of_mem inside) tree rfl
  | field _ _ =>
    rintro ⟨k, children⟩ same
    rw [Tree.map, Tree.node.injEq, Tree.mapAll_eq_map, List.map_eq_nil_iff] at same
    obtain ⟨content, rfl⟩ := same
    exact content ▸ Yaml.gives_field content
  | slot _ _ isContainer ih =>
    rintro ⟨k, children⟩ same
    rw [Tree.map, Tree.node.injEq, Tree.mapAll_eq_map, List.map_eq_singleton_iff] at same
    obtain ⟨content, tree, rfl, rfl⟩ := same
    exact content ▸ Yaml.gives_slot content isContainer (ih tree rfl)

/-! ### The YAML form of a document -/

/-- A document's YAML form is that of its shape, and its shape tells its snapshot's text. -/
theorem exists_yaml_of_build {source : String} (built : Model.build source file supply = .ok (m, count)) :
    ∃ r shape, m.roots = [r] ∧ m.shapesAt (some r) = [shape] ∧ shape.Filled ∧ shape.isPair = false ∧
      m.yaml = .ok (String.ofList (shape.block 0)) := by
  have sound := Model.sound_of_build built
  obtain ⟨r, shaped, notPair⟩ := Model.documentShaped_of_build built
  obtain ⟨_, shape, _, ⟨⟨_, _, _, _, _, _, reads⟩, notPair⟩, shapes⟩ :=
    shaped.exists_render sound blank_default notPair
  refine ⟨r, shape, shaped.single, shapes, reads.filled, notPair, ?_⟩
  -- The document is one tree, for nothing follows its top-level node.
  have same : (m.tree r).map m.contentOf = shape := by
    have trees := shapes
    rw [Model.shapesAt, sound.treesAt_some (sound.holds_root (by simp [shaped.single])), shaped.alone,
      Model.treesAt_none, Tree.mapAll, Tree.mapAll] at trees
    exact (List.cons.inj trees).1
  obtain ⟨lines, written, text⟩ := reads.filled.gives (m.tree r) same 0 ""
  have yaml : m.yaml = .ok (Yaml.ofLines lines) := by
    rw [Model.yaml, shaped.single, List.mapM_cons, List.mapM_nil, Model.yamlSubtree, written]
    rfl
  rw [yaml, ← String.ofList_toList (s := Yaml.ofLines lines), text]
  rfl

end DocSync
