import Mathlib.Data.List.Flatten
import DocSync.Proofs.Render.BlockStyle
import DocSync.Proofs.Render.SourceFields

/-!
The fields that the YAML form of a model shows. It follows the top-level nodes and from each node its
children, but of the chain that hangs on a pair only the head, and nothing behind a top-level node. What it
shows is in document order, and nothing of a node that it does not come to matters to it.
-/

namespace DocSync

namespace Model

variable {m : Model} {k j : Key} {words : Key → String → String} {nodes nodes' : List Key}
  {fields fields' : List (Key × String)}
  {run run' : (Key → String → String) → Except RenderError (List String)} {opening : List Piece}

/-- The children of a node that its lines go on to. -/
def yamlChildren (m : Model) (k : Key) : List Key :=
  if (m.node k).kind = .pair then (m.children k).take 1 else m.children k

/-- The YAML form comes to a node from a top-level one. -/
def InYaml (m : Model) (j : Key) : Prop :=
  ∃ r ∈ m.roots, Relation.ReflTransGen (fun a b => b ∈ m.yamlChildren a) r j

/-- What writing lines comes to, whatever stands in the fields: the lines show these fields, or one of the
nodes lacks something. -/
def Writes (m : Model) (run : (Key → String → String) → Except RenderError (List String))
    (fields : List (Key × String)) (nodes : List Key) : Prop :=
  ((∀ j ∈ nodes, m.lack? j = none) ∧ ∃ pieces, Piece.fields pieces = fields ∧
    ∀ words, Yaml.Gives (run words) (Piece.fill words pieces)) ∨
  ∃ j ∈ nodes, ∃ e, m.lack? j = some e ∧ ∀ words, run words = .error e

theorem Writes.append (first : m.Writes run fields nodes) (second : m.Writes run' fields' nodes') :
    m.Writes (fun words => do return (← run words) ++ (← run' words)) (fields ++ fields')
      (nodes ++ nodes') := by
  rcases first with ⟨fine, pieces, rfl, gives⟩ | ⟨j, inside, e, lacks, failed⟩
  · rcases second with ⟨fine', pieces', rfl, gives'⟩ | ⟨j, inside, e, lacks, failed⟩
    · refine .inl ⟨List.forall_mem_append.2 ⟨fine, fine'⟩, pieces ++ pieces', Piece.fields_append, ?_⟩
      intro words
      rw [Piece.fill_append]
      exact (gives words).append (gives' words)
    · -- The first lines are written, and then the others fail.
      refine .inr ⟨j, List.mem_append_right nodes inside, e, lacks, fun words => ?_⟩
      obtain ⟨lines, given, -⟩ := gives words
      simp only [given, failed]
      rfl
  · -- A failure of the first lines is that of the whole.
    refine .inr ⟨j, List.mem_append_left nodes' inside, e, lacks, fun words => ?_⟩
    simp only [failed]
    rfl

theorem Writes.cons (fine : m.lack? k = none) (writes : m.Writes run fields nodes) :
    m.Writes run fields (k :: nodes) := by
  rcases writes with ⟨others, shown⟩ | ⟨j, inside, lacks⟩
  · exact .inl ⟨List.forall_mem_cons.2 ⟨fine, others⟩, shown⟩
  · exact .inr ⟨j, List.mem_cons_of_mem k inside, lacks⟩

/-- One line that is made of pieces. -/
theorem writes_line (fine : ∀ j ∈ nodes, m.lack? j = none) (pieces : List Piece)
    (written : ∀ words, run words = .ok [Piece.put words pieces]) :
    m.Writes run (Piece.fields pieces) nodes := by
  refine .inl ⟨fine, pieces ++ [.fixed ['\n']], by simp, fun words => ?_⟩
  rw [written, Piece.fill_append]
  simpa [Piece.put] using Yaml.gives_line (Piece.put words pieces)

/-- What the lines of a node tell is what these nodes have to show, behind whatever opens the first line. -/
def LinesTell (m : Model) (k : Key) (nodes : List Key) : Prop :=
  ∀ indent opening, m.Writes
    (fun words => Yaml.lines (m.respelled words) indent (Piece.put words opening) (m.tree k))
    (Piece.fields opening ++ nodes.flatMap m.fieldsOf) nodes

/-- The lines of a chain tell, one child after another, what the lines of its children tell. -/
theorem writes_chainLines {children : List Key} {nodesOf : Key → List Key}
    (each : ∀ c ∈ children, m.LinesTell c (nodesOf c)) (indent : Nat) (mark : String)
    (some_ : children ≠ []) (opening : List Piece) :
    m.Writes (fun words => Yaml.chainLines (m.respelled words) indent mark (Piece.put words opening)
      (children.map m.tree)) (Piece.fields opening ++ (children.flatMap nodesOf).flatMap m.fieldsOf)
      (children.flatMap nodesOf) := by
  induction children generalizing opening with
  | nil => exact absurd rfl some_
  | cons first rest ih =>
    rw [List.forall_mem_cons] at each
    -- The mark of the row is one more thing that opens its first line.
    have head := each.1 (indent + mark.length) (opening ++ [.fixed mark.toList])
    have others : m.Writes (fun words => Yaml.chainLines (m.respelled words) indent mark
        (Yaml.spaces indent) (rest.map m.tree)) ((rest.flatMap nodesOf).flatMap m.fieldsOf)
        (rest.flatMap nodesOf) := by
      by_cases none_ : rest = []
      · rw [none_]
        exact .inl ⟨by simp, [], rfl, fun words => ⟨[], rfl, rfl⟩⟩
      · have behind := ih each.2 none_ [.fixed (Yaml.spaces indent).toList]
        simpa using behind
    have both := head.append others
    simp only [Piece.put_append, Piece.put_fixed, Piece.put_nil, String.ofList_toList, String.append_empty,
      Piece.fields_append, Piece.fields_fixed, Piece.fields_nil, List.append_nil] at both
    rw [List.flatMap_cons, List.flatMap_append, ← List.append_assoc]
    exact both

section Kinds

variable {nodesOf : Key → List Key}

/-- A scalar has one line, if it has a value. -/
theorem lines_scalar (kind : (m.node k).kind = .scalar) (indent : Nat) (lead : String)
    (children : List (Tree Key)) : Yaml.lines (m.respelled words) indent lead (.node k children) =
      if ((m.node k).fields.get? valueName).isSome then .ok [lead ++ words k valueName]
      else .error (.scalarWithoutValue (m.node k).id) := by
  rw [Yaml.lines]
  cases valued : (m.node k).fields.get? valueName <;>
    simp [node_respelled, kind, Node.scalarText, valued, bind, Except.bind, pure, Except.pure]

/-- The lines of a scalar tell its value. -/
theorem linesTell_scalar (kind : (m.node k).kind = .scalar) : m.LinesTell k [k] := by
  intro indent opening
  simp only [tree_eq, lines_scalar kind]
  cases valued : ((m.node k).fields.get? valueName).isSome with
  | false =>
    exact .inr ⟨k, List.mem_singleton_self k, .scalarWithoutValue (m.node k).id,
      by simp [lack?, kind, Option.isSome_eq_false_iff.1 valued], fun _ => rfl⟩
  | true =>
    have fine : ∀ j ∈ [k], m.lack? j = none := by
      simpa [lack?, kind, Option.isSome_iff_ne_none] using valued
    have line := writes_line fine (opening ++ [.field k valueName]) fun _ => rfl
    simpa [fieldsOf, kind] using line

/-- An object or an array has the lines of its chain, or one line if it is empty. -/
theorem exists_lines_container (kind : (m.node k).kind = .object ∨ (m.node k).kind = .array) :
    ∃ brackets mark, ∀ words indent lead children,
      Yaml.lines (m.respelled words) indent lead (.node k children) =
        if children.isEmpty then .ok [lead ++ brackets]
        else Yaml.chainLines (m.respelled words) indent mark lead children := by
  rcases kind with kind | kind
  · refine ⟨"\x7b\x7d", "", fun words indent lead children => ?_⟩
    rw [Yaml.lines]
    simp [node_respelled, kind, Yaml.empty?, Kind.brackets?, pure, Except.pure]
  · refine ⟨"[]", "- ", fun words indent lead children => ?_⟩
    rw [Yaml.lines]
    simp [node_respelled, kind, Yaml.empty?, Kind.brackets?, pure, Except.pure]

/-- The lines of an object or an array tell what those of its children tell. -/
theorem linesTell_container (kind : (m.node k).kind = .object ∨ (m.node k).kind = .array)
    (tree : m.tree k = .node k ((m.children k).map m.tree))
    (each : ∀ c ∈ m.children k, m.LinesTell c (nodesOf c)) :
    m.LinesTell k (k :: (m.children k).flatMap nodesOf) := by
  intro indent opening
  obtain ⟨brackets, mark, written⟩ := exists_lines_container kind
  have fine : m.lack? k = none := by rcases kind with kind | kind <;> simp [lack?, kind]
  have own : m.fieldsOf k = [] := fieldsOf_eq_nil_iff.2 kind
  rw [List.flatMap_cons, own, List.nil_append]
  simp only [tree, written, List.isEmpty_map]
  by_cases childless : m.children k = []
  · have line := writes_line (List.forall_mem_singleton.2 fine) (opening ++ [.fixed brackets.toList])
      fun _ => rfl
    simpa [childless] using line
  · -- The node itself lacks nothing, whatever is in it.
    have chain := writes_chainLines each indent mark childless opening
    have none_ : (m.children k).isEmpty = false := by simpa using childless
    simp only [none_, Bool.false_eq_true, if_false]
    exact chain.cons fine

/-- A pair has the lines of its value behind its key, if it has one. -/
theorem lines_pair (kind : (m.node k).kind = .pair) (indent : Nat) (lead : String)
    (children : List (Tree Key)) : Yaml.lines (m.respelled words) indent lead (.node k children) =
      if ((m.node k).fields.get? keyField).isSome then
        Yaml.valueLines (m.respelled words) ((m.respelled words).node k) indent
          (lead ++ words k keyField ++ ":") children
      else .error (.pairWithoutKey (m.node k).id) := by
  rw [Yaml.lines]
  cases keyed : (m.node k).fields.get? keyField <;>
    simp [node_respelled, kind, keyed, throw, throwThe, MonadExceptOf.throw]

/-- A pair on which nothing hangs has one line, if it has a value. -/
theorem valueLines_nil (indent : Nat) (opened : String) :
    Yaml.valueLines (m.respelled words) ((m.respelled words).node k) indent opened [] =
      if ((m.node k).fields.get? valueName).isSome then .ok [opened ++ " " ++ words k valueName]
      else .error (.pairWithoutValue (m.node k).id) := by
  rw [Yaml.valueLines]
  cases valued : (m.node k).fields.get? valueName <;>
    simp [node_respelled, valued, throw, throwThe, MonadExceptOf.throw, pure, Except.pure]

theorem staysOnLine_respelled (tree : Tree Key) :
    Yaml.staysOnLine (m.respelled words) tree = Yaml.staysOnLine m tree := by
  obtain ⟨c, below⟩ := tree
  rw [Yaml.staysOnLine, Yaml.staysOnLine, node_respelled]

/-- A pair on which nothing hangs tells its own value, if it has one. -/
theorem writes_valueLines_nil (kind : (m.node k).kind = .pair) (childless : m.children k = [])
    (keyed : ((m.node k).fields.get? keyField).isSome = true) (indent : Nat) (opening : List Piece) :
    m.Writes (fun words => Yaml.valueLines (m.respelled words) ((m.respelled words).node k) indent
      (Piece.put words opening) []) (Piece.fields opening ++ [(k, valueName)]) [k] := by
  simp only [valueLines_nil]
  cases valued : ((m.node k).fields.get? valueName).isSome with
  | false =>
    refine .inr ⟨k, List.mem_singleton_self k, .pairWithoutValue (m.node k).id, ?_, fun _ => rfl⟩
    simp [lack?, kind, childless, Option.isSome_iff_ne_none.1 keyed, Option.isSome_eq_false_iff.1 valued]
  | true =>
    have fine : ∀ j ∈ [k], m.lack? j = none := List.forall_mem_singleton.2
      (lack?_eq_none_iff.2 ⟨by simp [kind], fun _ => ⟨keyed, fun _ => valued⟩⟩)
    have line := writes_line fine (opening ++ [.fixed " ".toList, .field k valueName]) fun _ => rfl
    simpa [String.append_assoc] using line

/-- A pair on which something hangs tells what the first node of that tells, and nothing of the rest. -/
theorem writes_valueLines_cons {c : Key} (tell : m.LinesTell c nodes) (indent : Nat)
    (opening : List Piece) (rest : List (Tree Key)) :
    m.Writes (fun words => Yaml.valueLines (m.respelled words) ((m.respelled words).node k) indent
      (Piece.put words opening) (m.tree c :: rest)) (Piece.fields opening ++ nodes.flatMap m.fieldsOf)
      nodes := by
  simp only [Yaml.valueLines_cons, staysOnLine_respelled]
  cases Yaml.staysOnLine m (m.tree c) with
  | true =>
    have value := tell indent (opening ++ [.fixed " ".toList])
    simpa using value
  | false =>
    -- The line of the key comes to no node of its own.
    have line : m.Writes (fun words => .ok [Piece.put words opening]) (Piece.fields opening) [] :=
      writes_line (by simp) opening fun _ => rfl
    have value := tell (indent + Yaml.step) [.fixed (Yaml.spaces (indent + Yaml.step)).toList]
    have both := line.append value
    simp only [Piece.put_fixed, Piece.put_nil, String.ofList_toList, String.append_empty,
      Piece.fields_fixed, Piece.fields_nil, List.nil_append] at both
    exact both

/-- The lines of a pair tell its key and its value: its own, or that of the first node that hangs on it. -/
theorem linesTell_pair (kind : (m.node k).kind = .pair)
    (tree : m.tree k = .node k ((m.children k).map m.tree))
    (empty : (m.children k).isEmpty = (m.node k).head.isNone)
    (each : ∀ c ∈ m.yamlChildren k, m.LinesTell c (nodesOf c)) :
    m.LinesTell k (k :: (m.yamlChildren k).flatMap nodesOf) := by
  intro indent opening
  simp only [tree, lines_pair kind]
  cases keyed : ((m.node k).fields.get? keyField).isSome with
  | false =>
    exact .inr ⟨k, List.mem_cons_self, .pairWithoutKey (m.node k).id,
      by simp [lack?, kind, Option.isSome_eq_false_iff.1 keyed], fun _ => rfl⟩
  | true =>
    -- What opens the value is the key with its colon.
    obtain ⟨opened, written, told⟩ : ∃ opened,
        (∀ words, Piece.put words opened = Piece.put words opening ++ words k keyField ++ ":") ∧
          Piece.fields opened = Piece.fields opening ++ [(k, keyField)] :=
      ⟨opening ++ [.field k keyField, .fixed ":".toList],
        fun words => by simp [String.append_assoc], by simp⟩
    cases children : m.children k with
    | nil =>
      have followed : m.yamlChildren k = [] := by simp [yamlChildren, children]
      have own : m.fieldsOf k = [(k, keyField), (k, valueName)] := by
        rw [children, List.isEmpty_nil] at empty
        simp [fieldsOf, kind, ← empty]
      have value := writes_valueLines_nil kind children keyed indent opened
      simpa [written, told, followed, own] using value
    | cons c rest =>
      have followed : m.yamlChildren k = [c] := by rw [yamlChildren, if_pos kind, children]; rfl
      have own : m.fieldsOf k = [(k, keyField)] := by
        rw [children, List.isEmpty_cons] at empty
        simp [fieldsOf, kind, ← empty]
      have fine : m.lack? k = none :=
        lack?_eq_none_iff.2 ⟨by simp [kind], fun _ => ⟨keyed, by simp [children]⟩⟩
      rw [followed, List.forall_mem_singleton] at each
      have value := writes_valueLines_cons (k := k) each indent opened (rest.map m.tree)
      simpa [written, told, followed, own] using value.cons fine

end Kinds

/-- The nodes that the lines of a node come to are those that its YAML children lead to. -/
theorem exists_linesTell (sound : m.Sound) (held : m.Holds k) :
    ∃ nodes, nodes.Sublist (m.subtree k) ∧
      (∀ j, j ∈ nodes ↔ Relation.ReflTransGen (fun a b => b ∈ m.yamlChildren a) k j) ∧
      m.LinesTell k nodes := by
  refine sound.descend_children (motive := fun k => ∃ nodes, nodes.Sublist (m.subtree k) ∧
    (∀ j, j ∈ nodes ↔ Relation.ReflTransGen (fun a b => b ∈ m.yamlChildren a) k j) ∧
    m.LinesTell k nodes) (fun k held ih => ?_) held
  have followed : (m.yamlChildren k).Sublist (m.children k) := by
    rw [yamlChildren]
    split
    · exact List.take_sublist 1 _
    · exact List.Sublist.refl _
  choose! nodesOf within among tell using ih
  -- A node comes before all that its lines go on to.
  refine ⟨k :: (m.yamlChildren k).flatMap nodesOf, ?_, fun j => ?_, ?_⟩
  · rw [sound.subtree_eq held]
    refine .cons_cons k ((followed.flatMap nodesOf).trans ?_)
    exact List.Sublist.flatMap_right _ within
  · rw [List.mem_cons, List.mem_flatMap, Relation.ReflTransGen.cases_head_iff]
    refine or_congr eq_comm ⟨?_, ?_⟩
    · rintro ⟨c, child, inside⟩
      exact ⟨c, child, (among c (followed.subset child) j).1 inside⟩
    · rintro ⟨c, child, leads⟩
      exact ⟨c, child, (among c (followed.subset child) j).2 leads⟩
  · have tree := sound.tree_children held
    have each : ∀ c ∈ m.yamlChildren k, m.LinesTell c (nodesOf c) := fun c child =>
      tell c (followed.subset child)
    -- Only a pair is left with less than its children.
    have all : (m.node k).kind ≠ .pair → m.yamlChildren k = m.children k := fun notPair => if_neg notPair
    cases kind : (m.node k).kind with
    | scalar =>
      rw [all (by rw [kind]; decide), sound.children_of_scalar held kind]
      exact linesTell_scalar kind
    | pair => exact linesTell_pair kind tree (sound.isEmpty_children held) each
    | object =>
      rw [all (by rw [kind]; decide)] at each ⊢
      exact linesTell_container (.inl kind) tree each
    | array =>
      rw [all (by rw [kind]; decide)] at each ⊢
      exact linesTell_container (.inr kind) tree each

/-- A node has lines unless one of the nodes that they come to lacks something. -/
theorem LinesTell.hingesOn (tell : m.LinesTell k nodes) :
    m.HingesOn nodes (Yaml.lines m 0 "" (m.tree k)) := by
  rcases tell 0 [] with ⟨fine, pieces, -, gives⟩ | ⟨j, inside, e, lacks, failed⟩
  · -- What holds for all words holds for those of the model.
    obtain ⟨lines, given, -⟩ : Yaml.Gives (Yaml.lines (m.respelled m.ownWords) 0 "" (m.tree k)) _ :=
      gives m.ownWords
    rw [respelled_ownWords] at given
    exact .inl ⟨⟨lines, given⟩, fine⟩
  · have failed : Yaml.lines (m.respelled m.ownWords) 0 "" (m.tree k) = .error e := failed m.ownWords
    rw [respelled_ownWords] at failed
    exact .inr ⟨j, inside, e, lacks, failed⟩

/-- The YAML form has a document for each top-level node. -/
theorem yaml_respelled (m : Model) (words : Key → String → String) : (m.respelled words).yaml =
    (m.roots.mapM fun r => (Yaml.lines (m.respelled words) 0 "" (m.tree r)).map Yaml.ofLines).map
      ("---\n".intercalate ·) := by
  have document : (m.respelled words).yamlSubtree = fun r =>
      (Yaml.lines (m.respelled words) 0 "" (m.tree r)).map Yaml.ofLines := by
    funext r
    rw [yamlSubtree, Model.tree, treesFrom_respelled, (m.sameForest_respelled words).size, node_respelled]
    rfl
  rw [yaml, document]
  rfl

section

variable {nodesOf : Key → List Key} (tell : ∀ r ∈ m.roots, m.LinesTell r (nodesOf r))
include tell

/-- With nothing lacking, the documents show what their nodes have to show. -/
theorem shows_yaml (nodup : (m.roots.flatMap nodesOf).Nodup)
    (fine : ∀ j ∈ m.roots.flatMap nodesOf, m.lack? j = none) :
    Shows Model.yaml m ((m.roots.flatMap nodesOf).flatMap m.fieldsOf) := by
  have each : ∀ r ∈ m.roots, ∃ pieces, Piece.fields pieces = (nodesOf r).flatMap m.fieldsOf ∧
      ∀ words, Yaml.Gives (Yaml.lines (m.respelled words) 0 "" (m.tree r)) (Piece.fill words pieces) := by
    intro r root
    rcases tell r root 0 [] with ⟨-, shown⟩ | ⟨j, inside, e, lacks, -⟩
    · exact shown
    · -- Nothing was lacking.
      rw [fine j (List.mem_flatMap.2 ⟨r, root, inside⟩)] at lacks
      cases lacks
  choose! pieces fields gives using each
  refine ⟨nodup_flatMap_fieldsOf nodup, [.fixed "---\n".toList].intercalate (m.roots.map pieces), ?_,
    fun words => ?_⟩
  · rw [Piece.fields_intercalate, List.flatMap_map, List.flatMap_assoc]
    exact List.flatMap_congr fields
  · have documents : (m.roots.mapM fun r =>
        (Yaml.lines (m.respelled words) 0 "" (m.tree r)).map Yaml.ofLines) =
          .ok (m.roots.map fun r => Piece.put words (pieces r)) := by
      refine Except.mapM_eq_ok.2 (List.forall₂_map_right_iff.2 (List.forall₂_same.2 fun r root => ?_))
      obtain ⟨lines, given, text⟩ := gives r root words
      rw [given, Piece.put, ← text, String.ofList_toList]
      rfl
    rw [yaml_respelled, documents, ← Piece.put, Piece.put_intercalate, List.map_map]
    rfl

/-- The YAML form is had unless one of these nodes lacks something. -/
theorem hingesOn_yaml : m.HingesOn (m.roots.flatMap nodesOf) m.yaml := by
  have written := m.yaml_respelled m.ownWords
  rw [respelled_ownWords] at written
  rw [written]
  exact (hingesOn_mapM fun r root => (tell r root).hingesOn.map Yaml.ofLines).map _

end

/-- The YAML form of a model shows the fields of the nodes that it comes to, in document order, or one of
these lacks something. -/
theorem tells_yaml (sound : m.Sound) :
    ∃ nodes, nodes.Sublist m.order ∧ (∀ j, j ∈ nodes ↔ m.InYaml j) ∧ m.Tells Model.yaml nodes := by
  have each : ∀ r ∈ m.roots, ∃ nodes, nodes.Sublist (m.subtree r) ∧
      (∀ j, j ∈ nodes ↔ Relation.ReflTransGen (fun a b => b ∈ m.yamlChildren a) r j) ∧
      m.LinesTell r nodes := fun r root => exists_linesTell sound (sound.holds_root root)
  choose! nodesOf within among tell using each
  -- Of a top-level node's chain the YAML form takes the first tree.
  have sub : (m.roots.flatMap nodesOf).Sublist m.order := by
    refine List.Sublist.flatMap_right _ fun r root => (within r root).trans ?_
    rw [subtreeAndNext, chainTrees_eq, sound.treesAt_some (sound.holds_root root), Tree.preorderAll_cons]
    exact List.sublist_append_left _ _
  refine ⟨m.roots.flatMap nodesOf, sub, fun j => ?_, ?_⟩
  · rw [List.mem_flatMap]
    exact exists_congr fun r => and_congr_right fun root => among r root j
  · exact (hingesOn_yaml tell).tells (shows_yaml tell (sound.nodup_order.sublist sub))

end Model

end DocSync
