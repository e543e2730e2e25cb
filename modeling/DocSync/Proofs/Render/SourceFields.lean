import DocSync.Proofs.Render.Fields
import DocSync.Proofs.Render.Joined
import DocSync.Proofs.Render.Typed

/-!
The fields that a document shows: those of all its nodes, in document order.
-/

namespace DocSync

namespace Model

variable {m : Model} {config : Config} {k : Key} {frame : Frame} {words : Key → String → String}
  {inner : List (List Piece)} {children : List (Tree Key)}

/-- A chain of pieces with a separator between them, and behind the last one if it trails. -/
def rowIn (frame : Frame) (inner : List (List Piece)) : List Piece :=
  [.fixed frame.separator.toList].intercalate inner ++
    if frame.trailing then [.fixed frame.separator.toList] else []

/-- What a node is made of, with what its children are made of in its frame. -/
def piecesIn (m : Model) (k : Key) (frame : Frame) (inner : List (List Piece)) : List Piece :=
  match (m.node k).kind with
  | .object | .array =>
    if inner.isEmpty then [.fixed frame.emptyOpening.toList, .fixed frame.closing.toList]
    else .fixed frame.opening.toList :: (rowIn frame inner ++ [.fixed frame.closing.toList])
  | .pair =>
    .field k keyField :: .fixed frame.opening.toList ::
      ((if inner.isEmpty then [.field k valueName] else rowIn frame inner) ++ [.fixed frame.closing.toList])
  | .scalar => [.field k valueName]

theorem fields_rowIn : Piece.fields (rowIn frame inner) = inner.flatMap Piece.fields := by
  rw [rowIn, Piece.fields_append, Piece.fields_intercalate]
  split <;> simp

theorem put_rowIn : Piece.put words (rowIn frame inner) =
    frame.separator.intercalate (inner.map (Piece.put words)) ++
      if frame.trailing then frame.separator else "" := by
  rw [rowIn, Piece.put_append, Piece.put_intercalate]
  split <;> simp

/-- A node puts in its own fields and then those of its children. -/
theorem fields_piecesIn (empty : inner.isEmpty = (m.node k).head.isNone)
    (bare : (m.node k).kind = .scalar → inner = []) :
    Piece.fields (m.piecesIn k frame inner) = m.fieldsOf k ++ inner.flatMap Piece.fields := by
  rw [fieldsOf, ← empty]
  cases kind : (m.node k).kind with
  | object =>
    cases inner <;> simp [piecesIn, kind, fields_rowIn]
  | array =>
    cases inner <;> simp [piecesIn, kind, fields_rowIn]
  | pair =>
    cases inner <;> simp [piecesIn, kind, fields_rowIn]
  | scalar => simp [piecesIn, kind, bare kind]

/-- A node that lacks nothing comes to what it is made of, whatever stands in the fields. -/
theorem renders_piecesIn (fine : m.lack? k = none) (childless : m.children k = [] ↔ children = [])
    (framed : m.frame config k ((m.node k).edgeName .child) = .ok frame)
    (plain : (m.node k).kind ≠ .scalar → frame.strays = [])
    (below : List.Forall₂ ((m.respelled words).Renders config) children (inner.map (Piece.put words))) :
    (m.respelled words).Renders config (.node k children) (Piece.put words (m.piecesIn k frame inner)) := by
  obtain ⟨valued, keyed⟩ := lack?_eq_none_iff.1 fine
  have kind' : ((m.respelled words).node k).kind = (m.node k).kind := by rw [node_respelled]
  have framed' : (m.respelled words).frame config k (((m.respelled words).node k).edgeName .child) =
      .ok frame := by
    rw [frame_respelled, ← framed, node_respelled]
    rfl
  -- A field that is there has its new text.
  have told : ∀ name, ((m.node k).fields.get? name).isSome = true →
      ((m.respelled words).node k).fields.get? name = some (words k name) := by
    intro name given
    obtain ⟨text, given⟩ := Option.isSome_iff_exists.1 given
    rw [node_respelled, Dict.get?_respelled, given]
    rfl
  -- Objects and arrays are laid out alike.
  have container : (m.node k).kind = .object ∨ (m.node k).kind = .array →
      (m.respelled words).Renders config (.node k children)
        (Piece.put words (m.piecesIn k frame inner)) := by
    intro kind
    have texts := plain (by rcases kind with kind | kind <;> rw [kind] <;> decide)
    have pieces : m.piecesIn k frame inner =
        if inner.isEmpty then [.fixed frame.emptyOpening.toList, .fixed frame.closing.toList]
        else .fixed frame.opening.toList :: (rowIn frame inner ++ [.fixed frame.closing.toList]) := by
      rcases kind with kind | kind <;> rw [piecesIn, kind]
    rw [← kind'] at kind
    rw [pieces]
    cases inner with
    | nil =>
      obtain rfl := List.forall₂_nil_right_iff.1 below
      simpa using renders_container_nil kind framed' texts
    | cons first rest =>
      have some_ : children ≠ [] := by
        rintro rfl
        cases below
      simpa [put_rowIn, String.append_assoc] using renders_container kind framed' texts some_ below
  cases kind : (m.node k).kind with
  | object => exact container (.inl kind)
  | array => exact container (.inr kind)
  | scalar =>
    have text : Piece.put words (m.piecesIn k frame inner) = words k valueName := by
      simp [piecesIn, kind]
    rw [text]
    exact renders_scalar (kind'.trans kind) (told valueName (valued kind))
  | pair =>
    obtain ⟨keyed, orValued⟩ := keyed kind
    have texts := plain (by rw [kind]; decide)
    have slot : ((m.respelled words).node k).edgeName .child = valueName := by
      rw [Node.edgeName, kind', kind]
      rfl
    rw [slot] at framed'
    rw [piecesIn, kind]
    -- A pair shows its own value only where nothing hangs on it.
    cases inner with
    | nil =>
      obtain rfl := List.forall₂_nil_right_iff.1 below
      simpa [String.append_assoc] using renders_pair_field (kind'.trans kind) (told keyField keyed)
        (told valueName (orValued (childless.2 rfl))) framed' texts
    | cons first rest =>
      have some_ : children ≠ [] := by
        rintro rfl
        cases below
      simpa [put_rowIn, String.append_assoc] using renders_pair_chain (kind'.trans kind)
        (told keyField keyed) framed' texts some_ below

/-- Pieces that a node and all below it come to, whatever stands in the fields. -/
structure Made (m : Model) (config : Config) (k : Key) (pieces : List Piece) : Prop where
  fields : Piece.fields pieces = (m.subtree k).flatMap m.fieldsOf
  renders : ∀ words, (m.respelled words).Renders config (m.tree k) (Piece.put words pieces)

section

variable (sound : m.Sound) (framed : m.PlainFrames) (generates : config.Generates)
include sound framed generates

/-- A node is made of pieces if nothing below it lacks anything. -/
theorem exists_made (held : m.Holds k) (fine : ∀ j ∈ m.subtree k, m.lack? j = none) :
    ∃ pieces, m.Made config k pieces := by
  revert fine
  refine sound.descend_children (motive := fun k => (∀ j ∈ m.subtree k, m.lack? j = none) →
    ∃ pieces, m.Made config k pieces) (fun k held ih fine => ?_) held
  have below : ∀ c ∈ m.children k, ∃ pieces, m.Made config c pieces := fun c child =>
    ih c child fun j inside => fine j ((sound.mem_subtree_iff held).2 (.inr ⟨c, child, inside⟩))
  choose! pieces made using below
  -- The frame does not depend on the words, so that one row of pieces serves for all of them.
  obtain ⟨frame, had, texts⟩ := framed.exists_frame sound generates held ((m.node k).edgeName .child)
  refine ⟨m.piecesIn k frame ((m.children k).map pieces), ?_, fun words => ?_⟩
  · rw [fields_piecesIn]
    · rw [sound.subtree_eq held, List.flatMap_cons, List.flatMap_map, List.flatMap_assoc]
      exact congrArg (m.fieldsOf k ++ ·) (List.flatMap_congr fun c child => (made c child).fields)
    · rw [List.isEmpty_map, sound.isEmpty_children held]
    · intro kind
      rw [sound.children_of_scalar held kind, List.map_nil]
  · rw [sound.tree_children held]
    refine renders_piecesIn (fine k (m.mem_subtree_self k)) (by simp) had (texts rfl) ?_
    rw [List.map_map, List.forall₂_map_left_iff, List.forall₂_map_right_iff, List.forall₂_same]
    exact fun c child => (made c child).renders words

omit sound framed generates in
/-- A document comes to its chains on lines of their own and the texts around them. -/
theorem render_of_rows {rows : List (List String)} (plain : m.strays = [])
    (some_ : ∀ trees ∈ m.forest, trees ≠ [])
    (all : List.Forall₂ (List.Forall₂ (m.Renders config)) m.forest rows) :
    m.render config =
      .ok (m.leading ++ "\n".intercalate (rows.map ("\n".intercalate ·)) ++ m.trailing) := by
  have texts : m.forest.flatten.mapM (m.treeText config) = .ok rows.flatten :=
    Except.mapM_eq_ok.2 (List.rel_flatten all)
  have rows_ : ∀ row ∈ rows, row ≠ [] := by
    rintro row inside rfl
    obtain ⟨trees, among, each⟩ := all.flip.exists_of_mem inside
    exact some_ trees among (List.forall₂_nil_right_iff.1 each)
  rw [render_eq_outcomes, outcomes_onLines some_, texts, intercalate_flatten rows_]
  exact enclosed_of_plain plain _

omit sound framed generates in
/-- A document is made of the texts around it and of what its nodes are made of, on lines of their own. -/
theorem exists_documentPieces (m : Model) (pieces : Key → List Piece) :
    ∃ whole, Piece.fields whole = (m.roots.flatMap fun r => (m.chain r).flatMap fun k =>
        Piece.fields (pieces k)) ∧
      ∀ words, Piece.put words whole = m.leading ++ "\n".intercalate ((m.roots.map fun r =>
        (m.chain r).map fun k => Piece.put words (pieces k)).map ("\n".intercalate ·)) ++ m.trailing := by
  let line : List Piece := [.fixed "\n".toList]
  refine ⟨.fixed m.leading.toList :: (line.intercalate (m.roots.map fun r =>
    line.intercalate ((m.chain r).map pieces)) ++ [.fixed m.trailing.toList]), ?_, fun words => ?_⟩
  · rw [Piece.fields_fixed, Piece.fields_append, Piece.fields_intercalate, List.flatMap_map,
      Piece.fields_fixed, Piece.fields_nil, List.append_nil]
    refine List.flatMap_congr fun r _ => ?_
    rw [Piece.fields_intercalate, List.flatMap_map]
  · rw [Piece.put_fixed, Piece.put_append, Piece.put_intercalate, List.map_map, List.map_map]
    have chain : ∀ r, Piece.put words (line.intercalate ((m.chain r).map pieces)) =
        "\n".intercalate ((m.chain r).map fun k => Piece.put words (pieces k)) := fun r => by
      rw [Piece.put_intercalate, List.map_map]
      rfl
    simp only [Function.comp_def, chain, Piece.put_fixed, Piece.put_nil, String.ofList_toList,
      String.append_empty, String.append_assoc]

/-- With nothing lacking, a document shows the fields of all its nodes. -/
theorem shows_render (plain : m.strays = []) (fine : ∀ j ∈ m.order, m.lack? j = none) :
    Shows (Model.render · config) m (m.order.flatMap m.fieldsOf) := by
  refine ⟨nodup_flatMap_fieldsOf sound.nodup_order, ?_⟩
  have each : ∀ k, m.Holds k → ∃ pieces, m.Made config k pieces := fun k held =>
    exists_made sound framed generates held fun j inside =>
      fine j (sound.mem_order.2 (sound.over_of_mem_subtree held inside).2)
  choose! pieces made using each
  have chained : ∀ r ∈ m.roots, ∀ k ∈ m.chain r, m.Made config k (pieces k) := fun r root k inside =>
    made k (sound.over_of_mem_chainAt (sound.holds_root root) inside).2
  -- The pieces of the nodes on the chains make up those of the document.
  obtain ⟨whole, fields, put⟩ := m.exists_documentPieces pieces
  refine ⟨whole, ?_, fun words => ?_⟩
  · rw [fields, sound.order_eq, List.flatMap_assoc]
    refine List.flatMap_congr fun r root => ?_
    rw [List.flatMap_assoc]
    exact List.flatMap_congr fun k inside => (chained r root k inside).fields
  · -- Other words in the fields leave the trees as they are.
    have forest : (m.respelled words).forest = m.roots.map fun r => (m.chain r).map m.tree := by
      refine List.map_congr_left fun r root => ?_
      rw [chainTrees, treesFrom_respelled, (m.sameForest_respelled words).size]
      exact sound.chainTrees_root root
    have some_ : ∀ trees ∈ (m.respelled words).forest, trees ≠ [] := by
      rw [forest, List.forall_mem_map]
      intro r root
      rw [chain_eq, sound.chainAt_some (sound.holds_root root), List.map_cons]
      exact List.cons_ne_nil _ _
    have all : List.Forall₂ (List.Forall₂ ((m.respelled words).Renders config))
        (m.respelled words).forest
        (m.roots.map fun r => (m.chain r).map fun k => Piece.put words (pieces k)) := by
      rw [forest, List.forall₂_map_left_iff, List.forall₂_map_right_iff, List.forall₂_same]
      intro r root
      rw [List.forall₂_map_left_iff, List.forall₂_map_right_iff, List.forall₂_same]
      exact fun k inside => (chained r root k inside).renders words
    have plain : (m.respelled words).strays = [] := plain
    exact (render_of_rows plain some_ all).trans (congrArg Except.ok (put words).symm)

/-- A document shows the fields of all its nodes, or one of these lacks something. -/
theorem tells_render (plain : m.strays = []) : Tells (Model.render · config) m m.order :=
  (hingesOn_render sound framed generates plain).tells (shows_render sound framed generates plain)

end

end Model

end DocSync
