import DocSync.Proofs.Model.Sound
import DocSync.Proofs.Render.Recursion

/-!
Nodes and documents put together from what their parts come to. A row is shown if all its trees are, and comes to
their texts with the separator between them. So a node comes to its layout with the texts of its children joined,
and a document to the texts of its nodes at top level on lines of their own.
-/

namespace DocSync

/-! ### Rows of texts -/

section Rows

variable {separator text : String} {before behind : List String} {rows : List (List String)}

/-- A separator is not shown with less than two texts. -/
theorem intercalate_of_few {texts : List String} (few : ¬ texts.length > 1) :
    separator.intercalate texts = String.join texts := by
  match texts, few with
  | [], _ => simp
  | [_], _ => simp
  | _ :: _ :: _, few => simp at few

/-- A row of texts from the first one on. -/
theorem intercalate_cons : separator.intercalate (text :: behind) =
    text ++ String.join (behind.map (separator ++ ·)) := by
  induction behind generalizing text with
  | nil => simp
  | cons next rest ih =>
    rw [String.intercalate_cons_cons, ih, List.map_cons, String.join_cons, String.append_assoc,
      String.append_assoc]

/-- A row of texts around one of them. -/
theorem intercalate_around : separator.intercalate (before ++ text :: behind) =
    String.join (before.map (· ++ separator)) ++ text ++ String.join (behind.map (separator ++ ·)) := by
  induction before with
  | nil => rw [List.nil_append, intercalate_cons, List.map_nil, String.join_nil, String.empty_append]
  | cons first rest ih =>
    rw [List.cons_append, String.intercalate_cons_of_ne_nil (by simp), ih, List.map_cons, String.join_cons]
    simp only [String.append_assoc]

/-- Rows in a row are one row. -/
theorem intercalate_flatten (some_ : ∀ row ∈ rows, row ≠ []) :
    separator.intercalate (rows.map (separator.intercalate ·)) = separator.intercalate rows.flatten := by
  induction rows with
  | nil => rfl
  | cons row rest ih =>
    rw [List.forall_mem_cons] at some_
    cases rest with
    | nil => simp
    | cons row' rest =>
      have later : (row' :: rest).flatten ≠ [] := by simp [some_.2 row' List.mem_cons_self]
      rw [List.map_cons, String.intercalate_cons_of_ne_nil (by simp), ih some_.2,
        List.flatten_cons (l := row), String.intercalate_append_of_ne_nil some_.1 later]

end Rows

namespace Model

variable {m : Model} {config : Config} {k : Key} {trees : List (Tree Key)} {texts : List String}
  {separator : Json} {trailing : Bool} {parts : List Part} {text : String}

/-! ### Rows of trees -/

/-- Texts in a row with a separator between them, and behind the last of them if it trails. A separator matters
only where it is shown. -/
def joined (texts : List String) : Json → Bool → Except RenderError String
  | .str separator, trailing => .ok (separator.intercalate texts ++ if trailing then separator else "")
  | _, trailing =>
    if trailing || texts.length > 1 then .error (.misfit .noText) else .ok (String.join texts)

/-- A row with a text for its separator. -/
theorem chainText_str (separator : String) (trailing : Bool) (some_ : trees ≠ []) :
    m.chainText config (.str separator) trailing trees =
      (fun texts => separator.intercalate texts ++ if trailing then separator else "") <$>
        trees.mapM (m.treeText config) := by
  induction trees with
  | nil => exact absurd rfl some_
  | cons first rest ih =>
    cases rest with
    | nil => cases trailing <;> simp [chainText]
    | cons second rest =>
      rw [chainText, ih (List.cons_ne_nil _ _)]
      simp [String.append_assoc]

/-- A row of which the texts are known is these joined. -/
theorem chainText_eq_joined (some_ : trees ≠ []) (texted : trees.mapM (m.treeText config) = .ok texts) :
    m.chainText config separator trailing trees = joined texts separator trailing := by
  cases separator with
  | str separator => rw [chainText_str separator trailing some_, texted]; rfl
  | _ =>
    -- What is no text fails where it would be shown first: behind the first tree, if at all.
    have all := Except.mapM_eq_ok.1 texted
    cases all with
    | nil => exact absurd rfl some_
    | @cons first text rest texts here later =>
      cases later with
      | nil => cases trailing <;> simp [chainText, here, gapText, joined, bind, Except.bind, pure, Except.pure]
      | cons _ _ => simp [chainText, here, gapText, joined, bind, Except.bind]

/-- A row is shown only with all its trees. -/
theorem exists_texts_of_chainText (shown : m.chainText config separator trailing trees = .ok text) :
    ∃ texts, trees.mapM (m.treeText config) = .ok texts := by
  induction trees generalizing text with
  | nil => exact ⟨[], rfl⟩
  | cons first rest ih =>
    rw [chainText] at shown
    obtain ⟨own, here, shown⟩ := Except.bind_eq_ok_iff.1 shown
    obtain ⟨gap, -, shown⟩ := Except.bind_eq_ok_iff.1 shown
    obtain ⟨behind, later, -⟩ := Except.bind_eq_ok_iff.1 shown
    obtain ⟨texts, all⟩ := ih later
    exact ⟨own :: texts, by rw [List.mapM_cons, here, all]; rfl⟩

/-- The chains of a document are shown as one row, each tree on a line of its own. -/
theorem outcomes_onLines {chains : List (List (Tree Key))} (some_ : ∀ trees ∈ chains, trees ≠ []) :
    m.outcomes config (Part.onLines chains) =
      "\n".intercalate <$> chains.flatten.mapM (m.treeText config) := by
  induction chains with
  | nil => rfl
  | cons first rest ih =>
    rw [List.forall_mem_cons] at some_
    cases rest with
    | nil => simp [Part.onLines, outcomes_cons, chainText_str "\n" false some_.1]
    | cons next later =>
      have behind : (next :: later).flatten ≠ [] := by simp [some_.2 next List.mem_cons_self]
      rw [Part.onLines_cons, outcomes_cons, outcomes_cons, ih some_.2, outcome_chain,
        chainText_str "\n" false some_.1, outcome_text, List.flatten_cons (l := first), List.mapM_append]
      cases here : first.mapM (m.treeText config) with
      | error e => rfl
      | ok texts =>
        cases there : (next :: later).flatten.mapM (m.treeText config) with
        | error e => rfl
        | ok texts' =>
          -- Both rows have texts, as both have trees, so the line feed stands between two of them.
          have ahead := (Except.mapM_eq_ok.1 here).length_eq
          have after := (Except.mapM_eq_ok.1 there).length_eq
          have row : "\n".intercalate (texts ++ texts') =
              "\n".intercalate texts ++ "\n" ++ "\n".intercalate texts' :=
            String.intercalate_append_of_ne_nil (by rintro rfl; exact some_.1 (List.length_eq_zero_iff.1 ahead))
              (by rintro rfl; exact behind (List.length_eq_zero_iff.1 after))
          simp [bind, Except.bind, pure, Except.pure, Functor.map, Except.map, row, String.append_assoc]

/-! ### Nodes and documents -/

/-- A layout comes to the same whether the row in it goes by the trees or by their texts. -/
theorem mapM_partText_of_layout (laid : m.layout config k trees = .ok parts)
    (texted : trees.mapM (m.treeText config) = .ok texts) :
    parts.mapM (partText fun separator trailing => m.chainText config separator trailing trees) =
      parts.mapM (partText (joined texts)) := by
  refine Except.mapM_congr fun p inside => ?_
  cases (layout_of_ok laid).each p inside with
  | chain separator trailing some_ => exact chainText_eq_joined some_ texted
  | _ => rfl

/-- A node is shown only with all its children. -/
theorem exists_texts_of_treeText (bare : (m.node k).kind = .scalar → trees = [])
    (shown : m.treeText config (.node k trees) = .ok text) :
    ∃ texts, trees.mapM (m.treeText config) = .ok texts := by
  by_cases childless : trees = []
  · exact ⟨[], by rw [childless]; rfl⟩
  · rw [treeText] at shown
    obtain ⟨parts, laid, shown⟩ := Except.bind_eq_ok_iff.1 shown
    obtain ⟨texts, all, -⟩ := Except.bind_eq_ok_iff.1 shown
    -- The chain in the layout is shown, and with it each of its trees.
    obtain ⟨ahead, separator, trailing, behind, rfl⟩ := (layout_of_ok laid).chained (mt bare childless) childless
    obtain ⟨row, -, shownRow⟩ := Except.exists_of_mapM all (x := .chain trees separator trailing) (by simp)
    exact exists_texts_of_chainText shownRow

/-- A node is shown as its layout, with the texts of the trees below it joined for a chain. -/
theorem treeText_eq_ok_iff (bare : (m.node k).kind = .scalar → trees = []) :
    m.treeText config (.node k trees) = .ok text ↔ ∃ parts texts, m.layout config k trees = .ok parts ∧
      trees.mapM (m.treeText config) = .ok texts ∧
      String.join <$> parts.mapM (partText (joined texts)) = .ok text := by
  constructor
  · intro shown
    obtain ⟨texts, texted⟩ := exists_texts_of_treeText bare shown
    rw [treeText] at shown
    obtain ⟨parts, laid, shown⟩ := Except.bind_eq_ok_iff.1 shown
    rw [mapM_partText_of_layout laid texted, bind_pure_comp] at shown
    exact ⟨parts, texts, laid, texted, shown⟩
  · rintro ⟨parts, texts, laid, texted, shown⟩
    rw [treeText]
    refine Except.bind_eq_ok_iff.2 ⟨parts, laid, ?_⟩
    rw [mapM_partText_of_layout laid texted, bind_pure_comp]
    exact shown

section Sound

variable (sound : m.Sound)
include sound

/-- A node is shown just when it has a layout and its children are shown, as the layout with their texts joined. -/
theorem renderSubtree_eq_ok_iff (held : m.Holds k) : m.renderSubtree config k = .ok text ↔
    ∃ parts texts, m.layout config k ((m.children k).map m.tree) = .ok parts ∧
      (m.children k).mapM (m.renderSubtree config) = .ok texts ∧
      String.join <$> parts.mapM (partText (joined texts)) = .ok text := by
  have below : ((m.children k).map m.tree).mapM (m.treeText config) =
      (m.children k).mapM (m.renderSubtree config) := by
    rw [List.mapM_map]
    exact Except.mapM_congr fun c _ => renderSubtree_eq_treeText.symm
  rw [renderSubtree_eq_treeText, sound.tree_children held, treeText_eq_ok_iff, below]
  intro kind
  rw [sound.children_of_scalar held kind, List.map_nil]

/-- A document is shown as its nodes at top level, on lines of their own, between the texts around them. -/
theorem render_eq_mapM : m.render config = (do
    let texts ← (m.roots.flatMap m.chain).mapM (m.renderSubtree config)
    m.enclosed ("\n".intercalate texts)) := by
  have forest : m.forest = m.roots.map fun r => (m.chain r).map m.tree :=
    List.map_congr_left fun r root => sound.chainTrees_root root
  have some_ : ∀ trees ∈ m.forest, trees ≠ [] := by
    rw [forest, List.forall_mem_map]
    intro r root
    rw [chain_eq, sound.chainAt_some (sound.holds_root root)]
    exact List.cons_ne_nil _ _
  have flat : m.forest.flatten = (m.roots.flatMap m.chain).map m.tree := by
    rw [forest, ← List.flatMap_def, List.map_flatMap]
  rw [render_eq_outcomes, outcomes_onLines some_, flat, List.mapM_map]
  have same : m.treeText config ∘ m.tree = m.renderSubtree config :=
    funext fun k => renderSubtree_eq_treeText.symm
  rw [same, bind_map_left]

end Sound

end Model

end DocSync
