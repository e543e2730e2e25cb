import DocSync.Proofs.Render.Copied
import DocSync.Proofs.Render.Flanked
import DocSync.Proofs.Render.Loop

/-!
The text of a model put together from the texts of its nodes. A node that is shown stands in the text of the
document behind all that its owner shows before it, and behind its elder siblings with the gaps between them, and
what is behind it mirrors that. The main statement is about whatever the editor comes to: the loop over the stack
ends, and what it shows is what the nodes show, each at its place.
-/

namespace DocSync

namespace Model

variable {m : Model} {config : Config} {a k : Key} {trees : List (Tree Key)} {texts ahead after : List String}
  {separator : Json} {trailing : Bool} {front back gap own whole : String}

/-! ### Texts around a chain -/

/-- Texts that can be joined have a gap between them: the separator, as far as that is shown. -/
theorem exists_gap_of_joined {row : String} (shown : joined texts separator trailing = .ok row) :
    ∃ gap, gapText (trailing || texts.length > 1) separator = .ok gap ∧
      row = gap.intercalate texts ++ if trailing then gap else "" := by
  cases separator with
  | str separator =>
    cases shown
    refine ⟨_, rfl, ?_⟩
    by_cases visible : (trailing || decide (texts.length > 1)) = true
    · rw [if_pos visible]
    · obtain ⟨rfl, few⟩ : trailing = false ∧ ¬ texts.length > 1 := by simpa using visible
      simp [intercalate_of_few few]
  | _ =>
    -- What is no text is not shown, so there is at most one text and none behind it.
    simp only [joined] at shown
    split at shown
    · cases shown
    · next plain =>
      cases shown
      obtain ⟨rfl, few⟩ : trailing = false ∧ ¬ texts.length > 1 := by simpa using plain
      exact ⟨"", by simp [few, pure, Except.pure], by simp [intercalate_of_few few]⟩

/-- What was given in place of texts and was shown is texts. -/
theorem map_ofGiven_eq {row : Json → Bool → Except RenderError String} {given : List Json}
    (shown : (given.map Part.ofGiven).mapM (partText row) = .ok texts) :
    given.map Part.ofGiven = texts.map Part.text := by
  have each := List.forall₂_map_left_iff.1 (Except.mapM_eq_ok.1 shown)
  have same : List.Forall₂ (fun g text => Part.ofGiven g = .text text) given texts :=
    each.imp fun g text shown => by cases g <;> cases shown; rfl
  rwa [← List.forall₂_eq_eq_eq, List.forall₂_map_left_iff, List.forall₂_map_right_iff]

/-- What was given around a chain and was shown with it is texts. -/
theorem exists_texts_around {row : Json → Bool → Except RenderError String} {given given' : List Json}
    (shown : (given.map Part.ofGiven ++ .chain trees separator trailing :: given'.map Part.ofGiven).mapM
      (partText row) = .ok texts) :
    ∃ (ahead : List String) (text : String) (after : List String), given.map Part.ofGiven = ahead.map Part.text ∧
      row separator trailing = .ok text ∧ given'.map Part.ofGiven = after.map Part.text := by
  rw [List.mapM_append] at shown
  obtain ⟨ahead, shownAhead, shown⟩ := Except.bind_eq_ok_iff.1 shown
  obtain ⟨rest, shown, -⟩ := Except.bind_eq_ok_iff.1 shown
  rw [List.mapM_cons] at shown
  obtain ⟨text, shownChain, shown⟩ := Except.bind_eq_ok_iff.1 shown
  obtain ⟨after, shownAfter, -⟩ := Except.bind_eq_ok_iff.1 shown
  exact ⟨ahead, text, after, map_ofGiven_eq shownAhead, shownChain, map_ofGiven_eq shownAfter⟩

/-- Texts around a chain are shown as they are. -/
theorem mapM_partText_around {row : Json → Bool → Except RenderError String} :
    (ahead.map Part.text ++ .chain trees separator trailing :: after.map Part.text).mapM (partText row) = (do
      let text ← row separator trailing
      return ahead ++ text :: after) := by
  have texts : ∀ texts : List String, (texts.map Part.text).mapM (partText row) = pure texts := by
    intro texts
    induction texts with
    | nil => rfl
    | cons text texts ih =>
      rw [List.map_cons, List.mapM_cons, ih]
      rfl
  rw [List.mapM_append, List.mapM_cons, texts, texts]
  simp [partText]

/-! ### Nodes with children -/

/-- A node shows its children in a row, between texts ahead of it and texts after it. The gap is the separator, as
far as that is shown. -/
def ShowsRow (m : Model) (config : Config) (a : Key) (ahead : List String) (gap : String) (trailing : Bool)
    (after : List String) : Prop :=
  ∃ separator, m.layout config a ((m.children a).map m.tree) =
      .ok (ahead.map .text ++ .chain ((m.children a).map m.tree) separator trailing :: after.map .text) ∧
    gapText (trailing || (m.children a).length > 1) separator = .ok gap

/-- What nodes are shown as are their texts. -/
theorem textOf_of_mapM {ks : List Key} (shown : ks.mapM (m.renderSubtree config) = .ok texts) :
    texts = ks.map (m.textOf config) ∧ ∀ k ∈ ks, m.renderSubtree config k = .ok (m.textOf config k) := by
  have all := Except.mapM_eq_ok.1 shown
  constructor
  · have same := all.imp fun k text shown => textOf_eq_of_shown shown
    rw [← List.forall₂_map_left_iff, List.forall₂_eq_eq_eq] at same
    exact same.symm
  · intro k inside
    obtain ⟨text, -, shown⟩ := all.exists_of_mem inside
    rw [shown, textOf_eq_of_shown shown]

section Sound

variable (sound : m.Sound)
include sound

/-- A node that is shown shows the children that it has in a row. -/
theorem exists_showsRow (held : m.Holds a) (shown : m.renderSubtree config a = .ok own)
    (some_ : m.children a ≠ []) : ∃ ahead gap trailing after, m.ShowsRow config a ahead gap trailing after := by
  obtain ⟨parts, texts, laid, texted, shown⟩ := (renderSubtree_eq_ok_iff sound held).1 shown
  have bare : (m.node a).kind ≠ .scalar := fun kind => some_ (sound.children_of_scalar held kind)
  obtain ⟨ahead, separator, trailing, after, rfl⟩ := (layout_of_ok laid).chained bare (by simpa using some_)
  obtain ⟨all, shown, -⟩ := Except.map_eq_ok_iff.1 shown
  obtain ⟨aheadTexts, row, afterTexts, sameAhead, shownRow, sameAfter⟩ := exists_texts_around shown
  obtain ⟨gap, gapped, -⟩ := exists_gap_of_joined shownRow
  rw [sameAhead, sameAfter] at laid
  rw [(textOf_of_mapM texted).1, List.length_map] at gapped
  exact ⟨aheadTexts, gap, trailing, afterTexts, separator, laid, gapped⟩

/-- The text of a node that shows its children in a row. -/
theorem ShowsRow.eq (row : m.ShowsRow config a ahead gap trailing after) (held : m.Holds a)
    (shown : m.renderSubtree config a = .ok own) : own = String.join ahead ++
        (gap.intercalate ((m.children a).map (m.textOf config)) ++ if trailing then gap else "") ++
        String.join after ∧
      ∀ c ∈ m.children a, m.renderSubtree config c = .ok (m.textOf config c) := by
  obtain ⟨separator, laid, gapped⟩ := row
  obtain ⟨parts, texts, laid', texted, shown⟩ := (renderSubtree_eq_ok_iff sound held).1 shown
  cases laid.symm.trans laid'
  obtain ⟨rfl, each⟩ := textOf_of_mapM texted
  refine ⟨?_, each⟩
  rw [mapM_partText_around, map_bind] at shown
  obtain ⟨row, shownRow, shown⟩ := Except.bind_eq_ok_iff.1 shown
  obtain ⟨gap', gapped', rfl⟩ := exists_gap_of_joined shownRow
  rw [List.length_map, gapped] at gapped'
  cases gapped'
  cases shown
  simp only [String.join_append, String.join_cons, String.append_assoc]

end Sound

/-! ### Places in a document -/

/-- Where a node stands in the text of a document: what is in front of it, and what is behind it. -/
inductive Located (m : Model) (config : Config) : Key → String → String → Prop
  | top {k : Key} {before behind : List Key} {leading trailing : String} :
    m.roots.flatMap m.chain = before ++ k :: behind →
    m.givenLeading = .str leading → m.givenTrailing = .str trailing →
    Located m config k (leading ++ String.join (before.map fun j => m.textOf config j ++ "\n"))
      (String.join (behind.map fun j => "\n" ++ m.textOf config j) ++ trailing)
  | child {a k : Key} {front back gap : String} {ahead after : List String} {trailing : Bool}
    {before behind : List Key} :
    Located m config a front back → m.ShowsRow config a ahead gap trailing after →
    m.children a = before ++ k :: behind →
    Located m config k
      (front ++ String.join ahead ++ String.join (before.map fun j => m.textOf config j ++ gap))
      (String.join (behind.map fun j => gap ++ m.textOf config j) ++
        (if trailing then gap else "") ++ String.join after ++ back)

section Sound

variable (sound : m.Sound)
include sound

/-- A document is what stands in front of a node, the node's text, and what stands behind it. -/
theorem Located.occurs (located : m.Located config k front back) (shown : m.render config = .ok whole) :
    m.Holds k ∧ ∃ own, m.renderSubtree config k = .ok own ∧ whole = front ++ own ++ back := by
  -- The text of an owner falls into what is in front of the child, the child and what is behind it.
  induction located with
  | @top k before behind leading trailing row ahead after =>
    rw [render_eq_mapM sound] at shown
    obtain ⟨texts, all, shown⟩ := Except.bind_eq_ok_iff.1 shown
    obtain ⟨rfl, each⟩ := textOf_of_mapM all
    obtain ⟨leading', trailing', ahead', after', rfl⟩ := enclosed_eq_ok_iff.1 shown
    cases ahead.symm.trans ahead'
    cases after.symm.trans after'
    refine ⟨(sound.mem_top_iff.1 (by simp [row])).1, m.textOf config k, each k (by simp [row]), ?_⟩
    rw [row, List.map_append, List.map_cons, intercalate_around, List.map_map, List.map_map]
    simp only [String.append_assoc]
    rfl
  | @child a k front back gap ahead after trailing before behind _ shows row ih =>
    obtain ⟨held, own, shownA, rfl⟩ := ih
    obtain ⟨rfl, each⟩ := shows.eq sound held shownA
    refine ⟨(sound.over_of_mem_children held (by simp [row])).2, m.textOf config k, each k (by simp [row]), ?_⟩
    rw [row, List.map_append, List.map_cons, intercalate_around, List.map_map, List.map_map]
    simp only [String.append_assoc]
    rfl

/-- In a document that is shown each node stands somewhere. -/
theorem exists_located (shown : m.render config = .ok whole) (held : m.Holds k) :
    ∃ front back, m.Located config k front back := by
  -- From the top down: the owner has a place, so it is shown, and so it shows its children in a row.
  refine sound.ascend (motive := fun k => ∃ front back, m.Located config k front back)
    (fun k held ih => ?_) held
  cases owned : (m.node k).owner with
  | none =>
    obtain ⟨before, behind, row⟩ := List.append_of_mem (sound.mem_top_iff.2 ⟨held, owned⟩)
    rw [render_eq_mapM sound] at shown
    obtain ⟨texts, -, shown⟩ := Except.bind_eq_ok_iff.1 shown
    obtain ⟨leading, trailing, ahead, after, -⟩ := enclosed_eq_ok_iff.1 shown
    exact ⟨_, _, .top row ahead after⟩
  | some a =>
    have heldA := sound.holds_of_over held (sound.over_of_owner held owned).1
    obtain ⟨before, behind, row⟩ := List.append_of_mem ((sound.mem_children_iff heldA held).2 owned)
    obtain ⟨front, back, located⟩ := ih a heldA owned
    obtain ⟨-, own, shownA, -⟩ := located.occurs sound shown
    obtain ⟨ahead, gap, trailing, after, shows⟩ := exists_showsRow sound heldA shownA (by simp [row])
    exact ⟨_, _, .child located shows row⟩

end Sound

/-! ### The model as a whole -/

/-- What waits on the stack when a document is to be shown: its chains, on lines of their own. -/
def waiting (m : Model) : List Pending :=
  (m.roots.map fun r => .chain r (.str "\n") false).intersperse (.text "\n")

/-- What a model is shown as is put together from what its nodes are shown as. -/
structure Composed (m : Model) (config : Config) : Prop where
  /-- The way up to the indent that a node continues ends at one indent. -/
  indents : ∀ k, m.Holds k → ∀ indent, m.Indents k indent ↔ m.contextIndent k = indent
  /-- The loop over the stack ends for each node, at one text or error. -/
  node_ends : ∀ k, m.Holds k → ∀ result,
    m.LoopEnds config "" [.node k] result ↔ m.renderSubtree config k = result
  /-- The recursion over the tree of a node and of its children comes to the same. -/
  recursion : ∀ k, m.Holds k → m.tree k = .node k ((m.children k).map m.tree) ∧
    m.renderSubtree config k = m.treeText config (m.tree k)
  /-- A node is shown as its layout, in which the chain comes to the texts of the children joined. -/
  node_text : ∀ k, m.Holds k → ∀ text, m.renderSubtree config k = .ok text ↔
    ∃ parts texts, m.layout config k ((m.children k).map m.tree) = .ok parts ∧
      (m.children k).mapM (m.renderSubtree config) = .ok texts ∧
      String.join <$> parts.mapM (partText (joined texts)) = .ok text
  /-- The loop ends for the document. -/
  document_ends : ∃ body, (∀ result, m.LoopEnds config "" m.waiting result ↔ body = result) ∧
    m.render config = body >>= m.enclosed
  /-- The document is all nodes at top level on lines of their own, between the texts around them. -/
  document_text : m.render config = (do
    let texts ← (m.roots.flatMap m.chain).mapM (m.renderSubtree config)
    m.enclosed ("\n".intercalate texts))
  /-- In a document that is shown each node has a place, and its text stands there. -/
  place : ∀ whole, m.render config = .ok whole → ∀ k, m.Holds k →
    (∃ front back, m.Located config k front back) ∧ ∀ front back, m.Located config k front back →
      ∃ own, m.renderSubtree config k = .ok own ∧ whole = front ++ own ++ back

/-- The stack of a document comes to what its chains come to. -/
theorem loopEnds_waiting_iff (sound : m.Sound) {result : Except RenderError String} :
    m.LoopEnds config "" m.waiting result ↔ m.outcomes config (Part.onLines m.forest) = result := by
  have parts : m.waiting.map m.partOf = Part.onLines m.forest := by
    rw [waiting, ← intersperse_map, List.map_map, Part.onLines, forest, List.map_map]
    rfl
  have awaits : ∀ p ∈ m.waiting, m.Awaits p := by
    intro p inside
    rcases of_mem_intersperse inside with rfl | inside
    · trivial
    · obtain ⟨r, root, rfl⟩ := List.mem_map.1 inside
      exact sound.holds_root root
  rw [loopEnds_iff sound.toLinked awaits, parts]

theorem Sound.composed (sound : m.Sound) : m.Composed config where
  indents k held indent := by
    have own := sound.indents_contextIndent held
    exact ⟨own.unique, fun same => same ▸ own⟩
  node_ends k held result := by
    rw [loopEnds_iff sound.toLinked (by simpa [Awaits] using held), renderSubtree_eq_treeText]
    simp [outcomes_cons]
  recursion k held := ⟨sound.tree_children held, renderSubtree_eq_treeText⟩
  node_text k held text := renderSubtree_eq_ok_iff sound held
  document_ends := ⟨_, fun _ => loopEnds_waiting_iff sound, render_eq_outcomes⟩
  document_text := render_eq_mapM sound
  place whole shown k held :=
    ⟨exists_located sound shown held, fun _ _ located => (located.occurs sound shown).2⟩

end Model

open Model

/-- Whatever the editor comes to is shown as what its nodes are shown as, each at its place. -/
theorem composed_of_reachable {w : Workspace} (reached : Reachable w) (config : Config) :
    w.model.Composed config :=
  reached.sound.composed

/-- Two documents, of which the first is followed by a further node and holds an array with a separator behind its
last item. -/
def followedSpace : Workspace :=
  afterCalls (readIn " [1, [2, 3]]\n" 0) [
    .annotate "n3" (.ofList [(itemsSlot,
      { opening := "[", closing := "]", separator := ", ", trailing := true })]) none,
    .create (some "a") .scalar { fields := .ofList [(valueName, "4")] }, .link "n1" "next" "a",
    .create (some "b") .object {}]

theorem composed_of_reachable_followed :
    followedSpace.model.roots.flatMap followedSpace.model.chain = [0, 5, 6] ∧
      followedSpace.model.renderSubtree {} 2 = .ok "[2, 3, ]" ∧
      followedSpace.model.render {} = .ok " [1, [2, 3, ]]\n4\n\x7b\x7d\n" ∧
      followedSpace.model.Composed {} :=
  ⟨by decide +kernel, by decide +kernel, by decide +kernel,
    composed_of_reachable ((reachable_readIn " [1, [2, 3]]\n" 0).afterCalls _) {}⟩

end DocSync
