import DocSync.Proofs.Render.Layout

/-!
The loop over a stack of parts against the recursion over trees. What the stack comes to is told part by part, by
the recursion; a step of the loop leaves it as it is and takes from the steps that are left to do. So the loop ends
within the steps allowed for it, with the text of the recursion or with its error.
-/

namespace DocSync.Model

variable {m : Model} {config : Config} {k : Key} {part : Part} {parts rest : List Part} {fuel : Nat}
  {children : List (Tree Key)} {text body : String}

@[simp] theorem gapText_str (shown : Bool) (separator : String) :
    gapText shown (.str separator) = pure (if shown then separator else "") := rfl

@[simp] theorem gapText_false (separator : Json) : gapText false separator = pure "" := by
  cases separator <;> rfl

/-- What a part comes to. -/
def outcome (m : Model) (config : Config) : Part → Except RenderError String
  | .text text => .ok text
  | .stray => .error (.misfit .noText)
  | .chain trees separator trailing => m.chainText config separator trailing trees
  | .node tree => m.treeText config tree

/-- What a stack of parts comes to. -/
def outcomes (m : Model) (config : Config) (parts : List Part) : Except RenderError String := do
  let texts ← parts.mapM (m.outcome config)
  return String.join texts

@[simp] theorem outcome_text (text : String) : m.outcome config (.text text) = pure text := rfl

@[simp] theorem outcome_chain (trees : List (Tree Key)) (separator : Json) (trailing : Bool) :
    m.outcome config (.chain trees separator trailing) = m.chainText config separator trailing trees := rfl

@[simp] theorem outcome_node (tree : Tree Key) : m.outcome config (.node tree) = m.treeText config tree := rfl

@[simp] theorem outcome_ofGiven (given : Json) : m.outcome config (.ofGiven given) = gapText true given := by
  cases given <;> rfl

@[simp] theorem outcomes_nil : m.outcomes config [] = pure "" := rfl

theorem outcomes_cons : m.outcomes config (part :: rest) = do
    let text ← m.outcome config part
    let behind ← m.outcomes config rest
    return text ++ behind := by
  rw [outcomes, outcomes, List.mapM_cons]
  cases m.outcome config part with
  | error e => rfl
  | ok text => cases rest.mapM (m.outcome config) <;> simp [bind, Except.bind, pure, Except.pure]

theorem outcomes_append : m.outcomes config (parts ++ rest) = do
    let text ← m.outcomes config parts
    let behind ← m.outcomes config rest
    return text ++ behind := by
  induction parts with
  | nil => cases h : m.outcomes config rest <;> simp [h, bind, Except.bind, pure, Except.pure]
  | cons part parts ih =>
    rw [List.cons_append, outcomes_cons, outcomes_cons, ih]
    simp only [bind_assoc, pure_bind, String.append_assoc]

/-- A layout comes to the text of its node. -/
theorem outcomes_of_layout (laid : m.layout config k children = .ok parts) :
    m.outcomes config parts = m.treeText config (.node k children) := by
  -- A layout has no trees but the children, so its chain comes to theirs.
  have same : ∀ p ∈ parts, m.outcome config p =
      partText (fun separator trailing => m.chainText config separator trailing children) p := by
    intro p inside
    cases (layout_of_ok laid).each p inside <;> rfl
  rw [outcomes, treeText, Except.mapM_congr same, laid]
  rfl

/-- The parts in whose place a part is shown come to what it comes to. -/
theorem outcomes_of_expandPart (other : ∀ text, part ≠ .text text) :
    (do m.outcomes config (← m.expandPart config part)) = m.outcome config part := by
  cases part with
  | text text => exact absurd rfl (other text)
  | stray => rfl
  | node tree =>
    obtain ⟨k, children⟩ := tree
    rw [expandPart, outcome]
    cases laid : m.layout config k children with
    | error e => rw [treeText, laid]; rfl
    | ok parts => exact outcomes_of_layout laid
  | chain trees separator trailing =>
    cases trees with
    | nil => rfl
    | cons first rest =>
      cases rest with
      | nil =>
        -- Behind the last tree the separator is shown only if it trails.
        change m.outcomes config (.node first :: if trailing then [.ofGiven separator] else []) = _
        cases trailing <;> simp [outcomes_cons, chainText]
      | cons second rest =>
        -- Behind any other tree it is shown, and the rest of the chain behind it.
        change m.outcomes config [.node first, .ofGiven separator, .chain (second :: rest) separator trailing] = _
        rw [outcome_chain, chainText]
        simp only [outcomes_cons, outcomes_nil, outcome_node, outcome_ofGiven, outcome_chain, bind_assoc,
          pure_bind, String.append_empty, String.append_assoc, List.isEmpty_cons, Bool.not_false, Bool.or_true]

/-- The parts in whose place a part is shown take fewer steps to show than it. -/
theorem cost_of_expandPart (other : ∀ text, part ≠ .text text)
    (expands : m.expandPart config part = .ok parts) : (parts.map Part.cost).sum < part.cost := by
  cases part with
  | text text => exact absurd rfl (other text)
  | stray => cases expands
  | node tree =>
    obtain ⟨k, children⟩ := tree
    -- Each node has eight steps: four for its layout, and its share of the chain that it stands in.
    have cheap := (layout_of_ok expands).cheap
    rw [Part.cost, size_node]
    omega
  | chain trees separator trailing =>
    cases trees with
    | nil => cases expands; simp
    | cons first rest =>
      have sized := Part.cost_pos (.node first)
      simp only [Part.cost_node] at sized
      cases rest with
      | nil =>
        cases expands
        cases trailing <;> simp [Tree.sizeAll] <;> omega
      | cons second rest =>
        cases expands
        simp [Tree.sizeAll]
        omega

@[simp] theorem emit_nil (fuel : Nat) (shown : String) : m.emit config fuel shown [] = .ok shown := by
  cases fuel <;> rfl

/-- With steps enough the loop shows what the stack comes to. -/
theorem emit_eq_outcomes (shown : String) (enough : (parts.map Part.cost).sum ≤ fuel) :
    m.emit config fuel shown parts = (shown ++ ·) <$> m.outcomes config parts := by
  -- The induction is on the steps left; what has been shown grows, and the stack changes with each step.
  induction fuel generalizing shown parts with
  | zero =>
    cases parts with
    | nil => simp [pure, Except.pure]
    | cons part rest =>
      have := part.cost_pos
      rw [List.map_cons, List.sum_cons] at enough
      omega
  | succ fuel ih =>
    cases parts with
    | nil => simp [pure, Except.pure]
    | cons part rest =>
      rw [List.map_cons, List.sum_cons] at enough
      by_cases isText : ∃ text, part = .text text
      · obtain ⟨text, rfl⟩ := isText
        rw [Part.cost_text] at enough
        rw [emit, ih _ (by omega), outcomes_cons, outcome_text]
        simp [String.append_assoc]
      · -- What takes the place of a part comes to the same, and is shown in fewer steps.
        have other : ∀ text, part ≠ .text text := not_exists.1 isText
        rw [emit, outcomes_cons, ← outcomes_of_expandPart other]
        · cases expands : m.expandPart config part with
          | error e => rfl
          | ok parts =>
            have cheaper := cost_of_expandPart other expands
            have enough' : ((parts ++ rest).map Part.cost).sum ≤ fuel := by
              rw [List.map_append, List.sum_append]
              omega
            have all := ih shown enough'
            rw [outcomes_append] at all
            exact all
        · exact other

/-! ### Nodes and documents -/

/-- A node is shown as the recursion over its tree says. -/
theorem renderSubtree_eq_treeText : m.renderSubtree config k = m.treeText config (m.tree k) := by
  rw [renderSubtree, emit_eq_outcomes, outcomes_cons]
  · simp
  · simp [emitBound]
    omega

/-- What stands between the texts around the top level. -/
def enclosed (m : Model) (body : String) : Except RenderError String :=
  match m.givenLeading, m.givenTrailing with
  | .str leading, .str trailing => .ok (leading ++ body ++ trailing)
  | _, _ => .error (.misfit .noSum)

theorem enclosed_eq_ok_iff : m.enclosed body = .ok text ↔ ∃ leading trailing,
    m.givenLeading = .str leading ∧ m.givenTrailing = .str trailing ∧ text = leading ++ body ++ trailing := by
  rw [enclosed]
  split
  · next leading trailing ahead behind => simp [ahead, behind, eq_comm]
  · next other =>
    refine iff_of_false (by simp) ?_
    rintro ⟨leading, trailing, ahead, behind, -⟩
    exact other leading trailing ahead behind

/-- Texts around the top level stand around what it comes to. -/
theorem enclosed_of_plain (plain : m.strays = []) (body : String) :
    m.enclosed body = .ok (m.leading ++ body ++ m.trailing) := by
  simp [enclosed, givenLeading, givenTrailing, plain]

/-- A document is what the stack of its chains comes to, between the texts around them. -/
theorem render_eq_outcomes :
    m.render config = (do m.enclosed (← m.outcomes config (Part.onLines m.forest))) := by
  have enough : ((Part.onLines m.forest).map Part.cost).sum ≤
      emitBound (Tree.sizeAll m.forest.flatten) (Part.onLines m.forest).length := by
    have bound := Part.cost_onLines m.forest
    rw [emitBound]
    omega
  have body : m.emit config (emitBound (Tree.sizeAll m.forest.flatten) (Part.onLines m.forest).length) ""
      (Part.onLines m.forest) = m.outcomes config (Part.onLines m.forest) := by
    simpa using emit_eq_outcomes "" enough
  rw [← body]
  rfl

end DocSync.Model
