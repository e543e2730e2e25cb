import DocSync.Proofs.Outcome
import DocSync.Render.Source
import Mathlib.Algebra.Ring.Nat

/-!
What a node is laid out as: texts, and one chain of all that hangs on the node. Of the trees below it a layout asks
only whether there are any, so that it is laid out alike in the loop, which knows the first of them, and in the
recursion, which knows them all.
-/

namespace DocSync

namespace Tree

variable {α : Type}

theorem sizeAll_append (trees trees' : List (Tree α)) :
    sizeAll (trees ++ trees') = sizeAll trees + sizeAll trees' := by
  induction trees with
  | nil => rw [List.nil_append, sizeAll, Nat.zero_add]
  | cons tree rest ih => rw [List.cons_append, sizeAll, sizeAll, ih, Nat.add_assoc]

end Tree

theorem Model.size_node (k : Key) (children : List (Tree Key)) :
    (Tree.node k children).size = 1 + Tree.sizeAll children := by rw [Tree.size]

/-! ### Parts -/

/-- What a node can be laid out as: texts or what was given in the place of texts, and the chain of its
children. -/
inductive Part.OfLayout (children : List (Tree Key)) : Part → Prop
  | text (text : String) : OfLayout children (.text text)
  | stray : OfLayout children .stray
  | chain (separator : Json) (trailing : Bool) : children ≠ [] →
    OfLayout children (.chain children separator trailing)

theorem Part.ofLayout_ofGiven (children : List (Tree Key)) (given : Json) :
    (ofGiven given).OfLayout children := by
  cases given
  case str text => exact .text text
  all_goals exact .stray

/-- A part with other trees in its chain. -/
def Part.over (trees : List (Tree Key)) : Part → Part
  | .chain _ separator trailing => .chain trees separator trailing
  | part => part

@[simp] theorem Part.over_text (trees : List (Tree Key)) (text : String) :
    (Part.text text).over trees = .text text := rfl

@[simp] theorem Part.over_chain (trees trees' : List (Tree Key)) (separator : Json) (trailing : Bool) :
    (Part.chain trees separator trailing).over trees' = .chain trees' separator trailing := rfl

@[simp] theorem Part.over_ofGiven (trees : List (Tree Key)) (given : Json) :
    (ofGiven given).over trees = ofGiven given := by
  cases given <;> rfl

/-- The steps that it takes to show a part, at most. -/
def Part.cost : Part → Nat
  | .text _ | .stray => 1
  | .chain trees _ _ => 8 * Tree.sizeAll trees + 1
  | .node tree => 8 * tree.size - 2

theorem Part.cost_pos (part : Part) : 0 < part.cost := by
  cases part with
  | node tree =>
    obtain ⟨k, children⟩ := tree
    rw [cost, Model.size_node]
    omega
  | _ => exact Nat.succ_pos _

@[simp] theorem Part.cost_text (text : String) : (Part.text text).cost = 1 := rfl

@[simp] theorem Part.cost_chain (trees : List (Tree Key)) (separator : Json) (trailing : Bool) :
    (Part.chain trees separator trailing).cost = 8 * Tree.sizeAll trees + 1 := rfl

@[simp] theorem Part.cost_node (tree : Tree Key) : (Part.node tree).cost = 8 * tree.size - 2 := rfl

@[simp] theorem Part.cost_ofGiven (given : Json) : (ofGiven given).cost = 1 := by
  cases given <;> rfl

/-- Chains on lines of their own, as a document shows its own. -/
def Part.onLines (chains : List (List (Tree Key))) : List Part :=
  (chains.map fun trees => .chain trees (.str "\n") false).intersperse (.text "\n")

theorem Part.onLines_cons (first next : List (Tree Key)) (later : List (List (Tree Key))) :
    onLines (first :: next :: later) =
      .chain first (.str "\n") false :: .text "\n" :: onLines (next :: later) := rfl

theorem Part.cost_onLines (chains : List (List (Tree Key))) :
    ((onLines chains).map cost).sum ≤ 8 * Tree.sizeAll chains.flatten + (onLines chains).length := by
  induction chains with
  | nil => simp [onLines]
  | cons first rest ih =>
    cases rest with
    | nil => simp [onLines, cost]
    | cons next later =>
      simp only [onLines_cons, List.map_cons, List.sum_cons, List.length_cons, cost] at ih ⊢
      rw [List.flatten_cons, Tree.sizeAll_append]
      omega

/-! ### Layouts -/

namespace Model

variable {m : Model} {config : Config} {k : Key} {children children' : List (Tree Key)} {parts : List Part}

/-- What a node is laid out as, whatever model it is in. -/
structure LayoutOf (m : Model) (k : Key) (children : List (Tree Key)) (parts : List Part) : Prop where
  each : ∀ p ∈ parts, p.OfLayout children
  cheap : (parts.map Part.cost).sum ≤ 8 * Tree.sizeAll children + 4
  /-- But for a scalar, a node shows its children, between texts or what was given in their place. -/
  chained : (m.node k).kind ≠ .scalar → children ≠ [] →
    ∃ (ahead : List Json) (separator : Json) (trailing : Bool) (behind : List Json),
      parts = ahead.map Part.ofGiven ++ .chain children separator trailing :: behind.map Part.ofGiven

theorem layout_of_ok (laid : m.layout config k children = .ok parts) : m.LayoutOf k children parts := by
  -- A frame shows what it was given, text or not, so only the fields and the chain are left to tell.
  have given := Part.ofLayout_ofGiven children
  rw [Model.layout] at laid
  cases kind : (m.node k).kind with
  | object | array =>
    simp only [kind] at laid
    obtain ⟨frame, -, laid⟩ := Except.bind_eq_ok_iff.1 laid
    cases children with
    | nil =>
      obtain ⟨opening, -, laid⟩ := Except.bind_eq_ok_iff.1 laid
      cases laid
      exact ⟨by simp [given], by simp, by simp⟩
    | cons tree rest =>
      cases laid
      refine ⟨?_, by simp [chainPart]; omega, fun _ _ => ⟨[_], _, _, [_], rfl⟩⟩
      have chained : (chainPart (tree :: rest) frame).OfLayout (tree :: rest) := .chain _ _ (by simp)
      simp [given, chained]
  | pair =>
    simp only [kind] at laid
    cases keyed : (m.node k).fields.get? keyField with
    | none => simp [keyed, throw, throwThe, MonadExceptOf.throw] at laid
    | some key =>
      simp only [keyed] at laid
      obtain ⟨frame, -, laid⟩ := Except.bind_eq_ok_iff.1 laid
      have keys : (Part.text key).OfLayout children := .text key
      cases children with
      | nil =>
        cases valued : (m.node k).fields.get? valueName with
        | none => simp [valued, throw, throwThe, MonadExceptOf.throw] at laid
        | some value =>
          simp only [valued] at laid
          cases laid
          have value' : (Part.text value).OfLayout [] := .text value
          exact ⟨by simp [given, keys, value'], by simp, by simp⟩
      | cons tree rest =>
        cases laid
        refine ⟨?_, by simp [chainPart]; omega, fun _ _ => ⟨[.str key, _], _, _, [_], rfl⟩⟩
        have chained : (chainPart (tree :: rest) frame).OfLayout (tree :: rest) := .chain _ _ (by simp)
        simp [given, keys, chained]
  | scalar =>
    simp only [kind] at laid
    obtain ⟨value, -, laid⟩ := Except.bind_eq_ok_iff.1 laid
    cases laid
    have value' : (Part.text value).OfLayout children := .text value
    exact ⟨by simp [value'], by simp, by simp [kind]⟩

/-- Of the trees below it a layout asks only whether there are any. -/
theorem layout_over (same : children.isEmpty = children'.isEmpty) :
    m.layout config k children' = (m.layout config k children).map (List.map (Part.over children')) := by
  simp only [Model.layout]
  -- The frame and the fields are the same, so either both fail alike or the chains alone differ.
  cases kind : (m.node k).kind with
  | object | array =>
    cases m.frame config k ((m.node k).edgeName .child) with
    | error fault => rfl
    | ok frame =>
      cases children <;> cases children' <;> try cases same
      · cases opening : frame.openingWhenEmpty <;>
          simp [bind, Except.bind, pure, Except.pure, Except.mapError, Except.map, opening]
      · simp [bind, Except.bind, pure, Except.pure, Except.mapError, Except.map, chainPart]
  | pair =>
    cases (m.node k).fields.get? keyField with
    | none => rfl
    | some key =>
      cases m.frame config k valueName with
      | error fault => rfl
      | ok frame =>
        cases children <;> cases children' <;> try cases same
        · cases (m.node k).fields.get? valueName with
          | none => rfl
          | some value => simp [bind, Except.bind, pure, Except.pure, Except.mapError, Except.map]
        · simp [bind, Except.bind, pure, Except.pure, Except.mapError, Except.map, chainPart]
  | scalar =>
    cases valued : (m.node k).scalarText <;> rfl

end Model

end DocSync
