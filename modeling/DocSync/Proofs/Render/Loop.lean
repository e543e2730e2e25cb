import DocSync.Proofs.Model.Forest
import DocSync.Proofs.Render.Recursion

/-!
The loop over a stack that goes by the links of the nodes, with no bound on its steps: a chain waits on the stack by
its first node, and its remainder is put back there behind that node. In a model whose links agree the loop comes to
an end, and to what the trees below the nodes come to.
-/

namespace DocSync

/-- What waits on the stack, trees being known by their first node. -/
inductive Pending where
  | text (text : String)
  | stray
  | chain (first : Key) (separator : Json) (trailing : Bool)
  | node (k : Key)

/-- A part as it waits on the stack. -/
def Part.pending : Part → Pending
  | .text shown => .text shown
  | .stray => .stray
  | .chain [] _ _ => .text ""
  | .chain (first :: _) separator trailing => .chain first.label separator trailing
  | .node tree => .node tree.label

namespace Model

variable {m : Model} {config : Config} {k : Key} {pending : Pending} {stack rest : List Pending}
  {shown : String} {result result' : Except RenderError String}

/-- The first node below another one, by its link. A layout asks only whether there is one. -/
def firstBelow (m : Model) (k : Key) : List (Tree Key) := (m.node k).head.toList.map fun c => .node c []

/-- What takes the place of what waits on the stack. -/
def replace (m : Model) (config : Config) : Pending → Except RenderError (List Pending)
  | .text _ => .ok []
  | .stray => .error (.misfit .noText)
  | .chain first separator trailing =>
    let gap := (Part.ofGiven separator).pending
    match (m.node first).next with
    | some next => .ok [.node first, gap, .chain next separator trailing]
    | none => .ok (.node first :: if trailing then [gap] else [])
  | .node k => (m.layout config k (m.firstBelow k)).map (List.map Part.pending)

/-- The loop comes to an end: from what has been shown and what waits on the stack to a text, or to an error. -/
inductive LoopEnds (m : Model) (config : Config) : String → List Pending → Except RenderError String → Prop
  | empty (shown : String) : LoopEnds m config shown [] (.ok shown)
  | text {shown text : String} {rest : List Pending} {result : Except RenderError String} :
    LoopEnds m config (shown ++ text) rest result → LoopEnds m config shown (.text text :: rest) result
  | replaced {shown : String} {pending : Pending} {parts rest : List Pending}
    {result : Except RenderError String} : (∀ text, pending ≠ .text text) →
    m.replace config pending = .ok parts → LoopEnds m config shown (parts ++ rest) result →
    LoopEnds m config shown (pending :: rest) result
  | failed {shown : String} {pending : Pending} {rest : List Pending} {e : RenderError} :
    m.replace config pending = .error e → LoopEnds m config shown (pending :: rest) (.error e)

/-- The loop comes to one end. -/
theorem LoopEnds.unique (first : m.LoopEnds config shown stack result)
    (second : m.LoopEnds config shown stack result') : result = result' := by
  -- Which rule applies is told by what is on top of the stack, and by what takes its place.
  induction first with
  | empty shown =>
    cases second
    rfl
  | text _ ih =>
    cases second with
    | text ends => exact ih ends
    | replaced other _ _ => exact absurd rfl (other _)
    | failed failed => cases failed
  | replaced other replaced _ ih =>
    cases second with
    | text _ => exact absurd rfl (other _)
    | replaced _ replaced' ends =>
      cases replaced.symm.trans replaced'
      exact ih ends
    | failed failed => cases replaced.symm.trans failed
  | failed failed =>
    cases second with
    | text _ => cases failed
    | replaced _ replaced _ => cases replaced.symm.trans failed
    | failed failed' =>
      cases failed.symm.trans failed'
      rfl

/-- What waits on the stack with the trees that its links lead to. -/
def partOf (m : Model) : Pending → Part
  | .text text => .text text
  | .stray => .stray
  | .chain first separator trailing => .chain (m.chainTrees first) separator trailing
  | .node k => .node (m.tree k)

/-- What waits on the stack belongs to the model. -/
def Awaits (m : Model) : Pending → Prop
  | .text _ | .stray => True
  | .chain first _ _ => m.Holds first
  | .node k => m.Holds k

@[simp] theorem partOf_chain (first : Key) (separator : Json) (trailing : Bool) :
    m.partOf (.chain first separator trailing) = .chain (m.chainTrees first) separator trailing := rfl

@[simp] theorem partOf_node (k : Key) : m.partOf (.node k) = .node (m.tree k) := rfl

@[simp] theorem partOf_ofGiven (given : Json) : m.partOf (Part.ofGiven given).pending = .ofGiven given := by
  cases given <;> rfl

@[simp] theorem awaits_ofGiven (given : Json) : m.Awaits (Part.ofGiven given).pending := by
  cases given <;> trivial

section Linked

variable (linked : m.Linked)
include linked

theorem isEmpty_firstBelow (held : m.Holds k) :
    (m.firstBelow k).isEmpty = (m.treesAt (m.node k).head).isEmpty := by
  rw [firstBelow]
  cases head : (m.node k).head with
  | none => simp
  | some c => simp [linked.treesAt_some (linked.holds_of_leads held ⟨.child, head⟩)]

/-- A node is laid out by its links as by the trees below it. -/
theorem layout_eq_replace (config : Config) (held : m.Holds k) :
    m.layout config k (m.treesAt (m.node k).head) =
      (m.replace config (.node k)).map (List.map m.partOf) ∧
    ∀ stack, m.replace config (.node k) = .ok stack → ∀ p ∈ stack, m.Awaits p := by
  -- The link leads to a node just where there are trees, so the layouts differ in their chain only.
  rw [layout_over (isEmpty_firstBelow linked held), replace]
  cases laid : m.layout config k (m.firstBelow k) with
  | error e => exact ⟨rfl, fun _ same => by cases same⟩
  | ok parts =>
    have each := (layout_of_ok laid).each
    -- Each part is a text, or the chain that the link leads to.
    have back : ∀ p ∈ parts, m.partOf p.pending = p.over (m.treesAt (m.node k).head) ∧ m.Awaits p.pending := by
      intro p inside
      cases each p inside with
      | text text => exact ⟨rfl, trivial⟩
      | stray => exact ⟨rfl, trivial⟩
      | chain separator trailing some_ =>
        rw [firstBelow] at some_ ⊢
        cases head : (m.node k).head with
        | none => simp [head] at some_
        | some c => exact ⟨rfl, linked.holds_of_leads held ⟨.child, head⟩⟩
    constructor
    · simp only [Except.map, List.map_map]
      exact congrArg Except.ok (List.map_congr_left fun p inside => (back p inside).1.symm)
    · intro stack same
      cases same
      exact List.forall_mem_map.2 fun p inside => (back p inside).2

/-- A step by the links is a step over the trees. -/
theorem expandPart_partOf (config : Config) (awaits : m.Awaits pending) :
    m.expandPart config (m.partOf pending) = (m.replace config pending).map (List.map m.partOf) ∧
    ∀ stack, m.replace config pending = .ok stack → ∀ p ∈ stack, m.Awaits p := by
  cases pending with
  | text text => exact ⟨rfl, fun _ same => by cases same; simp⟩
  | stray => exact ⟨rfl, fun _ same => by cases same⟩
  | node k => exact layout_eq_replace linked config awaits
  | chain first separator trailing =>
    have head : m.Awaits (.node first) := awaits
    rw [partOf, chainTrees_eq, linked.treesAt_some awaits, replace]
    cases next : (m.node first).next with
    | none =>
      refine ⟨?_, fun _ same => ?_⟩
      · cases trailing <;> simp [expandPart, Except.map]
      · cases same
        cases trailing <;> simp [head]
    | some c =>
      have heldC := linked.holds_of_leads awaits ⟨.next, next⟩
      have tail : m.Awaits (.chain c separator trailing) := heldC
      refine ⟨?_, fun _ same => ?_⟩
      · simp [linked.treesAt_some heldC, expandPart, Except.map, chainTrees_eq]
      · cases same
        simp [head, tail]

/-- The loop comes to an end, and to what the trees on the stack come to. -/
theorem loopEnds_outcomes (shown : String) (awaits : ∀ p ∈ stack, m.Awaits p) :
    m.LoopEnds config shown stack ((shown ++ ·) <$> m.outcomes config (stack.map m.partOf)) := by
  -- What takes the place of a part takes fewer steps than the part, so the stack gets lighter all the way.
  induction size : ((stack.map m.partOf).map Part.cost).sum using Nat.strongRecOn generalizing shown stack with
  | ind n ih =>
    cases stack with
    | nil =>
      rw [List.map_nil, outcomes_nil, map_pure, String.append_empty]
      exact .empty shown
    | cons pending rest =>
      obtain ⟨first, later⟩ := List.forall_mem_cons.1 awaits
      rw [List.map_cons, List.map_cons, List.sum_cons] at size
      rw [List.map_cons, outcomes_cons]
      by_cases isText : ∃ text, pending = .text text
      · obtain ⟨text, rfl⟩ := isText
        rw [partOf, Part.cost_text] at size
        rw [partOf, outcome_text]
        have ends := ih _ (by omega) (shown ++ text) later rfl
        refine .text ?_
        simpa [String.append_assoc] using ends
      · have other : ∀ text, pending ≠ .text text := not_exists.1 isText
        have other' : ∀ text, m.partOf pending ≠ .text text := by
          cases pending <;> simp [partOf] at other ⊢
        obtain ⟨step, inside⟩ := expandPart_partOf linked config first
        rw [← outcomes_of_expandPart other', step]
        cases replaced : m.replace config pending with
        | error e => exact .failed replaced
        | ok parts =>
          rw [replaced] at step
          have cheaper := cost_of_expandPart other' step
          have ends := ih _ (by rw [List.map_append, List.map_append, List.sum_append]; omega) shown
            (List.forall_mem_append.2 ⟨inside parts replaced, later⟩) rfl
          rw [List.map_append, outcomes_append] at ends
          exact .replaced other replaced ends

theorem loopEnds_iff (awaits : ∀ p ∈ stack, m.Awaits p) :
    m.LoopEnds config "" stack result ↔ m.outcomes config (stack.map m.partOf) = result := by
  have ends : m.LoopEnds config "" stack (m.outcomes config (stack.map m.partOf)) := by
    simpa using loopEnds_outcomes linked "" awaits
  exact ⟨fun other => ends.unique other, fun same => same ▸ ends⟩

end Linked

end Model

end DocSync
