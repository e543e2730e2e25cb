import DocSync.Proofs.Model.Coherence
import DocSync.Proofs.Render.Joined
import DocSync.Proofs.Render.Shown

/-!
When a model is shown. A node keeps all above it from being shown if it lacks what its kind must show, and
nothing else does, as long as all texts are texts: a layout hinges on what its parts hinge on, and a chain on the
trees in it.
-/

namespace DocSync

open Model

/-- A part is made of texts, as far as it has its own. -/
def Part.Plain : Part → Prop
  | .stray => False
  | .chain _ separator _ => ∃ text, separator = .str text
  | _ => True

/-- The trees that a part shows. -/
def Part.trees : Part → List (Tree Key)
  | .text _ | .stray => []
  | .chain trees _ _ => trees
  | .node tree => [tree]

namespace Model

variable {m : Model} {config : Config} {k : Key}

/-- What a node lacks of what its kind must show. -/
def lack? (m : Model) (k : Key) : Option RenderError :=
  let node := m.node k
  match node.kind with
  | .object | .array => none
  | .pair =>
    if (node.fields.get? keyField).isNone then some (.pairWithoutKey node.id)
    else if (node.fields.get? valueName).isNone && (m.children k).isEmpty then
      some (.pairWithoutValue node.id)
    else none
  | .scalar =>
    if (node.fields.get? valueName).isNone then some (.scalarWithoutValue node.id) else none

/-- A scalar must show its value, and a pair its key and, if no node hangs on it, its value. -/
theorem lack?_eq_none_iff : m.lack? k = none ↔
    ((m.node k).kind = .scalar → ((m.node k).fields.get? valueName).isSome = true) ∧
    ((m.node k).kind = .pair → ((m.node k).fields.get? keyField).isSome = true ∧
      (m.children k = [] → ((m.node k).fields.get? valueName).isSome = true)) := by
  cases kind : (m.node k).kind with
  | object => simp [lack?, kind]
  | array => simp [lack?, kind]
  | scalar => simp [lack?, kind, Option.isSome_iff_ne_none]
  | pair =>
    cases keyed : (m.node k).fields.get? keyField with
    | none => simp [lack?, kind, keyed]
    | some key =>
      cases valued : (m.node k).fields.get? valueName with
      | none => simp [lack?, kind, keyed, valued]
      | some value => simp [lack?, kind, keyed, valued]

/-- What a node lacks is a fault of the node. -/
theorem ofRender_of_lack {e : RenderError} (lacks : m.lack? k = some e) : Error.ofRender e = .render e := by
  cases e with
  | misfit fault =>
    cases kind : (m.node k).kind <;> simp [lack?, kind] at lacks
    split at lacks <;> simp at lacks
  | _ => rfl

/-- What a node is laid out as: its children and no other trees, between texts and with a text between them. -/
structure LaidOut (m : Model) (k : Key) (parts : List Part) : Prop where
  plain : ∀ p ∈ parts, p.Plain
  trees : parts.flatMap Part.trees = (m.children k).map m.tree

/-- Something hinges on nodes: it comes about unless one of them lacks something, which is the error then. -/
def HingesOn {α : Type} (m : Model) (nodes : List Key) (result : Except RenderError α) : Prop :=
  ((∃ a, result = .ok a) ∧ ∀ j ∈ nodes, m.lack? j = none) ∨
    ∃ j ∈ nodes, ∃ e, m.lack? j = some e ∧ result = .error e

namespace HingesOn

variable {α : Type} {nodes gone : List Key} {result : Except RenderError α}

theorem append_left (hinges : m.HingesOn nodes result) (fine : ∀ j ∈ gone, m.lack? j = none) :
    m.HingesOn (gone ++ nodes) result := by
  rcases hinges with ⟨comes, rest⟩ | ⟨j, inside, lacks⟩
  · exact .inl ⟨comes, List.forall_mem_append.2 ⟨fine, rest⟩⟩
  · exact .inr ⟨j, List.mem_append_right gone inside, lacks⟩

theorem fine_of_ok {a : α} (hinges : m.HingesOn nodes result) (came : result = .ok a) :
    ∀ j ∈ nodes, m.lack? j = none := by
  rcases hinges with ⟨_, fine⟩ | ⟨_, _, _, _, failed⟩
  · exact fine
  · rw [came] at failed
    cases failed

theorem exists_lack {e : RenderError} (hinges : m.HingesOn nodes result) (failed : result = .error e) :
    ∃ j ∈ nodes, m.lack? j = some e := by
  rcases hinges with ⟨⟨_, came⟩, _⟩ | ⟨j, inside, e', lacks, failed'⟩
  · rw [failed] at came
    cases came
  · rw [failed] at failed'
    cases failed'
    exact ⟨j, inside, lacks⟩

theorem map (hinges : m.HingesOn nodes result) {β : Type} (f : α → β) : m.HingesOn nodes (result.map f) := by
  rcases hinges with ⟨⟨a, rfl⟩, fine⟩ | ⟨j, inside, e, lacks, rfl⟩
  · exact .inl ⟨⟨f a, rfl⟩, fine⟩
  · exact .inr ⟨j, inside, e, lacks, rfl⟩

end HingesOn

/-- A walk over a list hinges on whatever its steps hinge on. -/
theorem hingesOn_mapM {α ι : Type} {xs : List ι} {nodesOf : ι → List Key} {f : ι → Except RenderError α}
    (each : ∀ x ∈ xs, m.HingesOn (nodesOf x) (f x)) : m.HingesOn (xs.flatMap nodesOf) (xs.mapM f) := by
  induction xs with
  | nil => exact .inl ⟨⟨[], rfl⟩, by simp⟩
  | cons x xs ih =>
    rw [List.forall_mem_cons] at each
    rw [List.mapM_cons, List.flatMap_cons]
    rcases each.1 with ⟨⟨a, came⟩, fine⟩ | ⟨j, inside, e, lacks, failed⟩
    · rcases ih each.2 with ⟨⟨others, rest⟩, fine'⟩ | ⟨j, inside, e, lacks, failed⟩
      · exact .inl ⟨⟨a :: others, by rw [came, rest]; rfl⟩, List.forall_mem_append.2 ⟨fine, fine'⟩⟩
      · exact .inr ⟨j, List.mem_append_right _ inside, e, lacks, by rw [came, failed]; rfl⟩
    · exact .inr ⟨j, List.mem_append_left _ inside, e, lacks, by rw [failed]; rfl⟩

/-- A node has a layout, or else what it lacks is the error. -/
def LaysOut (m : Model) (config : Config) (k : Key) : Prop :=
  (∃ e, m.lack? k = some e ∧ m.layout config k ((m.children k).map m.tree) = .error e) ∨
    m.lack? k = none ∧
      ∃ parts, m.layout config k ((m.children k).map m.tree) = .ok parts ∧ m.LaidOut k parts

section Kinds

variable {frame : Frame}

/-- A scalar is laid out as its value. -/
theorem laysOut_scalar (kind : (m.node k).kind = .scalar) (childless : m.children k = []) :
    m.LaysOut config k := by
  cases valued : (m.node k).fields.get? valueName with
  | none =>
    refine .inl ⟨.scalarWithoutValue (m.node k).id, by simp [lack?, kind, valued], ?_⟩
    simp [Model.layout, kind, Node.scalarText, valued, bind, Except.bind]
  | some value =>
    refine .inr ⟨by simp [lack?, kind, valued], [.text value], ?_, ?_, ?_⟩
    · simp [Model.layout, kind, Node.scalarText, valued, pure, Except.pure, bind, Except.bind]
    · simp [Part.Plain]
    · simp [childless, Part.trees]

variable (plain : frame.strays = [])
include plain

/-- An object or array is laid out as its children between its brackets, and it lacks nothing. -/
theorem laysOut_container (kind : (m.node k).kind = .object ∨ (m.node k).kind = .array)
    (had : m.frame config k ((m.node k).edgeName .child) = .ok frame) : m.LaysOut config k := by
  have lacks : m.lack? k = none := by rcases kind with kind | kind <;> simp [lack?, kind]
  refine .inr ⟨lacks, ?_⟩
  by_cases childless : m.children k = []
  · rw [childless]
    refine ⟨_, layout_container_nil kind had plain, ?_, ?_⟩
    · simp [Part.Plain]
    · simp [childless, Part.trees]
  · refine ⟨_, layout_container kind had plain (by simpa using childless), ?_, ?_⟩
    · simp [Part.Plain]
    · simp [Part.trees]

/-- A pair is laid out as its key and its value, for which a node that hangs on it comes first. -/
theorem laysOut_pair (kind : (m.node k).kind = .pair) (had : m.frame config k valueName = .ok frame) :
    m.LaysOut config k := by
  unfold LaysOut
  cases keyed : (m.node k).fields.get? keyField with
  | none =>
    refine .inl ⟨.pairWithoutKey (m.node k).id, by simp [lack?, kind, keyed], ?_⟩
    simp [Model.layout, kind, keyed, throw, throwThe, MonadExceptOf.throw]
  | some key =>
  cases children : m.children k with
  | cons c rest =>
    refine .inr ⟨by simp [lack?, kind, keyed, children], _,
      layout_pair (chainPart ((c :: rest).map m.tree) frame) kind keyed had plain (by simp), ?_, ?_⟩
    · simp [Part.Plain, chainPart, Frame.givenSeparator, Frame.given_plain plain]
    · simp [Part.trees, chainPart, children]
  | nil =>
    cases valued : (m.node k).fields.get? valueName with
    | none =>
      refine .inl ⟨.pairWithoutValue (m.node k).id, ?_, ?_⟩
      · simp [lack?, kind, keyed, valued, children]
      · simp [Model.layout, kind, keyed, had, valued, Except.mapError, bind, Except.bind, throw, throwThe,
          MonadExceptOf.throw]
    | some value =>
      refine .inr ⟨by simp [lack?, kind, keyed, valued], _,
        layout_pair (.text value) kind keyed had plain (by simp [valued]), ?_, ?_⟩
      · simp [Part.Plain]
      · simp [Part.trees, children]

end Kinds

section Layout

variable (sound : m.Sound) (framed : m.PlainFrames) (generates : config.Generates)
include sound framed generates

/-- A node has a layout unless it lacks something. -/
theorem laysOut (held : m.Holds k) : m.LaysOut config k := by
  obtain ⟨frame, had, texts⟩ := framed.exists_frame sound generates held ((m.node k).edgeName .child)
  cases kind : (m.node k).kind with
  | object => exact laysOut_container (texts rfl (by rw [kind]; decide)) (.inl kind) had
  | array => exact laysOut_container (texts rfl (by rw [kind]; decide)) (.inr kind) had
  | scalar => exact laysOut_scalar kind (sound.children_of_scalar held kind)
  | pair =>
    have plain := texts rfl (by rw [kind]; decide)
    have slot : (m.node k).edgeName .child = valueName := by rw [Node.edgeName, kind]; rfl
    exact laysOut_pair plain kind (slot ▸ had)

omit sound framed generates in
/-- A part of a layout hinges on the trees in it. -/
theorem hingesOn_partText {trees : List (Tree Key)} {p : Part} (plain : p.Plain) (own : p.OfLayout trees)
    (below : m.HingesOn (Tree.preorderAll trees) (trees.mapM (m.treeText config))) :
    m.HingesOn (Tree.preorderAll p.trees)
      (partText (fun separator trailing => m.chainText config separator trailing trees) p) := by
  cases own with
  | text text => exact .inl ⟨⟨text, rfl⟩, by simp [Part.trees]⟩
  | stray => exact plain.elim
  | chain separator trailing some_ =>
    obtain ⟨text, rfl⟩ := plain
    rw [partText, chainText_str text trailing some_]
    exact below.map _

/-- A node is shown unless it or a node below it lacks something. -/
theorem hingesOn_renderSubtree (held : m.Holds k) :
    m.HingesOn (m.subtree k) (m.renderSubtree config k) := by
  refine sound.descend_children (motive := fun k => m.HingesOn (m.subtree k) (m.renderSubtree config k))
    (fun k held ih => ?_) held
  rw [sound.subtree_eq held, renderSubtree_eq_treeText, sound.tree_children held, treeText]
  rcases laysOut sound framed generates held with ⟨e, lacks, failed⟩ | ⟨fine, parts, laid, out⟩
  · exact .inr ⟨k, List.mem_cons_self, e, lacks, by rw [failed]; rfl⟩
  · have below : m.HingesOn (Tree.preorderAll ((m.children k).map m.tree))
        (((m.children k).map m.tree).mapM (m.treeText config)) := by
      rw [Tree.preorderAll_eq_flatMap, List.flatMap_map, List.mapM_map]
      refine hingesOn_mapM fun c child => ?_
      rw [Function.comp_apply, ← renderSubtree_eq_treeText]
      exact ih c child
    have shown := hingesOn_mapM fun p inside =>
      hingesOn_partText (out.plain p inside) ((layout_of_ok laid).each p inside) below
    have nodes : (parts.flatMap fun p => Tree.preorderAll p.trees) = (m.children k).flatMap m.subtree := by
      simp only [Tree.preorderAll_eq_flatMap]
      rw [← List.flatMap_assoc, out.trees, List.flatMap_map]
      rfl
    have own : ∀ j ∈ [k], m.lack? j = none := by simpa using fine
    rw [nodes] at shown
    rw [laid]
    exact (shown.map String.join).append_left own

/-- A document is shown unless a node of it lacks something. -/
theorem hingesOn_render (plain : m.strays = []) : m.HingesOn m.order (m.render config) := by
  have shown := hingesOn_mapM fun k inside =>
    hingesOn_renderSubtree sound framed generates (sound.mem_top_iff.1 inside).1
  rw [sound.order_eq, ← List.flatMap_assoc, render_eq_mapM sound]
  simp only [enclosed_of_plain plain]
  exact shown.map _

end Layout

end Model

end DocSync
