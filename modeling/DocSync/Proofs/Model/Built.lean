import DocSync.Proofs.Grammar.Derivation
import DocSync.Proofs.Model.Reachable

/-!
The model of a parse: it stands on the tree's blueprint, under one top-level node. Every step of the
building adds a node of a fresh id and hangs it on a node that was there, and changes no other node.
-/

namespace DocSync

variable {m : Model} {p k j : Key} {edge : Edge} {source : List Char} {fingerprint : String}

namespace Model

/-! ### One more node -/

/-- The model with one more node, hung on a node by a link. -/
def grafted (m : Model) (p : Key) (edge : Edge) (id : NodeId) (made : Makeup) : Model :=
  (m.grown id made.1 made.2).rehang p edge m.nodes.size true

section Grafted

variable {id : NodeId} {made : Makeup} (held : m.Holds p)
include held

/-- Only the new node and the one it hangs on are other than before. -/
theorem node_grafted : (m.grafted p edge id made).node j =
    if j = m.nodes.size then
      { made.2 with
        id := id, kind := made.1, parent := some (p, edge), owner := m.ownerAt p edge }
    else if j = p then (m.node p).retarget edge (some m.nodes.size)
    else m.node j := by
  obtain ⟨kind, content⟩ := made
  have heldP : (m.grown id kind content).Holds p := (holds_grown _ _ _ _ _).2 (.inl held)
  have heldC : (m.grown id kind content).Holds m.nodes.size := (holds_grown _ _ _ _ _).2 (.inr rfl)
  have differ : p ≠ m.nodes.size := Nat.ne_of_lt held.1
  have relinked : ∀ j, ((m.grown id kind content).relink p edge m.nodes.size true).node j =
      if j = m.nodes.size then
        { content with id := id, kind := kind, parent := some (p, edge) }
      else if j = p then (m.node p).retarget edge (some m.nodes.size) else m.node j := by
    intro j
    rw [node_relink edge heldP heldC differ, node_grown]
    by_cases new : j = m.nodes.size
    · simp [new]
    · by_cases isParent : j = p <;> simp [new, isParent, differ]
  -- The new node's chain is the node alone.
  have chain : ((m.grown id kind content).relink p edge m.nodes.size true).chain m.nodes.size =
      [m.nodes.size] := by
    rw [chain, size_relink, size_grown, chainFrom, relinked]
    simp [chainFrom_eq_map_label]
  have owner : (m.grown id kind content).ownerAt p edge = m.ownerAt p edge := by
    cases edge <;> simp [ownerAt, node_grown, differ]
  change (((m.grown id kind content).relink p edge m.nodes.size true).setOwner
    ((m.grown id kind content).ownerAt p edge) _).node j = _
  rw [chain, owner, node_setOwner, size_relink, size_grown, relinked]
  by_cases new : j = m.nodes.size <;> simp [new]

end Grafted

variable {id : NodeId} {made : Makeup}

theorem size_grafted : (m.grafted p edge id made).nodes.size = m.nodes.size + 1 := by
  rw [grafted, size_rehang, size_grown]

/-- Only nodes are other than before: the new one is not at top level. -/
theorem frame_grafted (sound : m.Sound) (p : Key) (edge : Edge) (id : NodeId) (made : Makeup) :
    m.grafted p edge id made = { m with nodes := (m.grafted p edge id made).nodes } := by
  have outside : m.nodes.size ∉ m.roots := fun root =>
    Nat.lt_irrefl _ (sound.holds_root root).1
  have roots : (m.grown id made.1 made.2).roots.erase m.nodes.size = m.roots := by
    change (m.roots ++ [m.nodes.size]).erase m.nodes.size = m.roots
    rw [List.erase_append_right _ outside]
    simp
  unfold grafted rehang
  simp only [if_true]
  rw [frame_setOwner, roots]
  rfl

end Model

namespace Build

variable {w : Workspace} {made : Makeup} {tree : ParseTree} {slot : String}

/-! ### Steps of the building -/

/-- Fresh ids differ. -/
theorem freshId_injective {a b : Nat} (same : freshId a = freshId b) : a = b := by
  have digits : a.repr = b.repr := by simpa [freshId] using same
  have read := congrArg (fun text : String => Nat.ofDigitChars 10 text.toList 0) digits
  simpa using read

/-- A workspace under construction: its model is sound, and all its ids have been handed out. -/
structure Supplied (w : Workspace) : Prop where
  sound : w.model.Sound
  handed : ∀ {k}, w.model.Holds k → ∃ n ≤ w.supply, (w.model.node k).id = freshId n

/-- The next id is not in use. -/
theorem Supplied.find?_freshId (supplied : Supplied w) :
    w.model.find? (freshId (w.supply + 1)) = none := by
  cases found : w.model.find? (freshId (w.supply + 1)) with
  | none => rfl
  | some k =>
    obtain ⟨held, name⟩ := supplied.sound.find?_eq_some_iff.1 found
    obtain ⟨n, bound, id⟩ := supplied.handed held
    have same := NodeId.name_eq_text_iff.1 (name.trans rfl)
    rw [id] at same
    have := freshId_injective same
    omega

/-- A regular tree becomes a node of its makeup. -/
theorem nodeOf_eq (regular : tree.Regular) : nodeOf source fingerprint tree =
    host.createNode none (makeup source fingerprint tree).1 (makeup source fingerprint tree).2 := by
  cases regular with
  | token t => rfl
  | object span children => rfl
  | array span children => rfl
  | pair key span value => rfl

/-- The workspace with one more node. -/
def withNode (w : Workspace) (made : Makeup) : Workspace :=
  { w with model := w.model.grown (freshId (w.supply + 1)) made.1 made.2, supply := w.supply + 1 }

theorem run_createNode (supplied : Supplied w) (made : Makeup) :
    host.createNode none made.1 made.2 w = .ok w.model.nodes.size (withNode w made) := by
  have ran := Model.createNode_eq made.1 made.2 supplied.find?_freshId
  have created : host.edit (Model.createNode (freshId (w.supply + 1)) made.1 made.2)
      { w with supply := w.supply + 1 } =
      .ok (w.model.nodes.size, .create (freshId (w.supply + 1))) (withNode w made) := by
    simp only [Host.edit, host, Workspace.silent, ran]
    rfl
  have fresh : host.newId w = .ok (freshId (w.supply + 1)) { w with supply := w.supply + 1 } := rfl
  have void : (NodeId.null).isVoid = true := rfl
  simp only [Host.createNode, Option.getD_none, void, if_true, bind, EStateM.bind, fresh, created]
  rfl

/-- The workspace with one more node, hung on a node by a link. -/
def withGraft (w : Workspace) (p : Key) (edge : Edge) (made : Makeup) : Workspace :=
  { w with
    model := w.model.grafted p edge (freshId (w.supply + 1)) made
    supply := w.supply + 1 }

theorem Supplied.withNode (supplied : Supplied w) (made : Makeup) :
    Supplied (withNode w made) where
  sound := supplied.sound.grown (Host.isVoid_freshId _) supplied.find?_freshId _ _
  handed := by
    intro k held
    change ∃ n ≤ w.supply + 1, ((w.model.grown (freshId (w.supply + 1)) made.1 made.2).node k).id = _
    rw [Model.node_grown]
    rcases (Model.holds_grown _ _ _ _ _).1 held with before | new
    · obtain ⟨n, bound, id⟩ := supplied.handed before
      rw [if_neg (Nat.ne_of_lt before.1)]
      exact ⟨n, Nat.le_succ_of_le bound, id⟩
    · rw [if_pos new]
      exact ⟨_, Nat.le_refl _, rfl⟩

section Graft

variable (supplied : Supplied w) (held : w.model.Holds p)
  (named : (w.model.node p).edge? slot = some edge) (free : (w.model.node p).target? edge = none)
include supplied held named free

/-- A node just made can be hung on one that was there, where nothing hangs yet. -/
theorem run_link (made : Makeup) :
    host.link p slot w.model.nodes.size (withNode w made) = .ok () (withGraft w p edge made) ∧
      Supplied (withGraft w p edge made) := by
  have grown := supplied.withNode made
  have heldP : (withNode w made).model.Holds p := (Model.holds_grown _ _ _ _ _).2 (.inl held)
  have heldC : (withNode w made).model.Holds w.model.nodes.size :=
    (Model.holds_grown _ _ _ _ _).2 (.inr rfl)
  have differ : p ≠ w.model.nodes.size := Nat.ne_of_lt held.1
  have nodeP : (withNode w made).model.node p = w.model.node p := by
    change (w.model.grown _ _ _).node p = _
    rw [Model.node_grown, if_neg differ]
  have root : ((withNode w made).model.node w.model.nodes.size).parent = none := by
    change ((w.model.grown _ _ _).node _).parent = _
    rw [Model.node_grown, if_pos rfl]
  have apart : (withNode w made).model.top p ≠ w.model.nodes.size := by
    intro same
    -- The new node leads nowhere, so it stands above nothing but itself.
    have alone : ∀ {x}, (withNode w made).model.Over w.model.nodes.size x →
        x = w.model.nodes.size := by
      intro x atop
      induction atop with
      | refl => rfl
      | @step q c e _ heldQ parent ih =>
        have target := (grown.sound.forth heldQ parent).2
        rw [ih] at target
        change ((w.model.grown _ _ _).node _).target? e = _ at target
        rw [Model.node_grown, if_pos rfl] at target
        cases e <;> cases target
    exact differ (alone ((grown.sound.top_eq_iff heldP root).1 same))
  rw [← nodeP] at named free
  have ran := Model.link_eq grown.sound heldC named free root apart
  refine ⟨?_, grown.sound.link heldP heldC named free root apart, fun {k} heldK => ?_⟩
  · have edited : host.edit (Model.link p slot w.model.nodes.size) (withNode w made) =
        .ok (.link ((withNode w made).model.node p).id slot
          ((withNode w made).model.node w.model.nodes.size).id) (withGraft w p edge made) := by
      simp only [Host.edit, host, Workspace.silent, ran]
      rfl
    simp only [Host.link, bind, EStateM.bind, edited]
    rfl
  · have heldK := (Model.holds_rehang edge heldP heldC differ true k).1 heldK
    obtain ⟨n, bound, id⟩ := grown.handed heldK
    exact ⟨n, bound, (Model.bare_rehang edge heldP heldC differ true k).1.trans id⟩

end Graft

/-! ### The whole building -/

/-- What a step of the building leaves: no node goes, and none is other than before but for those
that the step has touched. These keep their ids, and those that come have ids handed out since. -/
structure Builds (w w' : Workspace) (touched : Key → Prop) : Prop where
  supplied : Supplied w'
  frame : w'.model = { w.model with nodes := w'.model.nodes }
  size : w.model.nodes.size ≤ w'.model.nodes.size
  kept : ∀ {j}, j < w.model.nodes.size → ¬ touched j → w'.model.node j = w.model.node j
  supply : w.supply ≤ w'.supply
  id : ∀ {j}, j < w.model.nodes.size → (w'.model.node j).id = (w.model.node j).id
  come : ∀ {j}, w.model.nodes.size ≤ j → j < w'.model.nodes.size →
    ∃ n, w.supply < n ∧ (w'.model.node j).id = freshId n

theorem Builds.refl (supplied : Supplied w) (touched : Key → Prop) : Builds w w touched :=
  ⟨supplied, rfl, Nat.le_refl _, fun _ _ => rfl, Nat.le_refl _, fun _ => rfl,
    fun low high => absurd high (Nat.not_lt.2 low)⟩

theorem Builds.trans {w' w'' : Workspace} {touched touched' : Key → Prop}
    (first : Builds w w' touched) (second : Builds w' w'' touched') (all : Key → Prop)
    (covers : ∀ j, j < w.model.nodes.size → touched j ∨ touched' j → all j) :
    Builds w w'' all where
  supplied := second.supplied
  frame := by
    have frame := second.frame
    rw [first.frame] at frame
    exact frame
  size := first.size.trans second.size
  kept := fun {j} before other => by
    rw [second.kept (before.trans_le first.size) fun t => other (covers j before (.inr t)),
      first.kept before fun t => other (covers j before (.inl t))]
  supply := first.supply.trans second.supply
  id := fun {j} before => (second.id (before.trans_le first.size)).trans (first.id before)
  -- A new node was made in the first run or in the second.
  come := fun {j} low high => by
    rcases Nat.lt_or_ge j w'.model.nodes.size with before | behind
    · obtain ⟨n, later, id⟩ := first.come low before
      exact ⟨n, later, (second.id before).trans id⟩
    · obtain ⟨n, later, id⟩ := second.come behind high
      exact ⟨n, first.supply.trans_lt later, id⟩

theorem Builds.holds {w' : Workspace} {touched : Key → Prop} (builds : Builds w w' touched)
    (held : w.model.Holds k) (other : ¬ touched k) : w'.model.Holds k :=
  ⟨held.1.trans_le builds.size, by rw [builds.kept held.1 other]; exact held.2⟩

theorem builds_withGraft (supplied : Supplied w) (held : w.model.Holds p)
    (named : (w.model.node p).edge? slot = some edge) (free : (w.model.node p).target? edge = none)
    (made : Makeup) : Builds w (withGraft w p edge made) (· = p) where
  supplied := (run_link supplied held named free made).2
  frame := Model.frame_grafted supplied.sound p edge (freshId (w.supply + 1)) made
  size := by
    change _ ≤ (w.model.grafted _ _ _ _).nodes.size
    rw [Model.size_grafted]
    exact Nat.le_succ _
  kept := fun {j} before other => by
    change (w.model.grafted _ _ _ _).node j = _
    rw [Model.node_grafted held, if_neg (Nat.ne_of_lt before), if_neg other]
  supply := Nat.le_succ _
  id := fun {j} before => by
    change ((w.model.grafted _ _ _ _).node j).id = _
    rw [Model.node_grafted held, if_neg (Nat.ne_of_lt before)]
    split
    · next same =>
      rw [same]
      cases edge <;> rfl
    · rfl
  come := fun {j} low high => by
    change j < (w.model.grafted _ _ _ _).nodes.size at high
    rw [Model.size_grafted] at high
    refine ⟨w.supply + 1, Nat.lt_succ_self _, ?_⟩
    change ((w.model.grafted _ _ _ _).node j).id = _
    -- The only node that came is the last one, under the id just supplied.
    rw [Model.node_grafted held, if_pos (Nat.le_antisymm (Nat.le_of_lt_succ high) low)]

/-- A row of siblings, each made but with nothing below it. -/
inductive Rowed (m : Model) : Option Key → List Key → List Makeup → Prop
  | nil : Rowed m none [] []
  | cons {k : Key} {keys : List Key} {rest : List Makeup} : m.Holds k → (m.node k).head = none →
    Rowed m (m.node k).next keys rest →
      Rowed m (some k) (k :: keys) (((m.node k).kind, (m.node k).toContent) :: rest)

/-- The nodes of a chain are made and linked, one behind the other. -/
theorem run_chain {trees : List ParseTree} (regular : ∀ tree ∈ trees, tree.Regular)
    (supplied : Supplied w) (held : w.model.Holds p)
    (named : (w.model.node p).edge? slot = some edge)
    (free : (w.model.node p).target? edge = none) :
    ∃ w' keys link, chain source fingerprint p slot trees w = .ok keys w' ∧
      Builds w w' (· = p) ∧ w'.model.node p = (w.model.node p).retarget edge link ∧
      Rowed w'.model link keys (trees.map (makeup source fingerprint)) ∧ keys.Nodup ∧
      ∀ k ∈ keys, w.model.nodes.size ≤ k ∧ k < w'.model.nodes.size := by
  induction trees generalizing w p slot edge with
  | nil =>
    refine ⟨w, [], none, rfl, .refl supplied _, ?_, .nil, List.nodup_nil, by simp⟩
    cases edge <;> simp only [Node.target?] at free <;> simp [Node.retarget, ← free]
  | cons tree rest ih =>
    -- The first tree is hung up at the parent, and the rest behind it, as the chain of its node.
    have made := run_createNode supplied (makeup source fingerprint tree)
    rw [← nodeOf_eq (regular tree List.mem_cons_self)] at made
    obtain ⟨linked, supplied₁⟩ :=
      run_link supplied held named free (makeup source fingerprint tree)
    have builds₁ := builds_withGraft supplied held named free (makeup source fingerprint tree)
    have size₁ : (withGraft w p edge (makeup source fingerprint tree)).model.nodes.size =
        w.model.nodes.size + 1 := Model.size_grafted
    have node₁ : (withGraft w p edge (makeup source fingerprint tree)).model.node
        w.model.nodes.size = { (makeup source fingerprint tree).2 with
          id := freshId (w.supply + 1), kind := (makeup source fingerprint tree).1
          parent := some (p, edge), owner := w.model.ownerAt p edge } :=
      (Model.node_grafted held).trans (if_pos rfl)
    have parent₁ : (withGraft w p edge (makeup source fingerprint tree)).model.node p =
        (w.model.node p).retarget edge (some w.model.nodes.size) :=
      (Model.node_grafted held).trans ((if_neg (Nat.ne_of_lt held.1)).trans (if_pos rfl))
    -- From here on only what is known of the first step counts.
    generalize withGraft w p edge (makeup source fingerprint tree) = w₁ at *
    have held₁ : w₁.model.Holds w.model.nodes.size :=
      ⟨size₁ ▸ Nat.lt_succ_self _, by rw [node₁]⟩
    have named₁ : (w₁.model.node w.model.nodes.size).edge? nextName = some .next := by
      simp [Node.edge?]
    have free₁ : (w₁.model.node w.model.nodes.size).target? .next = none := by rw [node₁]; rfl
    obtain ⟨w₂, keys, link, ran, builds₂, node₂, row, nodup, inside⟩ :=
      ih (fun tree later => regular tree (List.mem_cons_of_mem _ later)) supplied₁ held₁ named₁
        free₁
    rw [node₁] at node₂
    have parent₂ : w₂.model.node p = w₁.model.node p :=
      builds₂.kept (size₁ ▸ Nat.lt_succ_of_lt held.1) (Nat.ne_of_lt held.1)
    refine ⟨w₂, w.model.nodes.size :: keys, some w.model.nodes.size, ?_, ?_, ?_, ?_, ?_, ?_⟩
    · simp only [chain, bind, EStateM.bind, made, linked, ran]
      rfl
    · exact builds₁.trans builds₂ _ fun j before either =>
        either.elim id fun same => absurd same (Nat.ne_of_lt before)
    · rw [parent₂, parent₁]
    · have held₂ : w₂.model.Holds w.model.nodes.size :=
        ⟨held₁.1.trans_le builds₂.size, by rw [node₂]; rfl⟩
      have leaf : (w₂.model.node w.model.nodes.size).head = none := by rw [node₂]; rfl
      have behind : (w₂.model.node w.model.nodes.size).next = link := by rw [node₂]; rfl
      have first := Rowed.cons held₂ leaf (behind ▸ row)
      rw [node₂] at first
      exact first
    · -- The nodes of the rest were made after the first one.
      refine List.nodup_cons.2 ⟨fun member => ?_, nodup⟩
      have := (inside _ member).1
      omega
    · intro k member
      rcases List.mem_cons.1 member with same | later
      · rw [same]
        exact ⟨Nat.le_refl _, held₁.1.trans_le builds₂.size⟩
      · obtain ⟨low, high⟩ := inside k later
        rw [size₁] at low
        exact ⟨Nat.le_of_succ_le low, high⟩

/-- A tree is built as it should be: given its node, all that lies below it comes to stand there. -/
def Expands (source : List Char) (fingerprint : String) (tree : ParseTree) : Prop :=
  ∀ (w : Workspace) (key : Key), Supplied w → w.model.Holds key →
    (w.model.node key).kind = (makeup source fingerprint tree).1 → (w.model.node key).head = none →
    ∃ w' link, expand source fingerprint key tree w = .ok () w' ∧ Builds w w' (· = key) ∧
      w'.model.node key = { w.model.node key with head := link } ∧
      w'.model.Stands (fun k => w.model.nodes.size ≤ k ∧ k < w'.model.nodes.size) link
        (tree.nested.map (ParseTree.blueprint source fingerprint))

/-- A row of trees is built once each of them is, the last one first. -/
theorem run_expandAll {trees : List ParseTree}
    (each : ∀ tree ∈ trees, tree.Regular ∧ Expands source fingerprint tree)
    {link : Option Key} {keys : List Key} (supplied : Supplied w) (nodup : keys.Nodup)
    (row : Rowed w.model link keys (trees.map (makeup source fingerprint))) :
    ∃ w', expandAll source fingerprint keys trees w = .ok () w' ∧ Builds w w' (· ∈ keys) ∧
      w'.model.Stands (fun k => k ∈ keys ∨ w.model.nodes.size ≤ k ∧ k < w'.model.nodes.size) link
        (trees.map (ParseTree.blueprint source fingerprint)) := by
  induction trees generalizing link keys with
  | nil =>
    cases row
    exact ⟨w, rfl, .refl supplied _, .nil⟩
  | cons tree rest ih =>
    obtain ⟨regular, expands⟩ := each tree List.mem_cons_self
    generalize made : makeup source fingerprint tree = label at *
    rw [List.map_cons, made] at row
    cases row with
    | @cons k keys _ held leaf after =>
    obtain ⟨fresh, later⟩ := List.nodup_cons.1 nodup
    obtain ⟨w₁, ran₁, builds₁, stands₁⟩ :=
      ih (fun tree inside => each tree (List.mem_cons_of_mem _ inside)) later after
    have node₁ := builds₁.kept held.1 fresh
    have held₁ := builds₁.holds held fresh
    obtain ⟨w₂, below, ran₂, builds₂, node₂, stands₂⟩ := expands _ _ builds₁.supplied held₁
      (by rw [node₁, made]) (by rw [node₁]; exact leaf)
    rw [node₁] at node₂
    refine ⟨w₂, ?_, ?_, ?_⟩
    · simp only [expandAll, bind, EStateM.bind, ran₁, ran₂]
    · exact builds₁.trans builds₂ _ fun j _ either =>
        List.mem_cons.2 (either.elim .inr .inl)
    · rw [List.map_cons, ParseTree.blueprint_eq regular, made]
      have held₂ : w₂.model.Holds k :=
        ⟨held₁.1.trans_le builds₂.size, by rw [node₂]; exact held.2⟩
      have under : (w₂.model.node k).head = below := by rw [node₂]
      have behind : (w₂.model.node k).next = (w.model.node k).next := by rw [node₂]
      have below₂ : w₂.model.Stands
          (fun j => j ∈ k :: keys ∨ w.model.nodes.size ≤ j ∧ j < w₂.model.nodes.size) below
          (tree.nested.map (ParseTree.blueprint source fingerprint)) :=
        stands₂.mono (fun j inside => .inr ⟨builds₁.size.trans inside.1, inside.2⟩)
          fun _ _ held => ⟨held, rfl⟩
      -- What the rest of the row stands on is out of the reach of the first node.
      have rest₂ : w₂.model.Stands
          (fun j => j ∈ k :: keys ∨ w.model.nodes.size ≤ j ∧ j < w₂.model.nodes.size)
          (w.model.node k).next (rest.map (ParseTree.blueprint source fingerprint)) := by
        refine stands₁.mono (fun j inside => ?_) fun j inside heldJ => ?_
        · exact inside.imp (List.mem_cons_of_mem _) fun both =>
            ⟨both.1, both.2.trans_le builds₂.size⟩
        · have other : j ≠ k := by
            rintro rfl
            exact inside.elim fresh fun both => Nat.not_lt.2 both.1 held.1
          exact ⟨builds₂.holds heldJ other, builds₂.kept heldJ.1 other⟩
      have first := Model.Stands.cons (.inl List.mem_cons_self) held₂ (under ▸ below₂)
        (behind ▸ rest₂)
      rw [node₂] at first
      exact first

/-- A tree whose children make up a chain in one slot is built as it should be if they are. -/
theorem expands_of_chain (slot : String)
    (named : ∀ {n : Node}, n.kind = (makeup source fingerprint tree).1 →
      n.edge? slot = some .child)
    (each : ∀ inner ∈ tree.nested, inner.Regular ∧ Expands source fingerprint inner)
    (whole : ∀ key, expand source fingerprint key tree = do
      let keys ← chain source fingerprint key slot tree.nested
      expandAll source fingerprint keys tree.nested) : Expands source fingerprint tree := by
  intro w key supplied held kind leaf
  obtain ⟨w₁, keys, link, ran₁, builds₁, node₁, row, nodup, inside⟩ :=
    run_chain (fun inner member => (each inner member).1) supplied held (named kind) leaf
  obtain ⟨w₂, ran₂, builds₂, stands⟩ := run_expandAll each builds₁.supplied nodup row
  -- The chain is made of new nodes, so the node above it is not touched again.
  have apart : key ∉ keys := fun member => Nat.not_lt.2 (inside key member).1 held.1
  have node₂ : w₂.model.node key = w₁.model.node key :=
    builds₂.kept (held.1.trans_le builds₁.size) apart
  refine ⟨w₂, link, ?_, ?_, ?_, ?_⟩
  · rw [whole key]
    simp only [bind, EStateM.bind, ran₁, ran₂]
  · exact builds₁.trans builds₂ _ fun j before either =>
      either.elim id fun member => absurd (inside j member).1 (Nat.not_le.2 before)
  · rw [node₂, node₁]
    rfl
  · refine stands.mono (fun k either => ?_) fun _ _ held => ⟨held, rfl⟩
    rcases either with member | later
    · exact ⟨(inside k member).1, (inside k member).2.trans_le builds₂.size⟩
    · exact ⟨builds₁.size.trans later.1, later.2⟩

/-- A tree with nothing to link is built with its node. -/
theorem expands_of_leaf (bare : tree.nested = [])
    (whole : ∀ key, expand source fingerprint key tree = pure ()) :
    Expands source fingerprint tree := by
  intro w key supplied held kind leaf
  refine ⟨w, none, ?_, .refl supplied _, ?_, ?_⟩
  · rw [whole key]
    rfl
  · rw [← leaf]
  · rw [bare]
    exact .nil

/-- Every regular tree is built as it should be. -/
theorem expands_of_regular (regular : tree.Regular) : Expands source fingerprint tree := by
  -- The nodes below hang in the slot of the kind; a pair has one such node or none.
  induction regular with
  | token t => exact expands_of_leaf rfl fun key => by rw [expand]
  | @object children span inner ih =>
    have each : ∀ tree ∈ (ParseTree.rule .object children span).nested,
        tree.Regular ∧ Expands source fingerprint tree :=
      fun tree member => ⟨inner tree member, ih tree member⟩
    refine expands_of_chain membersSlot (fun {n} kind => ?_) each fun key => ?_
    · simp [Node.edge?, show n.kind = .object from kind, Kind.slot?, membersSlot, nextName]
    · rw [expand]
      rfl
  | @array children span inner ih =>
    have each : ∀ tree ∈ (ParseTree.rule .array children span).nested,
        tree.Regular ∧ Expands source fingerprint tree :=
      fun tree member => ⟨inner tree member, ih tree member⟩
    refine expands_of_chain itemsSlot (fun {n} kind => ?_) each fun key => ?_
    · simp [Node.edge?, show n.kind = .array from kind, Kind.slot?, itemsSlot, nextName]
    · rw [expand]
      rfl
  | @pair key value span inner ih =>
    cases value with
    | token t => exact expands_of_leaf rfl fun _ => by rw [expand]; simp
    | rule r children inside =>
      refine expands_of_chain valueName (fun {n} kind => ?_)
        (fun tree member => List.mem_singleton.1 member ▸ ⟨inner, ih⟩) fun k => ?_
      · simp [Node.edge?, show n.kind = .pair from kind, Kind.slot?, valueName, nextName]
      · rw [expand]
        simp [ParseTree.nested, chain, expandAll]

/-- A parse as a model: its blueprint under one top-level node, and the text around it. -/
structure Spelled (m : Model) (source : String) (tree : ParseTree) : Prop where
  sound : m.Sound
  single : ∃ root, m.roots = [root] ∧ (m.node root).next = none ∧
    Tree.mapAll (fun k => ((m.node k).kind, (m.node k).toContent)) (m.treesAt (some root)) =
      [tree.blueprint source.toList (Digest.fingerprint source)]
  leading : m.leading = String.ofList (Text.sliceTo source.toList tree.span.start)
  trailing : m.trailing = String.ofList (Text.sliceFrom source.toList tree.span.stop)
  hash : m.sourceHash = some (Digest.fingerprint source)
  plain : m.strays = []

/-- The workspace in which the model of a parse is built. -/
def blankFor (tree : ParseTree) (text : String) (supply : Nat) : Workspace where
  model :=
    { leading := String.ofList (Text.sliceTo text.toList tree.span.start)
      trailing := String.ofList (Text.sliceFrom text.toList tree.span.stop)
      sourceHash := some (Digest.fingerprint text) }
  supply := supply

theorem supplied_blankFor (tree : ParseTree) (text : String) (supply : Nat) :
    Supplied (blankFor tree text supply) where
  sound := Model.sound_of_empty rfl rfl
  handed := fun held => absurd held.1 (Nat.not_lt_zero _)

/-- Every regular tree becomes a model, under ids handed out for it. -/
theorem ofParse_eq (regular : tree.Regular) (text : String) (supply : Nat) :
    ∃ m count, Model.ofParse tree text supply = .ok (m, count) ∧ Spelled m text tree ∧
      ∀ k, m.Holds k → ∃ n, supply < n ∧ n ≤ count ∧ (m.node k).id = freshId n := by
  have supplied := supplied_blankFor tree text supply
  have ran₁ := run_createNode supplied (makeup text.toList (Digest.fingerprint text) tree)
  rw [← nodeOf_eq regular] at ran₁
  have supplied₁ := supplied.withNode (makeup text.toList (Digest.fingerprint text) tree)
  -- The first node is made at top level, and everything else comes to stand below it.
  have held₁ : (withNode (blankFor tree text supply)
      (makeup text.toList (Digest.fingerprint text) tree)).model.Holds 0 :=
    (Model.holds_grown _ _ _ _ _).2 (.inr rfl)
  have node₁ : (withNode (blankFor tree text supply)
      (makeup text.toList (Digest.fingerprint text) tree)).model.node 0 =
      { (makeup text.toList (Digest.fingerprint text) tree).2 with
        id := freshId (supply + 1), kind := (makeup text.toList (Digest.fingerprint text) tree).1 } :=
    (Model.node_grown _ _ _ _ _).trans (if_pos rfl)
  have framed : (withNode (blankFor tree text supply)
      (makeup text.toList (Digest.fingerprint text) tree)).model =
      { (blankFor tree text supply).model with
        roots := [0]
        nodes := (withNode (blankFor tree text supply)
          (makeup text.toList (Digest.fingerprint text) tree)).model.nodes } := rfl
  obtain ⟨w, link, ran₂, builds, node₂, stands⟩ := expands_of_regular regular _ _ supplied₁ held₁
    (by rw [node₁]) (by rw [node₁])
  have held₂ : w.model.Holds 0 :=
    ⟨held₁.1.trans_le builds.size, by rw [node₂]; exact held₁.2⟩
  refine ⟨w.model, w.supply, ?_, ⟨builds.supplied.sound, ⟨0, ?_, ?_, ?_⟩, ?_, ?_, ?_, ?_⟩,
    fun k held => ?_⟩
  · have built : (do
        let root ← nodeOf text.toList (Digest.fingerprint text) tree
        expand text.toList (Digest.fingerprint text) root tree : Build Unit)
          (blankFor tree text supply) = .ok () w := by
      simp only [bind, EStateM.bind, ran₁]
      exact ran₂
    unfold blankFor at built
    simp only [Model.ofParse, built]
  · rw [builds.frame, framed]
  · rw [node₂, node₁]
  · have linked := builds.supplied.sound.toLinked
    rw [linked.treesAt_some held₂, Model.tree_eq, node₂, node₁]
    simp only [Model.treesAt_none, Tree.mapAll, Tree.map]
    rw [stands.mapAll_treesAt linked, node₂, node₁, ParseTree.blueprint_eq regular]
  iterate 4 · rw [builds.frame, framed]; rfl
  · -- The first node has the first id, and all others have later ones.
    obtain ⟨n, bound, id⟩ := builds.supplied.handed held
    refine ⟨n, ?_, bound, id⟩
    cases k with
    | zero =>
      rw [node₂, node₁] at id
      exact freshId_injective id ▸ Nat.lt_succ_self supply
    | succ k =>
      obtain ⟨n', later, id'⟩ := builds.come (Nat.succ_le_succ (Nat.zero_le k)) held.1
      rw [freshId_injective (id.symm.trans id')]
      exact Nat.lt_of_succ_lt later

/-- A text that parses becomes a model. -/
theorem build_eq {text : String} {file : Json} (parsed : Parser.parse text file = .ok tree)
    (supply : Nat) :
    ∃ m count, Model.build text file supply = .ok (m, count) ∧ Spelled m text tree := by
  obtain ⟨m, count, built, spelled, _⟩ := ofParse_eq (Parser.regular_of_parse parsed) text supply
  refine ⟨m, count, ?_, spelled⟩
  rw [Model.build, parsed]
  exact built

/-- A model that was built is that of a parse. -/
theorem spelled_of_build {text : String} {file : Json} {supply count : Nat}
    (built : Model.build text file supply = .ok (m, count)) :
    ∃ tree, Parser.parse text file = .ok tree ∧ Spelled m text tree := by
  cases parsed : Parser.parse text file with
  | error e => simp [Model.build, parsed] at built
  | ok tree =>
    obtain ⟨m', count', built', spelled⟩ := build_eq parsed supply
    rw [built] at built'
    cases built'
    exact ⟨tree, rfl, spelled⟩

/-- The ids of a model that was built have been handed out for it. -/
theorem handed_of_build {text : String} {file : Json} {supply count : Nat}
    (built : Model.build text file supply = .ok (m, count)) (held : m.Holds k) :
    ∃ n, supply < n ∧ n ≤ count ∧ (m.node k).id = freshId n := by
  cases parsed : Parser.parse text file with
  | error e => simp [Model.build, parsed] at built
  | ok tree =>
    obtain ⟨m', count', built', _, handed⟩ := ofParse_eq (Parser.regular_of_parse parsed) text supply
    rw [Model.build, parsed] at built
    cases built.symm.trans built'
    exact handed k held

/-- To build a model takes ids from the supply and gives none back. -/
theorem supply_le {text : String} {file : Json} {supply count : Nat}
    (built : Model.build text file supply = .ok (m, count)) : supply ≤ count := by
  obtain ⟨tree, -, spelled⟩ := spelled_of_build built
  obtain ⟨r, single, -⟩ := spelled.single
  obtain ⟨n, above, below, -⟩ := handed_of_build built (spelled.sound.holds_root (r := r) (by simp [single]))
  omega

end Build

end DocSync
