import DocSync.Proofs.Change.Effects

/-!
The outline of a model mirrors it: it lists the nodes and the links by name. An entry that nothing
stands in the way of is accepted by the outline, which then mirrors the model after it. So the check
before a replay lets every such run of entries pass.
-/

namespace DocSync

variable {o : Outline} {m m' : Model} {ks : List Key} {js : List Joint} {j : Joint} {k p c : Key}
  {edge : Edge}

namespace Model

/-- The name of a node. -/
def nameOf (m : Model) (k : Key) : Name := (m.node k).id.name

/-- A node as an outline knows it. -/
def outlined (m : Model) (k : Key) : Outlined := ⟨m.nameOf k, (m.node k).kind, (m.node k).fields⟩

/-- A link by the names of its ends. -/
def named (m : Model) (j : Joint) : NamedLink :=
  ⟨m.nameOf j.parent, (m.node j.parent).edgeName j.edge, m.nameOf j.child⟩

end Model

/-- An outline lists the nodes and the links of a model, in some order. -/
structure Mirrors (o : Outline) (m : Model) (ks : List Key) (js : List Joint) : Prop where
  held : ∀ {k}, k ∈ ks ↔ m.Holds k
  keys_nodup : ks.Nodup
  joined : ∀ {j}, j ∈ js ↔ m.Joins j
  joints_nodup : js.Nodup
  nodes : o.nodes = ks.map m.outlined
  links : o.links = js.map m.named
  parents : o.parents = js.map fun j => (m.nameOf j.child, m.nameOf j.parent)
  holders : o.holders.Perm (js.map fun j => m.nameOf j.parent)

theorem mirrors_outline (sound : m.Sound) :
    Mirrors m.outline m m.order.reverse (m.order.reverse.flatMap fun k => (m.jointsAt k).reverse) := by
  have named : ∀ k, m.linksOf k = (m.jointsAt k).map m.named := by
    intro k
    unfold Model.linksOf Model.jointsAt
    rw [List.map_filterMap]
    refine List.filterMap_congr fun e _ => ?_
    cases (m.node k).target? e <;> rfl
  -- The outline lists nodes and links with the latest first.
  have links : (m.order.reverse.flatMap fun k => (m.linksOf k).reverse) =
      (m.order.reverse.flatMap fun k => (m.jointsAt k).reverse).map m.named := by
    rw [List.map_flatMap]
    refine List.flatMap_congr fun k _ => ?_
    rw [named, List.map_reverse]
  refine ⟨fun {k} => ?_, List.nodup_reverse.2 sound.nodup_order, fun {j} => ?_, ?_, rfl, links,
    ?_, .of_eq ?_⟩
  · rw [List.mem_reverse, sound.mem_order]
  · simp only [List.mem_flatMap, List.mem_reverse, sound.mem_order, Model.mem_jointsAt, Model.Joins]
    constructor
    · rintro ⟨k, held, rfl, leads⟩
      exact ⟨held, leads⟩
    · rintro ⟨held, leads⟩
      exact ⟨j.parent, held, rfl, leads⟩
  · rw [List.nodup_flatMap]
    refine ⟨fun k _ => List.nodup_reverse.2 (m.nodup_jointsAt k), ?_⟩
    refine (List.nodup_reverse.2 sound.nodup_order).imp fun {a b} differ j left right => ?_
    rw [List.mem_reverse, Model.mem_jointsAt] at left right
    exact differ (left.1.symm.trans right.1)
  · change (m.order.reverse.flatMap fun k => (m.linksOf k).reverse).map _ = _
    rw [links, List.map_map]
    rfl
  · change (m.order.reverse.flatMap fun k => (m.linksOf k).reverse).map _ = _
    rw [links, List.map_map]
    rfl

/-- Two links that leave one slot are one. -/
theorem Model.Sound.joint_of_named (sound : m.Sound) {j' : Joint} (joins : m.Joins j) (joins' : m.Joins j')
    (parent : m.nameOf j'.parent = m.nameOf j.parent)
    (slot : (m.node j'.parent).edgeName j'.edge = (m.node j.parent).edgeName j.edge) : j' = j := by
  obtain ⟨p', e', c'⟩ := j'
  obtain ⟨p, e, c⟩ := j
  obtain rfl : p' = p := sound.named joins'.1 joins.1 parent
  obtain rfl : e' = e := (m.node p').edgeName_injective slot
  have target := joins.2.symm.trans joins'.2
  simp only [Option.some.injEq] at target
  rw [target]

namespace Mirrors

variable (mirrors : Mirrors o m ks js) (sound : m.Sound)
include mirrors sound

theorem node?_nameOf (held : m.Holds k) : o.node? (m.nameOf k) = some (m.outlined k) := by
  have member := List.mem_map_of_mem (f := m.outlined) (mirrors.held.2 held)
  rw [Outline.node?, mirrors.nodes]
  cases found : (ks.map m.outlined).find? (·.name == m.nameOf k) with
  | none => exact (List.find?_eq_none.1 found _ member (by simp [Model.outlined])).elim
  | some x =>
    obtain ⟨k', inside, rfl⟩ := List.mem_map.1 (List.mem_of_find?_eq_some found)
    have same : m.nameOf k' = m.nameOf k := by simpa [Model.outlined] using List.find?_some found
    rw [sound.named (mirrors.held.1 inside) held same]

omit sound in
theorem node?_eq_none {name : Name} (free : ∀ k, m.Holds k → m.nameOf k ≠ name) :
    o.node? name = none := by
  rw [Outline.node?, mirrors.nodes, List.find?_eq_none]
  intro x member
  obtain ⟨k, inside, rfl⟩ := List.mem_map.1 member
  simpa [Model.outlined] using free k (mirrors.held.1 inside)

theorem link?_of_joins (joins : m.Joins j) :
    o.link? (m.nameOf j.parent) ((m.node j.parent).edgeName j.edge) = some (m.named j) := by
  have member := List.mem_map_of_mem (f := m.named) (mirrors.joined.2 joins)
  rw [Outline.link?, mirrors.links]
  cases found : (js.map m.named).find? fun l =>
      l.parent == m.nameOf j.parent && l.slot == (m.node j.parent).edgeName j.edge with
  | none => exact (List.find?_eq_none.1 found _ member (by simp [Model.named])).elim
  | some l =>
    obtain ⟨j', inside, rfl⟩ := List.mem_map.1 (List.mem_of_find?_eq_some found)
    have same := List.find?_some found
    simp only [Model.named, Bool.and_eq_true, beq_iff_eq] at same
    rw [sound.joint_of_named joins (mirrors.joined.1 inside) same.1 same.2]

theorem link?_eq_none (held : m.Holds p) (free : (m.node p).target? edge = none) :
    o.link? (m.nameOf p) ((m.node p).edgeName edge) = none := by
  rw [Outline.link?, mirrors.links, List.find?_eq_none]
  intro l member
  obtain ⟨j, inside, rfl⟩ := List.mem_map.1 member
  have joins := mirrors.joined.1 inside
  simp only [Model.named, Bool.and_eq_true, beq_iff_eq, not_and]
  intro parent slot
  obtain rfl := sound.named joins.1 held parent
  obtain rfl := (m.node j.parent).edgeName_injective slot
  rw [joins.2] at free
  cases free

theorem parent?_of_joins (joins : m.Joins j) :
    o.parent? (m.nameOf j.child) = some (m.nameOf j.parent) := by
  rw [Outline.parent?, mirrors.parents]
  refine Assoc.lookup_of_mem (List.mem_map.2 ⟨j, mirrors.joined.2 joins, rfl⟩) fun other member => ?_
  obtain ⟨j', inside, same⟩ := List.mem_map.1 member
  have joins' := mirrors.joined.1 inside
  simp only [Prod.mk.injEq] at same
  have child := sound.named (sound.holds_child joins') (sound.holds_child joins) same.1
  rw [← same.2, sound.joins_child_unique joins' joins child]

theorem parent?_eq_none (held : m.Holds c) (root : (m.node c).parent = none) :
    o.parent? (m.nameOf c) = none := by
  rw [Outline.parent?, mirrors.parents, Assoc.lookup_eq_none_iff]
  intro entry member same
  obtain ⟨j, inside, rfl⟩ := List.mem_map.1 member
  have joins := mirrors.joined.1 inside
  obtain rfl := sound.named (sound.holds_child joins) held same
  rw [(sound.back joins.1 joins.2).2] at root
  cases root

theorem hasLink_eq_false (held : m.Holds k) (leaf : ∀ e, (m.node k).target? e = none) :
    o.hasLink (m.nameOf k) = false := by
  have absent : m.nameOf k ∉ o.holders := by
    rw [mirrors.holders.mem_iff, List.mem_map]
    rintro ⟨j, inside, same⟩
    have joins := mirrors.joined.1 inside
    obtain rfl := sound.named joins.1 held same
    have target := joins.2
    rw [leaf] at target
    cases target
  simpa [Outline.hasLink] using absent

/-- What the outline meets on the way up from a node stands over it. -/
theorem over_of_isAboveFrom {fuel : Nat} (heldC : m.Holds c) (heldP : m.Holds p)
    (met : o.isAboveFrom (m.nameOf c) fuel (some (m.nameOf p)) = true) : m.Over c p := by
  induction fuel generalizing p with
  | zero => simp [Outline.isAboveFrom] at met
  | succ fuel ih =>
    rw [Outline.isAboveFrom, Bool.or_eq_true, beq_iff_eq] at met
    -- Either the node itself is met, or it is met further up, from the parent.
    rcases met with same | above
    · rw [sound.named heldP heldC same]
      exact .refl
    · cases parent : (m.node p).parent with
      | none =>
        rw [mirrors.parent?_eq_none sound heldP parent] at above
        cases fuel <;> simp [Outline.isAboveFrom] at above
      | some link =>
        obtain ⟨q, e⟩ := link
        obtain ⟨heldQ, leads⟩ := sound.forth heldP parent
        have up := mirrors.parent?_of_joins sound (j := ⟨q, e, p⟩) ⟨heldQ, leads⟩
        simp only at up
        rw [up] at above
        exact (ih heldQ above).step heldP parent

theorem isAbove_eq_false (heldC : m.Holds c) (heldP : m.Holds p) (apart : ¬ m.Over c p) :
    o.isAbove (m.nameOf c) (m.nameOf p) = false := by
  rw [Outline.isAbove, Bool.or_eq_false_iff, Bool.and_eq_false_imp]
  refine ⟨beq_false_of_ne fun same => ?_, fun _ => Bool.eq_false_iff.2 fun met => ?_⟩
  · exact apart (sound.named heldP heldC same ▸ .refl)
  · exact apart (mirrors.over_of_isAboveFrom sound heldC heldP met)

end Mirrors

/-! ### Steps -/

/-- What an outline knows of a link is known of its ends. -/
theorem Model.named_congr (kept : ∀ k, m'.outlined k = m.outlined k) : m'.named = m.named := by
  have name : m'.nameOf = m.nameOf := funext fun k => congrArg Outlined.name (kept k)
  funext j
  have kind : (m'.node j.parent).kind = (m.node j.parent).kind := congrArg Outlined.kind (kept j.parent)
  rw [Model.named, Model.named, name, Node.edgeName_congr kind]

section Steps

variable (mirrors : Mirrors o m ks js) (sound : m.Sound)
include mirrors sound

/-- A link that is cut is taken from the outline. -/
theorem Mirrors.removeLink (joins : m.Joins j)
    (kept : ∀ k, m'.outlined k = m.outlined k)
    (holds : ∀ k, m'.Holds k ↔ m.Holds k) (joined : ∀ j', m'.Joins j' ↔ m.Joins j' ∧ j' ≠ j) :
    Mirrors (o.removeLink (m.named j)) m' ks (js.filter (· != j)) := by
  have name : m'.nameOf = m.nameOf := funext fun k => congrArg Outlined.name (kept k)
  have outlined : m'.outlined = m.outlined := funext kept
  have named : m'.named = m.named := Model.named_congr kept
  -- Only the link itself leaves its slot, and only it reaches its child.
  have alone : ∀ j' ∈ js, (m.nameOf j'.parent = m.nameOf j.parent ∧
      (m.node j'.parent).edgeName j'.edge = (m.node j.parent).edgeName j.edge) ↔ j' = j :=
    fun j' inside => ⟨fun same => sound.joint_of_named joins (mirrors.joined.1 inside) same.1 same.2,
      fun same => by simp [same]⟩
  have reached : ∀ j' ∈ js, m.nameOf j'.child = m.nameOf j.child ↔ j' = j := fun j' inside =>
    ⟨fun same => sound.joins_child_unique (mirrors.joined.1 inside) joins
      (sound.named (sound.holds_child (mirrors.joined.1 inside)) (sound.holds_child joins) same),
      fun same => by rw [same]⟩
  refine ⟨fun {k} => ?_, mirrors.keys_nodup, fun {j'} => ?_, mirrors.joints_nodup.filter _, ?_, ?_,
    ?_, ?_⟩
  · rw [holds, mirrors.held]
  · rw [List.mem_filter, mirrors.joined, joined]
    simp
  · rw [outlined]
    exact mirrors.nodes
  · change o.links.filter _ = _
    rw [named, mirrors.links, List.filter_map]
    refine congrArg _ (List.filter_congr fun j' inside => ?_)
    by_cases same : j' = j
    · simp [same, Model.named]
    · have apart := mt (alone j' inside).1 same
      rw [not_and_or] at apart
      rw [bne_iff_ne.2 same]
      simpa [Model.named] using apart
  · change o.parents.filter _ = _
    rw [name, mirrors.parents, List.filter_map]
    refine congrArg _ (List.filter_congr fun j' inside => ?_)
    by_cases same : j' = j
    · simp [same, Model.named]
    · have apart := mt (reached j' inside).1 same
      rw [bne_iff_ne.2 same]
      simpa [Model.named] using apart
  · -- The parent is a holder once for each of its links, so one mention of it goes.
    change (o.holders.erase _).Perm _
    have member := mirrors.joined.2 joins
    have taken : (js.map fun j' => m.nameOf j'.parent).Perm
        (m.nameOf j.parent :: (js.filter (· != j)).map fun j' => m.nameOf j'.parent) := by
      rw [← mirrors.joints_nodup.erase_eq_filter]
      exact (List.perm_cons_erase member).map fun j' => m.nameOf j'.parent
    rw [name]
    exact ((mirrors.holders.trans taken).erase _).trans (by rw [Model.named, List.erase_cons_head])

omit sound in
/-- A link that is made is put to the outline. -/
theorem Mirrors.addLink (fresh : ¬ m.Joins j)
    (kept : ∀ k, m'.outlined k = m.outlined k)
    (holds : ∀ k, m'.Holds k ↔ m.Holds k) (joined : ∀ j', m'.Joins j' ↔ m.Joins j' ∨ j' = j) :
    Mirrors (o.addLink (m.named j)) m' ks (j :: js) := by
  have name : m'.nameOf = m.nameOf := funext fun k => congrArg Outlined.name (kept k)
  have outlined : m'.outlined = m.outlined := funext kept
  have named : m'.named = m.named := Model.named_congr kept
  refine ⟨fun {k} => ?_, mirrors.keys_nodup, fun {j'} => ?_,
    List.nodup_cons.2 ⟨fun inside => fresh (mirrors.joined.1 inside), mirrors.joints_nodup⟩,
    ?_, ?_, ?_, ?_⟩
  · rw [holds, mirrors.held]
  · rw [List.mem_cons, mirrors.joined, joined, or_comm]
  · rw [outlined]
    exact mirrors.nodes
  · rw [named, List.map_cons, ← mirrors.links]
    rfl
  · rw [name, List.map_cons, ← mirrors.parents]
    rfl
  · rw [name, List.map_cons]
    exact mirrors.holders.cons _

omit sound in
/-- Where the links and the names of their ends stay, only the nodes have to be listed anew. -/
theorem Mirrors.withNodes {nodes : List Outlined} {ks' : List Key} (held : ∀ k, k ∈ ks' ↔ m'.Holds k)
    (nodup : ks'.Nodup) (joined : ∀ j, m'.Joins j ↔ m.Joins j) (kept : ∀ j ∈ js, m'.named j = m.named j)
    (listed : nodes = ks'.map m'.outlined) : Mirrors { o with nodes } m' ks' js := by
  have parent : ∀ j ∈ js, m'.nameOf j.parent = m.nameOf j.parent := fun j inside =>
    congrArg NamedLink.parent (kept j inside)
  have child : ∀ j ∈ js, m'.nameOf j.child = m.nameOf j.child := fun j inside =>
    congrArg NamedLink.child (kept j inside)
  refine ⟨held _, nodup, mirrors.joined.trans (joined _).symm, mirrors.joints_nodup, listed, ?_, ?_, ?_⟩
  · rw [List.map_congr_left kept]
    exact mirrors.links
  · refine mirrors.parents.trans (List.map_congr_left fun j inside => ?_)
    rw [parent j inside, child j inside]
  · rw [List.map_congr_left parent]
    exact mirrors.holders

/-- A node that is made comes first. -/
theorem Mirrors.grown (id : NodeId) (kind : Kind) (content : Content) :
    Mirrors { o with nodes := ⟨id.name, kind, content.fields⟩ :: o.nodes } (m.grown id kind content)
      (m.nodes.size :: ks) js := by
  have here := m.node_grown id kind content
  have old : ∀ {k}, m.Holds k → (m.grown id kind content).node k = m.node k :=
    fun {k} held => by rw [here, if_neg (Nat.ne_of_lt held.1)]
  refine mirrors.withNodes (fun k => ?_) ?_ (fun _ => Model.joins_grown id kind content)
    (fun j inside => ?_) ?_
  · rw [List.mem_cons, mirrors.held, m.holds_grown, or_comm]
  · exact List.nodup_cons.2 ⟨fun inside => Nat.lt_irrefl _ (mirrors.held.1 inside).1, mirrors.keys_nodup⟩
  · have joins := mirrors.joined.1 inside
    simp only [Model.named, Model.nameOf, old joins.1, old (sound.holds_child joins)]
  · rw [mirrors.nodes, List.map_cons]
    refine congrArg₂ _ ?_ (List.map_congr_left fun k inside => ?_)
    · simp only [Model.outlined, Model.nameOf, here, if_true]
    · simp only [Model.outlined, Model.nameOf, old (mirrors.held.1 inside)]

/-- A node without links is struck out. -/
theorem Mirrors.pruned (held : m.Holds k) (root : (m.node k).parent = none)
    (leaf : ∀ e, (m.node k).target? e = none) :
    Mirrors { o with nodes := o.nodes.filter (·.name != m.nameOf k) } (m.pruned k) (ks.erase k) js := by
  have old : ∀ {k'}, k' ≠ k → (m.pruned k).node k' = m.node k' := fun {k'} differ =>
    Model.node_pruned_of_ne (m := m) differ
  refine mirrors.withNodes (fun k' => ?_) (mirrors.keys_nodup.erase k) (fun _ => Model.joins_pruned leaf)
    (fun j inside => ?_) ?_
  · rw [mirrors.keys_nodup.mem_erase_iff, mirrors.held, Model.holds_pruned, and_comm]
  · -- No link starts or ends at the node.
    have joins := mirrors.joined.1 inside
    have above : j.parent ≠ k := fun same => by
      have target := joins.2
      rw [same, leaf] at target
      cases target
    have below : j.child ≠ k := fun same => by
      have parent := (sound.back joins.1 joins.2).2
      rw [same, root] at parent
      cases parent
    simp only [Model.named, Model.nameOf, old above, old below]
  · rw [mirrors.nodes, List.filter_map, mirrors.keys_nodup.erase_eq_filter]
    have same : ks.filter ((fun x : Outlined => x.name != m.nameOf k) ∘ m.outlined) =
        ks.filter (· != k) := by
      refine List.filter_congr fun k' inside => ?_
      by_cases here : k' = k
      · simp [here, Model.outlined]
      · have apart : m.nameOf k' ≠ m.nameOf k := fun also =>
          here (sound.named (mirrors.held.1 inside) held also)
        rw [bne_iff_ne.2 here]
        simpa [Model.outlined] using apart
    rw [same]
    refine List.map_congr_left fun k' inside => ?_
    have differ : k' ≠ k := by simpa using (List.mem_filter.1 inside).2
    simp only [Model.outlined, Model.nameOf, old differ]

/-- A node whose field is changed has its new fields. -/
theorem Mirrors.withField (held : m.Holds k) (name : String) (value : Option String) :
    Mirrors (o.setFields (m.nameOf k) ((m.node k).fields.assign name value)) (m.withField k name value)
      ks js := by
  have same := m.sameForest_withField k name value
  have node := fun k' => m.node_withField k k' name value
  have kept : ∀ k', (m.withField k name value).nameOf k' = m.nameOf k' := fun k' =>
    congrArg NodeId.name (same.id k')
  refine mirrors.withNodes (fun k' => mirrors.held.trans same.holds_iff.symm) mirrors.keys_nodup
    (fun _ => m.joins_withField k name value) (fun j _ => ?_) ?_
  · rw [Model.named, Model.named, kept, kept, Node.edgeName_congr (same.kind j.parent)]
  · rw [mirrors.nodes, List.map_map]
    refine List.map_congr_left fun k' inside => ?_
    -- Names tell nodes apart, so one node alone is listed with other fields.
    by_cases here : k' = k
    · subst here
      simp only [Function.comp, Model.outlined, kept, if_true, node, held.1, and_self]
    · have apart : m.nameOf k' ≠ m.nameOf k := fun also =>
        here (sound.named (mirrors.held.1 inside) held also)
      simp only [Function.comp, Model.outlined, apart, if_false, kept, node, here, false_and]

omit mirrors in
/-- An entry that nothing stands in the way of is accepted, and the outline goes on to mirror the
model. -/
theorem Does.step {entry : Entry} (does : Does m entry m') (mirrors : Mirrors o m ks js) :
    ∃ o' ks' js', o.step entry = .ok o' ∧ Mirrors o' m' ks' js' := by
  -- A node that the model holds is known to the outline under any id of its name.
  have known : ∀ {k} {id : NodeId}, m.Holds k → (m.node k).id.name = id.name →
      o.node? id.name = some (m.outlined k) := by
    intro k id held name
    rw [← name]
    exact mirrors.node?_nameOf sound held
  cases does with
  | create node solid free =>
    have apart : ∀ k, m.Holds k → m.nameOf k ≠ node.id.name := by
      intro k held same
      rw [sound.find?_eq_some_iff.2 ⟨held, same⟩] at free
      cases free
    refine ⟨_, _, js, ?_, mirrors.grown sound node.id node.kind node.content⟩
    simp only [Outline.step, mirrors.node?_eq_none apart, Option.isSome_none, Bool.false_eq_true, if_false]
  | @delete k id kind content held name root last leaf =>
    have free : ∀ e, (m.node k).target? e = none := fun e => by cases e <;> assumption
    refine ⟨_, _, js, ?_, mirrors.pruned sound held root free⟩
    have up := mirrors.parent?_eq_none sound held root
    have down := mirrors.hasLink_eq_false sound held free
    have here := known held name
    rw [← name] at here
    simp only [Model.nameOf] at up down ⊢
    simp only [Outline.step, ← name, here, up, down]
    rfl
  | @addLink p c edge link heldP heldC nameP nameC named free root apart =>
    have slot := Node.edgeName_of_edge? named
    have differ : p ≠ c := fun same => apart (same ▸ .refl)
    have bare := Model.bare_rehang edge heldP heldC differ true
    have fresh : ¬ m.Joins ⟨p, edge, c⟩ := fun joins => by
      have target : (m.node p).target? edge = some c := joins.2
      rw [free] at target
      cases target
    have kept : ∀ k, (m.rehang p edge c true).outlined k = m.outlined k := fun k => by
      simp only [Model.outlined, Model.nameOf, bare]
    refine ⟨_, ks, ⟨p, edge, c⟩ :: js, ?_, mirrors.addLink fresh kept
      (Model.holds_rehang _ heldP heldC differ true)
      fun j => Model.joins_rehang_true heldP heldC differ free⟩
    -- None of the checks before a link is made finds anything.
    have vacant := mirrors.link?_eq_none sound heldP free
    have alone := mirrors.parent?_eq_none sound heldC root
    have below := mirrors.isAbove_eq_false sound heldC heldP apart
    rw [slot, Model.nameOf, nameP] at vacant
    rw [Model.nameOf, nameC] at alone
    rw [Model.nameOf, Model.nameOf, nameC, nameP] at below
    have fits : ¬ (link.slot ≠ nextName ∧ (m.node p).kind.slot? ≠ some link.slot) := by
      rintro ⟨notNext, notSlot⟩
      simp [Node.edge?, notNext, notSlot] at named
    have same : m.named ⟨p, edge, c⟩ = link.named := by
      simp only [Model.named, Model.nameOf, Link.named, nameP, nameC, slot]
    rw [same]
    simp only [Outline.step, known heldP nameP, known heldC nameC, vacant, alone, below, bind,
      Except.bind, Option.isSome_none, Bool.false_eq_true, if_false]
    simp only [Functor.discard, Functor.mapConst, Except.map, Function.comp]
    exact if_neg fits
  | @removeLink p c edge link heldP nameP nameC named leads =>
    have slot := Node.edgeName_of_edge? named
    obtain ⟨heldC, parent⟩ := sound.back heldP leads
    have differ : p ≠ c := fun same => sound.not_over_parent heldC parent (same ▸ .refl)
    have bare := Model.bare_rehang edge heldP heldC differ false
    have joins : m.Joins ⟨p, edge, c⟩ := ⟨heldP, leads⟩
    have kept : ∀ k, (m.rehang p edge c false).outlined k = m.outlined k := fun k => by
      simp only [Model.outlined, Model.nameOf, bare]
    refine ⟨_, ks, _, ?_, mirrors.removeLink sound joins kept
      (Model.holds_rehang _ heldP heldC differ false)
      fun j => Model.joins_rehang_false heldP heldC differ leads⟩
    have present := mirrors.link?_of_joins sound joins
    have known := mirrors.parent?_of_joins sound joins
    have same : m.named ⟨p, edge, c⟩ = link.named := by
      simp only [Model.named, Model.nameOf, Link.named, nameP, nameC, slot]
    rw [same]
    simp only [Model.nameOf, nameP, nameC, slot] at present known
    rw [same] at present
    simp only [Outline.step, present, known, ne_eq, not_true_eq_false, if_false,
      Option.isNone_some, Bool.false_eq_true]
  | @changeField k change held name old =>
    refine ⟨_, ks, js, ?_, mirrors.withField sound held change.name change.new⟩
    rw [Model.nameOf, name]
    simp only [Outline.step, known held name, bind, Except.bind, Model.outlined, old, ne_eq,
      not_true_eq_false, if_false]
    cases change.new <;> rfl

end Steps

/-- The outline accepts a run of entries that nothing stands in the way of. -/
theorem DoesAll.replay {entries : List Entry} (does : DoesAll m entries m') (sound : m.Sound)
    (mirrors : Mirrors o m ks js) : ∃ o', o.replay entries = .ok o' := by
  induction does generalizing o ks js with
  | nil => exact ⟨o, rfl⟩
  | cons step _ ih =>
    obtain ⟨o', ks', js', ran, mirrors'⟩ := step.step sound mirrors
    obtain ⟨last, rest⟩ := ih (step.sound sound) mirrors'
    exact ⟨last, by simp only [Outline.replay, ran, bind, Except.bind, rest]⟩

/-- Entries that nothing stands in the way of are replayed, all of them. -/
theorem Host.Gives.applyEntries {σ : Type} {h : Host Error σ} (quiet : h.Quiet)
    {entries : List Entry} {s : σ} (sound : (h.model s).Sound)
    (does : DoesAll (h.model s) entries m') :
    ∃ applied, applied.entries = entries ∧ h.Gives s (h.applyEntries entries) applied m' := by
  obtain ⟨o', accepted⟩ := does.replay sound (mirrors_outline sound)
  obtain ⟨backs, gives⟩ := Gives.mapM_applyEntry quiet sound does
  refine ⟨⟨entries, backs⟩, rfl, ?_⟩
  have looked : h.current s = .ok (h.model s) s := rfl
  refine Gives.trans looked ?_
  rw [accepted]
  exact gives.bind fun s'' last => last ▸ Gives.pure h s'' _

end DocSync
