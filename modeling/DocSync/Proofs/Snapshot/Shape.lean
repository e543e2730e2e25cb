import DocSync.Proofs.Snapshot.Identity

/-!
The shape of a model with one top-level node: its trees with nothing but the kind and the fields of
each node. A snapshot of such a model depends on its shape alone.
-/

namespace DocSync

variable {α β ι κ : Type} {m m' : Model} {a b c k r x : Key} {e : Edge} {link : Option Key}

/-- A tree of nodes that shows their kinds and fields only. -/
abbrev Shape := Tree (Kind × Dict String)

namespace Shape

/-- The records of trees, in which a node goes by its place in the order of the document, counted
from `start`. -/
def recordsFrom (start : Nat) : List Shape → List (Record Nat)
  | [] => []
  | .node content children :: rest =>
    { id := start
      kind := content.1
      fields := content.2
      head := if children.isEmpty then none else some (start + 1)
      next := if rest.isEmpty then none else some (start + 1 + Tree.sizeAll children) } ::
      (recordsFrom (start + 1) children ++
        recordsFrom (start + 1 + Tree.sizeAll children) rest)

/-- The label of a place: the line where it is first mentioned, and its kind. -/
def labelAt (records : List (Record Nat)) (place : Nat) : String :=
  labelText (lineOf records place) ((records[place]?.map (·.kind)).getD default)

/-- The records that a snapshot has of trees. -/
def labelled (shapes : List Shape) : List (Record String) :=
  (recordsFrom 0 shapes).map (Record.replaceIds (labelAt (recordsFrom 0 shapes)))

end Shape

namespace Model

/-- The shapes of the trees that a link leads to. -/
def shapesAt (m : Model) (link : Option Key) : List Shape := Tree.mapAll m.contentOf (m.treesAt link)

@[simp] theorem shapesAt_none (m : Model) : m.shapesAt none = [] := by
  rw [shapesAt, treesAt_none, Tree.mapAll]

theorem Linked.shapesAt_some (linked : m.Linked) (held : m.Holds k) :
    m.shapesAt (some k) =
      .node (m.contentOf k) (m.shapesAt (m.node k).head) :: m.shapesAt (m.node k).next := by
  rw [shapesAt, linked.treesAt_some held, tree_eq, Tree.mapAll, Tree.map]
  rfl

/-- Models whose links lead from image to image have the same shapes there. -/
theorem Linked.shapesAt_image (linked : m.Linked) (linked' : m'.Linked) {image : Key → Key}
    (holds : ∀ {b}, m.Holds b → m'.Holds (image b))
    (content : ∀ {b}, m.Holds b → m'.contentOf (image b) = m.contentOf b)
    (target : ∀ {b}, m.Holds b → ∀ e,
      (m'.node (image b)).target? e = ((m.node b).target? e).map image) (held : m.Holds k) :
    m'.shapesAt (some (image k)) = m.shapesAt (some k) := by
  refine linked.descend (motive := fun k => m'.shapesAt (some (image k)) = m.shapesAt (some k))
    (fun k held ih => ?_) held
  have part : ∀ e, m'.shapesAt ((m'.node (image k)).target? e) =
      m.shapesAt ((m.node k).target? e) := by
    intro e
    rw [target held e]
    cases leads : (m.node k).target? e with
    | none => simp
    | some c => exact ih c ⟨e, leads⟩
  have below := part .child
  have after := part .next
  simp only [Node.target?] at below after
  rw [linked.shapesAt_some held, linked'.shapesAt_some (holds held), content held, below, after]

/-! ### Places -/

theorem sizeAll_shapesAt (m : Model) (link : Option Key) :
    Tree.sizeAll (m.shapesAt link) = (Tree.preorderAll (m.treesAt link)).length := by
  rw [shapesAt, Tree.sizeAll_eq, Tree.preorderAll_mapAll, List.length_map]

/-- The trees of a link are none only if the link leads nowhere. -/
theorem Linked.isEmpty_shapesAt (linked : m.Linked) (held : m.Holds k) :
    (m.shapesAt ((m.node k).target? e)).isEmpty = ((m.node k).target? e).isNone := by
  cases leads : (m.node k).target? e with
  | none => simp
  | some c => simp [linked.shapesAt_some (linked.back held leads).1]

/-- The nodes of a link, shown under names that belong to their places, are the records of the
link's shapes under those names. -/
theorem Linked.map_shown (linked : m.Linked) (name : Key → ι) (at_ : Nat → ι) (held : m.Holds k)
    (start : Nat)
    (agree : ∀ i x, (Tree.preorderAll (m.treesAt (some k)))[i]? = some x → at_ (start + i) = name x) :
    (Tree.preorderAll (m.treesAt (some k))).map (m.shown name) =
      (Shape.recordsFrom start (m.shapesAt (some k))).map (Record.replaceIds at_) := by
  refine linked.descend (motive := fun k => ∀ start,
    (∀ i x, (Tree.preorderAll (m.treesAt (some k)))[i]? = some x → at_ (start + i) = name x) →
    (Tree.preorderAll (m.treesAt (some k))).map (m.shown name) =
      (Shape.recordsFrom start (m.shapesAt (some k))).map (Record.replaceIds at_))
    (fun k held ih start agree => ?_) held start agree
  have expand : Tree.preorderAll (m.treesAt (some k)) =
      k :: (Tree.preorderAll (m.treesAt ((m.node k).target? .child)) ++
        Tree.preorderAll (m.treesAt ((m.node k).target? .next))) := by
    rw [linked.treesAt_some held, tree_eq, Tree.preorderAll_cons, Tree.preorder_node,
      List.cons_append]
    rfl
  have shape : m.shapesAt (some k) = .node (m.contentOf k)
      (m.shapesAt ((m.node k).target? .child)) :: m.shapesAt ((m.node k).target? .next) :=
    linked.shapesAt_some held
  rw [expand] at agree
  -- Either link has its records from the place on where its nodes begin.
  have part : ∀ e from_, (∀ i x, (Tree.preorderAll (m.treesAt ((m.node k).target? e)))[i]? = some x →
      at_ (from_ + i) = name x) →
      (Tree.preorderAll (m.treesAt ((m.node k).target? e))).map (m.shown name) =
        (Shape.recordsFrom from_ (m.shapesAt ((m.node k).target? e))).map
          (Record.replaceIds at_) ∧
      ((m.node k).target? e).map name =
        (if (m.shapesAt ((m.node k).target? e)).isEmpty then none else some from_).map at_ := by
    intro e from_ agree
    rw [linked.isEmpty_shapesAt held]
    cases leads : (m.node k).target? e with
    | none => simp [Shape.recordsFrom]
    | some c =>
      rw [leads] at agree
      refine ⟨ih c ⟨e, leads⟩ from_ agree, ?_⟩
      have first := agree 0 c (by
        simp [linked.treesAt_some (linked.back held leads).1, tree_eq])
      simpa using first.symm
  have here : at_ start = name k := agree 0 k rfl
  obtain ⟨below, head⟩ := part .child (start + 1) fun i x place => by
    have index : start + 1 + i = start + (i + 1) := by omega
    rw [index]
    refine agree (i + 1) x ?_
    rw [List.getElem?_cons_succ, List.getElem?_append_left
      (List.getElem?_eq_some_iff.1 place).1, place]
  obtain ⟨after, next⟩ := part .next
      (start + 1 + Tree.sizeAll (m.shapesAt ((m.node k).target? .child))) fun i x place => by
    rw [sizeAll_shapesAt]
    have index : ∀ n, start + 1 + n + i = start + (n + i + 1) := by omega
    rw [index]
    refine agree _ x ?_
    rw [List.getElem?_cons_succ, List.getElem?_append_right (Nat.le_add_right _ _),
      Nat.add_sub_cancel_left, place]
  rw [expand, shape, Shape.recordsFrom, List.map_cons, List.map_cons, List.map_append,
    List.map_append, below, after]
  refine congrArg (· :: _) ?_
  simp only [shown, Record.replaceIds, here, Record.mk.injEq, true_and]
  exact ⟨rfl, rfl, head, next⟩

end Model

/-! ### Lines under other names -/

namespace Record

variable (name : ι → κ) (r : Record ι)

theorem height_replaceIds : (r.replaceIds name).height = r.height := by
  unfold height slots
  cases slot : r.kind.slot? <;> simp [replaceIds, slot]

theorem mentions_replaceIds (start : Nat) :
    (r.replaceIds name).mentions start = (r.mentions start).map (fun p => (name p.1, p.2)) := by
  unfold mentions slots
  cases slot : r.kind.slot? <;> cases next : r.next <;> cases head : r.head <;>
    simp [replaceIds, slot, next, head]

end Record

theorem mentionsFrom_replaceIds (name : ι → κ) (start : Nat) (records : List (Record ι)) :
    mentionsFrom start (records.map (Record.replaceIds name)) =
      (mentionsFrom start records).map (fun p => (name p.1, p.2)) := by
  induction records generalizing start with
  | nil => rfl
  | cons r rest ih =>
    rw [List.map_cons, mentionsFrom, mentionsFrom, List.map_append, r.mentions_replaceIds,
      r.height_replaceIds, ih]

/-- Under other names that differ, names are first mentioned where they were. -/
theorem lineOf_replaceIds [DecidableEq ι] [DecidableEq κ] {name : ι → κ}
    {records : List (Record ι)} {x : ι}
    (apart : ∀ p ∈ mentionsFrom 2 records, name x = name p.1 → x = p.1) :
    lineOf (records.map (Record.replaceIds name)) (name x) = lineOf records x := by
  unfold lineOf
  rw [mentionsFrom_replaceIds]
  congr 1
  revert apart
  generalize mentionsFrom 2 records = mentioned
  intro apart
  induction mentioned with
  | nil => rfl
  | cons p rest ih =>
    have same : (name x == name p.1) = (x == p.1) := by
      rw [Bool.eq_iff_iff, beq_iff_eq, beq_iff_eq]
      exact ⟨apart p List.mem_cons_self, congrArg name⟩
    rw [List.map_cons, List.lookup_cons, List.lookup_cons]
    simp only [same,
      ih fun q later => apart q (List.mem_cons_of_mem _ later)]

namespace Model.Sound

variable (sound : m.Sound)
include sound

/-- What is mentioned when nodes of a model are shown belongs to the model. -/
theorem holds_of_mentionsFrom {ks : List Key} (held : ∀ k ∈ ks, m.Holds k) (start : Nat) :
    ∀ p ∈ mentionsFrom start (ks.map (m.shown id)), m.Holds p.1 := by
  induction ks generalizing start with
  | nil => simp [mentionsFrom]
  | cons k rest ih =>
    have here := held k List.mem_cons_self
    rw [List.map_cons, mentionsFrom]
    intro p member
    -- A record mentions its own node, the one that follows and the first child.
    rcases List.mem_append.1 member with first | later
    · unfold Record.mentions at first
      rcases List.mem_append.1 first with front | slot
      · rcases List.mem_cons.1 front with same | next
        · exact same ▸ here
        · obtain ⟨c, leads, same⟩ : ∃ c, (m.node k).next = some c ∧ p.1 = c := by
            cases leads : (m.node k).next <;> simp [shown, leads] at next
            exact ⟨_, rfl, by rw [next]⟩
          exact same ▸ (sound.back (e := .next) here leads).1
      · unfold Record.slots at slot
        obtain ⟨c, leads, same⟩ : ∃ c, (m.node k).head = some c ∧ p.1 = c := by
          cases named : (m.node k).kind.slot? <;> cases leads : (m.node k).head <;>
            simp [shown, named, leads] at slot
          exact ⟨_, rfl, by rw [slot]⟩
        exact same ▸ (sound.back (e := .child) here leads).1
    · exact ih (fun k later => held k (List.mem_cons_of_mem _ later)) _ p later

/-- Under names that tell the nodes of a model apart, a node is first mentioned on the same line. -/
theorem lineOf_shown [DecidableEq ι] (name : Key → ι)
    (apart : ∀ {a b}, m.Holds a → m.Holds b → name a = name b → a = b) (held : m.Holds k) :
    lineOf (m.canonicalOrder.map (m.shown name)) (name k) =
      lineOf (m.canonicalOrder.map (m.shown id)) k := by
  have renamed : m.canonicalOrder.map (m.shown name) =
      (m.canonicalOrder.map (m.shown id)).map (Record.replaceIds name) := by
    rw [List.map_map]
    refine List.map_congr_left fun k _ => ?_
    simp only [Function.comp, shown, Record.replaceIds, Option.map_map]
    rfl
  rw [renamed]
  exact lineOf_replaceIds fun p member same => apart held
    (sound.holds_of_mentionsFrom (fun k => sound.mem_canonicalOrder.1) 2 p member) same

omit sound in
theorem canonicalOrder_single (single : m.roots = [r]) :
    m.canonicalOrder = Tree.preorderAll (m.treesAt (some r)) := by
  simp [canonicalOrder, single, stableSort, sortedInsert, subtreeAndNext, chainTrees_eq]

/-- The records of a snapshot of a model with one top-level node are those of its shape. -/
theorem records_snapshot (single : m.roots = [r]) :
    m.snapshot.records = Shape.labelled (m.shapesAt (some r)) := by
  have held : m.Holds r := sound.holds_root (by simp [single])
  have order := canonicalOrder_single single
  obtain ⟨place, isPlace⟩ : ∃ place : Key → Nat, place = m.canonicalOrder.idxOf := ⟨_, rfl⟩
  have placeAt : ∀ {i x}, m.canonicalOrder[i]? = some x → place x = i := by
    intro i x at_
    obtain ⟨inside, rfl⟩ := List.getElem?_eq_some_iff.1 at_
    rw [isPlace]
    exact sound.nodup_canonicalOrder.idxOf_getElem i inside
  have atPlace : ∀ {k}, m.Holds k → m.canonicalOrder[place k]? = some k := by
    intro k here
    obtain ⟨i, at_⟩ := List.getElem?_of_mem (sound.mem_canonicalOrder.2 here)
    rw [placeAt at_, at_]
  -- The records in which nodes go by their places are those of the shape.
  have placed : m.canonicalOrder.map (m.shown place) =
      Shape.recordsFrom 0 (m.shapesAt (some r)) := by
    rw [order, sound.map_shown place id held 0 fun i x at_ => by
      rw [Nat.zero_add, placeAt (order ▸ at_)]
      rfl]
    have same : (Record.replaceIds id : Record Nat → Record Nat) = id := by
      funext r
      simp [Record.replaceIds]
    rw [same, List.map_id]
  have label : ∀ {k}, m.Holds k →
      m.labelOf k = Shape.labelAt (m.canonicalOrder.map (m.shown place)) (place k) := by
    intro k here
    have byName := sound.lineOf_shown (fun k => (m.node k).id.name) sound.named here
    have byPlace := sound.lineOf_shown place (fun {a b} heldA heldB same => by
      have first := atPlace heldA
      rw [same, atPlace heldB] at first
      exact (Option.some.inj first).symm) here
    rw [labelOf, Shape.labelAt, byPlace, ← byName, List.getElem?_map, atPlace here]
    rfl
  have labelled := sound.map_shown m.labelOf
    (Shape.labelAt (m.canonicalOrder.map (m.shown place))) held 0 fun i x at_ => by
      rw [← order] at at_
      rw [label (sound.mem_canonicalOrder.1 (List.mem_of_getElem? at_)), placeAt at_, Nat.zero_add]
  rw [sound.depicts_snapshot.records]
  nth_rewrite 1 [order]
  rw [labelled, placed]
  rfl

end Model.Sound

/-- Two models of one shape, each with one top-level node, have one snapshot text. -/
theorem text_snapshot_congr {s : Key} (sound : m.Sound) (sound' : m'.Sound)
    (single : m.roots = [r]) (single' : m'.roots = [s])
    (same : m.shapesAt (some r) = m'.shapesAt (some s)) (indent : Option Json.Indent) :
    m.snapshot.text indent = m'.snapshot.text indent := by
  rw [Snapshot.text, Snapshot.text, Snapshot.lines, Snapshot.lines, sound.records_snapshot single,
    sound'.records_snapshot single', same]

end DocSync
