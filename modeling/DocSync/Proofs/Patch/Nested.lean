import DocSync.Proofs.Patch.Asked
import DocSync.Proofs.Patch.Patched

/-!
The spans of a model that was read from a text. They lie in one another as the nodes do: a node's fields and
children stand inside of it, its children behind its opening and one behind the other.
-/

namespace DocSync

/-- How the spans of a node that was read from a text lie in it. -/
structure Model.NestedAt (m : Model) (text : String) (k : Key) (o : Origin) : Prop where
  origin : (m.node k).origin = some o
  hash : o.sourceHash = some (Digest.fingerprint text)
  /-- Every field is the text of a span of its own. -/
  field : ∀ {name value}, (m.node k).fields.get? name = some value →
    ∃ span, o.fieldSpans.get? name = some span ∧ value = String.ofList (span.slice text.toList)
  fieldWithin : ∀ {name span}, o.fieldSpans.get? name = some span → o.span.contains span.toLocation
  slotWithin : ∀ {name span}, o.slotSpans.get? name = some span → o.span.contains span.toLocation
  /-- A child stands in the region of its slot, between the texts that the slot puts around its chain. -/
  child : ∀ c ∈ m.children k, ∃ region frame inner,
    o.slotSpans.get? ((m.node k).edgeName .child) = some region ∧
    (m.node k).frames.get? ((m.node k).edgeName .child) = some frame ∧
    (m.node c).origin = some inner ∧
    region.start + frame.opening.length ≤ inner.span.start ∧
    inner.span.stop + frame.closing.length ≤ region.stop
  /-- A child ends before the next one starts. -/
  siblings : (m.children k).Pairwise fun a b => ∃ before after,
    (m.node a).origin = some before ∧ (m.node b).origin = some after ∧
    before.span.stop < after.span.start

/-- The spans of a model that was read from a text lie in one another as its nodes do. -/
structure Model.Nested (m : Model) (text : String) : Prop where
  /-- The nodes come in the order in which they start. -/
  ordered : m.order.Pairwise fun a b => ∃ before after,
    (m.node a).origin = some before ∧ (m.node b).origin = some after ∧
    before.span.start < after.span.start
  within : ∀ {k}, m.Holds k → ∃ o, m.NestedAt text k o
  /-- The text falls into what stands before the one top-level node, this node and what stands behind. -/
  whole : ∃ r o, m.roots = [r] ∧ (m.node r).next = none ∧ (m.node r).origin = some o ∧
    m.leading ++ String.ofList (o.span.slice text.toList) ++ m.trailing = text

namespace Build

variable {source : List Char} {fingerprint : String} {tree : ParseTree}

/-- What is made of a tree has spans for its own fields and for its own slot only. -/
def Tallied (made : Makeup) : Prop :=
  ∃ o, made.2.origin = some o ∧ (∀ name ∈ o.fieldSpans.keys, name ∈ made.2.fields.keys) ∧
    ∀ name ∈ o.slotSpans.keys, made.1.slot? = some name

theorem tallied_of_parts {kind : Kind} {frames : Dict Frame} {span : Location}
    {slots : List (String × Location)} (parts : List (String × Token))
    (called : ∀ slot ∈ slots, kind.slot? = some slot.1) :
    Tallied (kind, { fields := Dict.ofList (parts.map fun part => (part.1, part.2.lexeme))
                     frames := frames
                     origin := origin fingerprint span (parts.map fun part => (part.1, part.2.span))
                       slots }) := by
  refine ⟨_, rfl, fun name member => ?_, fun name member => ?_⟩
  · -- Fields and their spans are listed for the same parts.
    rw [Dict.mem_keys_ofList] at member ⊢
    simpa [origin.kept] using member
  · obtain ⟨slot, listed, rfl⟩ := List.mem_map.1 (Dict.mem_keys_ofList.1 member)
    obtain ⟨slot, among, rfl⟩ := List.mem_map.1 listed
    exact called slot among

theorem tallied_makeup (regular : tree.Regular) : Tallied (makeup source fingerprint tree) := by
  cases regular with
  | token t => exact tallied_of_parts [(valueName, t)] (by simp)
  | object span _ => exact tallied_of_parts [] (by simp [Kind.slot?])
  | array span _ => exact tallied_of_parts [] (by simp [Kind.slot?])
  | @pair key value span _ => exact tallied_of_parts (pairFields key value) (by simp [Kind.slot?])

theorem tallied_of_mem_blueprint (regular : tree.Regular) :
    ∀ made ∈ (tree.blueprint source fingerprint).preorder, Tallied made := by
  -- A tree's own label is what is made of it, and the others are those of the trees nested in it.
  have below : ∀ {tree : ParseTree}, tree.Regular → (∀ child ∈ tree.nested,
      ∀ made ∈ (child.blueprint source fingerprint).preorder, Tallied made) →
        ∀ made ∈ (tree.blueprint source fingerprint).preorder, Tallied made := by
    intro tree regular nested made member
    rw [ParseTree.blueprint_eq regular, Tree.preorder_node, Tree.preorderAll_eq_flatMap,
      List.flatMap_map] at member
    rcases List.mem_cons.1 member with rfl | member
    · exact tallied_makeup regular
    · obtain ⟨child, inside, member⟩ := List.mem_flatMap.1 member
      exact nested child inside made member
  induction regular with
  | token t => exact below (.token t) (fun child inside => nomatch inside)
  | object span inner ih => exact below (.object span inner) ih
  | array span inner ih => exact below (.array span inner) ih
  | @pair key value span inner ih =>
    refine below (.pair key span inner) fun child inside => ?_
    cases value with
    | token t => cases inside
    | rule r children span' => exact List.mem_singleton.1 inside ▸ ih

end Build

namespace Model

variable {m : Model} {source : List Char} {fingerprint : String} {tree : ParseTree}
  {k c x : Key} {keys : List Key} {p q : Nat}

theorem tallied_of_mem_subtree (regular : tree.Regular)
    (same : (m.tree k).map m.madeOf = tree.blueprint source fingerprint) (member : x ∈ m.subtree k) :
    Build.Tallied (m.madeOf x) := by
  refine Build.tallied_of_mem_blueprint regular _ (?_ : m.madeOf x ∈
    (tree.blueprint source fingerprint).preorder)
  rw [← same, Tree.preorder_map]
  exact List.mem_map_of_mem member

/-! ### Children -/

/-- Nodes that stand in a line end before the next one starts. -/
theorem Lined.pairwise (lined : m.Lined source p keys q) :
    keys.Pairwise fun a b => m.stopOf a < m.startOf b := by
  induction keys generalizing p with
  | nil => exact .nil
  | cons k rest ih =>
    obtain ⟨_, _, later⟩ := lined
    obtain ⟨_, _, lined⟩ := later.lined
    exact .cons (fun x member => (later.between.2 x member).1) (ih lined)

/-- Siblings stand one behind the other. -/
theorem Seated.pairwise_children (seated : m.Seated source fingerprint k) :
    (m.children k).Pairwise fun a b => m.stopOf a < m.startOf b := by
  cases seated with
  | scalar _ _ _ _ childless _ _ _ => exact childless ▸ .nil
  | container _ _ _ _ _ _ _ lined _ _ _ => exact lined.pairwise
  | pair _ _ _ _ _ _ _ _ _ value _ =>
    rcases value with ⟨_, _, _, _, childless, _⟩ | ⟨c, children, _⟩
    · exact childless ▸ .nil
    · exact children ▸ List.pairwise_singleton _ _

/-- The slot of a node stands within the node. -/
theorem Seated.exists_slotAt (seated : m.Seated source fingerprint k)
    (notScalar : (m.node k).kind ≠ .scalar) :
    ∃ lo hi, m.SlotAt k lo hi ∧ m.startOf k ≤ lo ∧ hi ≤ m.stopOf k := by
  cases seated with
  | scalar _ kind _ _ _ _ _ _ => exact absurd kind notScalar
  | container _ _ _ _ _ slot _ _ _ _ _ => exact ⟨_, _, slot, Nat.le_refl _, Nat.le_refl _⟩
  | pair _ _ _ _ _ _ slot _ _ _ _ => exact ⟨_, _, slot, Nat.le_add_right _ _, Nat.le_refl _⟩

/-- What hangs on a node is visited in the order in which it starts. -/
theorem Seated.pairwise_subtree (linked : m.Linked) (seated : m.Seated source fingerprint k) :
    (m.subtree k).Pairwise fun a b => m.startOf a < m.startOf b := by
  refine seated.descend (motive := fun k => (m.subtree k).Pairwise
    fun a b => m.startOf a < m.startOf b) fun k seated below => ?_
  -- The node comes first, and then what hangs on its children, child by child.
  rw [linked.subtree_eq seated.placed.held]
  have inside : ∀ {c x}, c ∈ m.children k → x ∈ m.subtree c →
      m.startOf c ≤ m.startOf x ∧ m.startOf x < m.stopOf c := by
    intro c x child member
    obtain ⟨seatedX, lower, upper, _⟩ := (below c child).1.within linked member
    exact ⟨lower, Nat.lt_of_lt_of_le seatedX.placed.some_ upper⟩
  refine .cons (fun x member => ?_) (List.pairwise_flatMap.2 ⟨fun c child => (below c child).2, ?_⟩)
  · -- A child starts behind the start of its node.
    obtain ⟨c, child, member⟩ := List.mem_flatMap.1 member
    obtain ⟨_, _, _, enclosed⟩ := seated.exists_enclosed child
    exact Nat.lt_of_lt_of_le enclosed.lower (inside child member).1
  · -- What hangs on a child stands within it, and so before what hangs on a later one.
    refine seated.pairwise_children.imp_of_mem fun {a b} childA childB apart x inX y inY => ?_
    have := inside childA inX
    have := inside childB inY
    omega

/-! ### Spans -/

/-- The span of a node runs from where it starts to where it ends. -/
theorem Placed.exists_span (placed : m.Placed fingerprint k) : ∃ o, (m.node k).origin = some o ∧
    o.sourceHash = some fingerprint ∧ o.span.start = m.startOf k ∧ o.span.stop = m.stopOf k := by
  obtain ⟨o, known, hash, covers⟩ := placed.origin
  exact ⟨o, known, hash, covers.start, covers.stop⟩

/-- The span of a part that lies in the stretch of a node lies in the span of the node. -/
theorem contains_of_le {whole part : Location} (start : whole.start ≤ part.start)
    (stop : part.stop ≤ whole.stop) : whole.contains part = true := by
  simp [Location.contains, start, stop]

theorem nestedAt_of_seated {text : String}
    (seated : ∀ {k}, m.Holds k → m.Seated text.toList (Digest.fingerprint text) k)
    (linked : m.Linked) (held : m.Holds k) (tallied : Build.Tallied (m.madeOf k)) :
    ∃ o, m.NestedAt text k o := by
  obtain ⟨o, known, hash, start, stop⟩ := (seated held).placed.exists_span
  obtain ⟨o', known', fields, slots⟩ := tallied
  obtain rfl : o = o' := Option.some.inj (known ▸ known')
  have heldChild : ∀ {c}, c ∈ m.children k → m.Holds c := fun child =>
    (linked.over_of_mem_children held child).2
  refine ⟨o, known, hash, ?_, ?_, ?_, ?_, ?_⟩
  · -- The span of a field covers the stretch where the field is written.
    intro name value filled
    obtain ⟨lo, hi, written⟩ := (seated held).exists_written filled
    obtain ⟨o', span, known', there, covers⟩ := written.field
    obtain rfl : o = o' := Option.some.inj (known ▸ known')
    refine ⟨span, there, ?_⟩
    rw [Location.slice, covers.start, covers.stop, written.length, written.occurs.slice,
      String.ofList_toList]
  · -- Every span of a field is that of a field which the node has, and is written within the node.
    intro name span there
    have named : name ∈ o.fieldSpans.keys := Dict.mem_keys_iff.2 (by rw [there]; rfl)
    obtain ⟨value, filled⟩ := Option.isSome_iff_exists.1 (Dict.mem_keys_iff.1 (fields name named))
    obtain ⟨lo, hi, written⟩ := (seated held).exists_written filled
    obtain ⟨o', span', known', there', covers⟩ := written.field
    obtain rfl : o = o' := Option.some.inj (known ▸ known')
    obtain rfl : span = span' := Option.some.inj (there ▸ there')
    have lower := written.lower
    have upper := written.upper
    exact contains_of_le (by rw [start, covers.start]; omega) (by rw [stop, covers.stop]; omega)
  · -- Every region of a slot is that of the slot which the node's kind has.
    intro name span there
    have named : name ∈ o.slotSpans.keys := Dict.mem_keys_iff.2 (by rw [there]; rfl)
    have called : (m.node k).kind.slot? = some name := slots name named
    have notScalar : (m.node k).kind ≠ .scalar := fun scalar => by rw [scalar] at called; cases called
    obtain ⟨lo, hi, ⟨o', span', known', there', covers⟩, lower, upper⟩ :=
      (seated held).exists_slotAt notScalar
    obtain rfl : o = o' := Option.some.inj (known ▸ known')
    rw [Node.edgeName, called, Option.getD_some, there] at there'
    obtain rfl : span = span' := Option.some.inj there'
    exact contains_of_le (by rw [start, covers.start]; omega) (by rw [stop, covers.stop]; omega)
  · -- A child stands between the texts that its node's slot begins and ends with.
    intro c child
    obtain ⟨frame, lo, hi, enclosed⟩ := (seated held).exists_enclosed child
    obtain ⟨o', region, known', there, covers⟩ := enclosed.slot
    obtain rfl : o = o' := Option.some.inj (known ▸ known')
    obtain ⟨inner, knownC, _, startC, stopC⟩ := (seated (heldChild child)).placed.exists_span
    have behind := enclosed.behind
    have before := enclosed.before
    refine ⟨region, frame, inner, there, enclosed.stored, knownC, ?_, ?_⟩
    · rw [covers.start, startC, ← String.length_toList]
      omega
    · rw [covers.stop, stopC, ← String.length_toList]
      omega
  · refine (seated held).pairwise_children.imp_of_mem fun {a b} childA childB apart => ?_
    obtain ⟨before, knownA, _, _, stopA⟩ := (seated (heldChild childA)).placed.exists_span
    obtain ⟨after, knownB, _, startB, _⟩ := (seated (heldChild childB)).placed.exists_span
    exact ⟨before, after, knownA, knownB, by rw [stopA, startB]; omega⟩

/-- The text between one at its start and one at its end. -/
theorem append_slice_append {text leading trailing : List Char} {hi : Nat}
    (leads : Occurs text 0 leading) (trails : Occurs text hi trailing) (order : leading.length ≤ hi)
    (ends : hi + trailing.length = text.length) :
    leading ++ Text.slice text leading.length hi ++ trailing = text := by
  obtain ⟨before, after, split, nothing⟩ := leads
  obtain ⟨before', after', split', length⟩ := trails
  obtain rfl := List.length_eq_zero_iff.1 nothing
  have none_ : after' = [] := by
    have total := congrArg List.length split'
    rw [List.length_append, List.length_append] at total
    exact List.length_eq_zero_iff.1 (by omega)
  -- The text falls into its front, what lies between, and its back.
  have front : text.take leading.length = leading := by rw [split, List.nil_append, List.take_left]
  have back : text.drop hi = trailing := by
    rw [split', ← length, List.drop_left, none_, List.append_nil]
  have rest : text.drop hi = (text.drop leading.length).drop (hi - leading.length) := by
    rw [List.drop_drop, Nat.add_sub_cancel' order]
  rw [Text.slice_ofNat order (by omega), ← back, rest, List.append_assoc, List.take_append_drop]
  conv => lhs; rw [← front]
  rw [List.length_take_of_le (by omega), List.take_append_drop]

/-- A text that is parsed becomes a model whose spans lie in one another as its nodes do. -/
theorem exists_nested_of_parse {text : String} {file : Json}
    (parsed : Parser.parse text file = .ok tree) (supply : Nat) :
    ∃ m count, Model.build text file supply = .ok (m, count) ∧ m.Nested text := by
  obtain ⟨m, count, built, spelled⟩ := Build.build_eq parsed supply
  obtain ⟨r, readFrom⟩ := exists_readFrom built
  have sound := readFrom.sound
  have linked := sound.toLinked
  have held : m.Holds r := sound.holds_root (by simp [readFrom.single])
  -- All nodes hang on the one at top level, which was made for the tree of the whole text.
  have made : (m.tree r).map m.madeOf = tree.blueprint text.toList (Digest.fingerprint text) := by
    obtain ⟨r', single, alone, below⟩ := spelled.single
    obtain rfl : r = r' := by simpa [readFrom.single] using single
    rw [sound.treesAt_some held, alone, treesAt_none, Tree.mapAll, Tree.mapAll] at below
    exact (List.cons.inj below).1
  refine ⟨m, count, built, ?_, fun {k} known => ?_, ?_⟩
  · -- The document lists what hangs on the one top-level node.
    rw [sound.order_eq_subtree readFrom.single readFrom.alone]
    refine ((readFrom.seated held).pairwise_subtree linked).imp_of_mem fun {a b} inA inB less => ?_
    obtain ⟨before, knownA, _, startA, _⟩ :=
      (readFrom.seated (linked.over_of_mem_subtree held inA).2).placed.exists_span
    obtain ⟨after, knownB, _, startB, _⟩ :=
      (readFrom.seated (linked.over_of_mem_subtree held inB).2).placed.exists_span
    exact ⟨before, after, knownA, knownB, by rw [startA, startB]; omega⟩
  · have member := (sound.mem_subtree_root readFrom.single readFrom.alone).2 known
    exact nestedAt_of_seated readFrom.seated linked known
      (tallied_of_mem_subtree (Parser.regular_of_parse parsed) made member)
  · obtain ⟨o, known, _, start, stop⟩ := (readFrom.seated held).placed.exists_span
    have some_ := (readFrom.seated held).placed.some_
    refine ⟨r, o, readFrom.single, readFrom.alone, known, ?_⟩
    rw [← String.toList_inj, String.toList_append, String.toList_append, String.toList_ofList,
      Location.slice, start, stop, readFrom.start]
    exact append_slice_append readFrom.leading readFrom.trailing (readFrom.start ▸ some_.le)
      readFrom.stop

theorem exists_nested_of_parse_object : ∃ tree,
    Parser.parse " \x7b\"a\": [1, 2]\x7d\n" .null = .ok tree ∧
      ∃ m count, Model.build " \x7b\"a\": [1, 2]\x7d\n" .null 0 = .ok (m, count) ∧
        m.Nested " \x7b\"a\": [1, 2]\x7d\n" := by
  have parses : (Parser.parse " \x7b\"a\": [1, 2]\x7d\n" .null).toOption.isSome = true := by
    decide +kernel
  obtain ⟨tree, parsed⟩ := Except.exists_ok parses
  exact ⟨tree, parsed, exists_nested_of_parse parsed 0⟩

end Model

end DocSync
