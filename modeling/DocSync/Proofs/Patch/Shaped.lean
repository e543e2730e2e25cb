import DocSync.Proofs.Patch.Patched

/-!
Models that were read from a text are such as a document is made of: the grammar puts pairs into
objects and values everywhere else, and between them it finds nothing but marks and blanks.
-/

namespace DocSync

open Lexer (Blanks Lexeme)

namespace Model

variable {m m' : Model} {source : List Char} {fingerprint : String} {k r : Key} {text : String}
  {file : Json} {supply count : Nat}

/-! ### What hangs in what -/

/-- The children of a node are of the kinds that its own kind asks for, and a scalar has no frame for
any. -/
def Sorted (m : Model) (k : Key) : Prop :=
  match (m.node k).kind with
  | .object => ∀ c ∈ m.children k, (m.node c).kind = .pair
  | .array => ∀ c ∈ m.children k, (m.node c).kind ≠ .pair
  | .pair => ∀ c ∈ m.children k, (m.node c).kind = .object ∨ (m.node c).kind = .array
  | .scalar => (m.node k).frames = .empty

/-- The nodes of a tree are sorted: wherever a node was made for it, this node is, and so is all that
hangs in it. -/
def SortedAs (m : Model) (source : List Char) (fingerprint : String) (tree : ParseTree) : Prop :=
  ∀ {k}, m.Holds k → (m.tree k).map m.madeOf = tree.blueprint source fingerprint →
    ∀ x ∈ m.subtree k, m.Sorted x

section

variable (linked : m.Linked)
include linked

/-- A container is sorted if it holds items of its own sort and these are. -/
theorem sortedAs_container {isObject : Bool} {children : List ParseTree} {span : Location}
    (regular : (ParseTree.rule (ruleOf isObject) children span).Regular)
    (areItems : ∀ child ∈ children, child.Regular ∧ child.isPair = isObject ∧
      m.SortedAs source fingerprint child) :
    m.SortedAs source fingerprint (.rule (ruleOf isObject) children span) := by
  intro k held same x member
  obtain ⟨made, below⟩ := exists_children linked held regular same
  rw [nested_container] at below
  -- Each child was made for one of the items.
  have item : ∀ c ∈ m.children k, ∃ child ∈ children, m.Holds c ∧
      (m.tree c).map m.madeOf = child.blueprint source fingerprint := by
    intro c inside
    obtain ⟨child, among, made⟩ := below.exists_of_mem inside
    exact ⟨child, among, made⟩
  rcases (linked.mem_subtree_iff held).1 member with rfl | ⟨c, inside, deeper⟩
  · have kind : (m.node x).kind = kindOf isObject := by
      rw [makeup_container] at made
      exact congrArg Prod.fst made
    have sorts : ∀ c ∈ m.children x, ((m.node c).kind = .pair ↔ isObject = true) := by
      intro c inside
      obtain ⟨child, among, heldC, sameC⟩ := item c inside
      obtain ⟨regularC, isItem, -⟩ := areItems child among
      rw [isPair_iff_of_madeOf regularC (exists_children linked heldC regularC sameC).1, isItem]
    cases isObject with
    | true =>
      rw [Sorted, kind]
      exact fun c inside => (sorts c inside).2 rfl
    | false =>
      rw [Sorted, kind]
      exact fun c inside isPair => Bool.false_ne_true ((sorts c inside).1 isPair)
  · obtain ⟨child, among, heldC, sameC⟩ := item c inside
    exact (areItems child among).2.2 heldC sameC x deeper

/-- A token is sorted, because no frame is kept for it. -/
theorem sortedAs_token (t : Token) : m.SortedAs source fingerprint (.token t) := by
  intro k held same x member
  obtain ⟨made, below⟩ := exists_children linked held (.token t) same
  have childless : m.children k = [] := List.forall₂_nil_right_iff.1 below
  rcases (linked.mem_subtree_iff held).1 member with rfl | ⟨c, inside, -⟩
  · have kind : (m.node x).kind = .scalar := congrArg Prod.fst made
    rw [Sorted, kind]
    exact congrArg (fun made => made.2.frames) made
  · -- Nothing hangs in it.
    rw [childless] at inside
    cases inside

/-- A pair is sorted if its value is no pair and is sorted. -/
theorem sortedAs_pair {key : Token} {tree : ParseTree} {span : Location} (regular : tree.Regular)
    (notPair : tree.isPair = false) (value : m.SortedAs source fingerprint tree) :
    m.SortedAs source fingerprint (.rule .pair [.token key, tree] span) := by
  intro k held same x member
  obtain ⟨made, below⟩ := exists_children linked held (.pair key span regular) same
  have kind : (m.node k).kind = .pair := congrArg Prod.fst made
  cases tree with
  | token t =>
    -- The value is a token of the pair's own.
    have childless : m.children k = [] := List.forall₂_nil_right_iff.1 below
    rcases (linked.mem_subtree_iff held).1 member with rfl | ⟨c, inside, -⟩
    · rw [Sorted, kind]
      intro c inside
      rw [childless] at inside
      cases inside
    · rw [childless] at inside
      cases inside
  | rule rule children inner =>
    have item : ∀ c ∈ m.children k, m.Holds c ∧ (m.tree c).map m.madeOf =
        (ParseTree.rule rule children inner).blueprint source fingerprint := by
      intro c inside
      obtain ⟨child, among, both⟩ := List.Forall₂.exists_of_mem below inside
      rw [List.mem_singleton.1 among] at both
      exact both
    rcases (linked.mem_subtree_iff held).1 member with rfl | ⟨c, inside, deeper⟩
    · rw [Sorted, kind]
      intro c inside
      obtain ⟨heldC, sameC⟩ := item c inside
      -- A tree with a rule that is no pair's is an array or an object.
      have kindC := congrArg Prod.fst (exists_children linked heldC regular sameC).1
      cases rule with
      | object => exact .inl kindC
      | array => exact .inr kindC
      | pair => cases notPair
      | other => cases regular
    · exact value (item c inside).1 (item c inside).2 x deeper

/-- Where a tree lies in a text, its nodes are sorted. -/
theorem sortedAs_of_laid {at_ : Nat} {text : List Char} {tree : ParseTree}
    (laid : Laid at_ text tree) : m.SortedAs source fingerprint tree := by
  -- The grammar has one way to lay out each sort of tree.
  induction laid with
  | token => exact sortedAs_token linked _
  | empty blanks start stop =>
    exact sortedAs_container linked (Laid.empty blanks start stop).regular (List.forall_mem_nil _)
  | @container at_ isObject blank text closing tree rest span blanks gaps blanks' isItem areItems start
      stop laid ih =>
    apply sortedAs_container linked
      (Laid.container blanks gaps blanks' isItem areItems start stop laid).regular
    intro child among
    -- An item is laid out in some cell of the container's row.
    obtain ⟨cell, member, rfl⟩ : ∃ cell ∈ (⟨openMark isObject :: blank, text, tree⟩ : Cell) :: rest,
        cell.tree = child := by
      rcases List.mem_cons.1 among with rfl | later
      · exact ⟨_, List.mem_cons_self, rfl⟩
      · obtain ⟨cell, inside, same⟩ := List.mem_map.1 later
        exact ⟨cell, List.mem_cons_of_mem _ inside, same⟩
    obtain ⟨place, there⟩ := exists_placed member at_
    have kind : cell.tree.isPair = isObject := by
      rcases List.mem_cons.1 member with rfl | later
      · exact isItem
      · exact areItems cell later
    exact ⟨(laid _ there).regular, kind, ih _ there⟩
  | pair laidKey isString between notPair laid start stop _ ih =>
    exact sortedAs_pair linked laid.regular notPair ih

end

/-! ### The model of a text -/

/-- A node that stands in a text, with its children sorted, has what its kind asks for. -/
theorem filled_of_seated (seated : m.Seated source fingerprint k) (sorted : m.Sorted k) :
    m.Filled k := by
  unfold Sorted at sorted
  unfold Filled
  cases seated with
  | scalar _ kind isValue fields =>
    rw [kind]
    exact ⟨_, isValue, fields⟩
  | @container _ isObject _ _ _ kind fields =>
    rw [kind] at sorted ⊢
    cases isObject <;> exact ⟨fields, sorted⟩
  | pair _ kind isString _ _ _ _ _ _ value =>
    rw [kind] at sorted ⊢
    refine ⟨_, isString, ?_⟩
    rcases value with ⟨value, isValue, _, _, childless, _, fields⟩ | ⟨c, only, _, _, fields⟩
    · exact .inl ⟨value, isValue, childless, fields⟩
    · exact .inr ⟨c, only, sorted c (by rw [only]; exact List.mem_singleton_self c), fields⟩

/-- The frame of a node that stands in a text fits its kind. -/
theorem fits_of_seated (seated : m.Seated source fingerprint k) (sorted : m.Sorted k) {frame : Frame}
    (stored : (m.node k).frames.get? ((m.node k).edgeName .child) = some frame) :
    frame.Fits (m.node k).kind := by
  unfold Sorted at sorted
  cases seated with
  | scalar _ kind =>
    rw [kind] at sorted
    rw [sorted] at stored
    cases stored
  | container _ _ _ known fits =>
    obtain rfl := Option.some.inj (stored.symm.trans known)
    exact fits
  | pair _ _ _ known fits =>
    obtain rfl := Option.some.inj (stored.symm.trans known)
    exact fits

/-- What is read from a text has the shape of a document, and no pair at top level. -/
theorem documentShaped_of_build (built : Model.build text file supply = .ok (m, count)) :
    ∃ r, m.DocumentShaped r ∧ (m.node r).kind ≠ .pair := by
  obtain ⟨r, readFrom⟩ := exists_readFrom built
  obtain ⟨tree, parsed, spelled⟩ := Build.spelled_of_build built
  obtain ⟨leading, body, trailing, split, blanks, blanks', laid, -⟩ :=
    Parser.laid_of_parse parsed
  obtain ⟨start, stop⟩ := laid.span
  obtain ⟨before, after⟩ := outside_eq split start stop
  have sound := readFrom.sound
  have held : m.Holds r := sound.holds_root (by simp [readFrom.single])
  -- The trees below the top-level node are those of the parse, so they are sorted.
  obtain ⟨r', single, alone, below⟩ := spelled.single
  obtain rfl : r = r' := by simpa [readFrom.single] using single
  rw [sound.treesAt_some held, alone, treesAt_none, Tree.mapAll, Tree.mapAll] at below
  have same := (List.cons.inj below).1
  have sorted : ∀ {k}, m.Holds k → m.Sorted k := fun known =>
    sortedAs_of_laid sound.toLinked laid held same _ ((sound.mem_subtree_root single alone).2 known)
  refine ⟨r, ⟨⟨fun known => filled_of_seated (readFrom.seated known) (sorted known),
    fun known stored => fits_of_seated (readFrom.seated known) (sorted known) stored⟩, single, alone,
    ?_, ?_, readFrom.plain⟩, readFrom.notPair⟩
  · rw [spelled.leading, before, String.toList_ofList]
    exact blanks
  · rw [spelled.trailing, after, String.toList_ofList]
    exact blanks'

end Model

end DocSync
