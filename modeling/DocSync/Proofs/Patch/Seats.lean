import DocSync.Patch.Draft
import DocSync.Proofs.Render.Document

/-!
Where the nodes of a text stand in it, told by the model alone: the stretch that each was read from,
what it shows there, and how its children lie in it one behind the other.
-/

namespace DocSync

open Lexer (Blanks Lexeme)

/-- A span is a stretch of the text. -/
structure Span.Covers (span : Span) (lo hi : Nat) : Prop where
  start : span.start = lo
  stop : span.stop = hi
  plain : span.strays = []

theorem Span.Covers.given {span : Span} {lo hi : Nat} (covers : span.Covers lo hi) :
    span.givenStart = .int lo ∧ span.givenStop = .int hi := by
  simp [givenStart, givenStop, covers.plain, covers.start, covers.stop]

namespace Model

variable {m : Model} {source : List Char} {fingerprint : String} {k c : Key} {p q r lo hi : Nat}
  {keys keys' : List Key}

/-- Where the text of a node starts. -/
def startOf (m : Model) (k : Key) : Nat :=
  ((m.node k).origin.map fun origin => origin.span.start.toNat).getD 0

/-- Where the text of a node ends. -/
def stopOf (m : Model) (k : Key) : Nat :=
  ((m.node k).origin.map fun origin => origin.span.stop.toNat).getD 0

/-- A node was read from a stretch of the text. -/
structure Placed (m : Model) (fingerprint : String) (k : Key) : Prop where
  held : m.Holds k
  some_ : m.startOf k < m.stopOf k
  origin : ∃ origin, (m.node k).origin = some origin ∧ origin.sourceHash = some fingerprint ∧
    origin.span.Covers (m.startOf k) (m.stopOf k)

/-- A field was read from a stretch of the text. -/
def FieldAt (m : Model) (k : Key) (name : String) (lo hi : Nat) : Prop :=
  ∃ origin span, (m.node k).origin = some origin ∧ origin.fieldSpans.get? name = some span ∧
    span.Covers lo hi

/-- The slot of a node was read from a stretch of the text. -/
def SlotAt (m : Model) (k : Key) (lo hi : Nat) : Prop :=
  ∃ origin span, (m.node k).origin = some origin ∧
    origin.slotSpans.get? ((m.node k).edgeName .child) = some span ∧ span.Covers lo hi

/-- Siblings stand one behind the other from a position up to another, each behind a comma. -/
def Trails (m : Model) (source : List Char) : Nat → List Key → Nat → Prop
  | p, [], q => p = q
  | p, k :: rest, q => (∃ gap, Gap ',' gap ∧ Occurs source p gap ∧ m.startOf k = p + gap.length) ∧
    m.startOf k < m.stopOf k ∧ Trails m source (m.stopOf k) rest q

/-- Siblings stand one behind the other between two positions. -/
def Lined (m : Model) (source : List Char) (p : Nat) (keys : List Key) (q : Nat) : Prop :=
  match keys with
  | [] => p = q
  | k :: rest => m.startOf k = p ∧ m.startOf k < m.stopOf k ∧ m.Trails source (m.stopOf k) rest q

/-- The value of a pair stands from a position up to the end of the pair, as a field or in a slot. -/
def ValueAt (m : Model) (source : List Char) (k : Key) (key : String) (p : Nat) : Prop :=
  (∃ value, IsValue value ∧ Occurs source p value ∧ m.stopOf k = p + value.length ∧
    m.children k = [] ∧ m.FieldAt k valueName p (m.stopOf k) ∧ (m.node k).fields =
      Dict.ofList [(keyField, key), (valueName, String.ofList value)]) ∨
  ∃ c, m.children k = [c] ∧ m.startOf c = p ∧ m.stopOf c = m.stopOf k ∧
    (m.node k).fields = Dict.ofList [(keyField, key)]

/-- A node stands in the text with all that hangs on it. -/
inductive Seated (m : Model) (source : List Char) (fingerprint : String) : Key → Prop
  | scalar {k : Key} {value : List Char} :
    m.Placed fingerprint k → (m.node k).kind = .scalar → IsValue value →
      (m.node k).fields = Dict.ofList [(valueName, String.ofList value)] → m.children k = [] →
      Occurs source (m.startOf k) value → m.stopOf k = m.startOf k + value.length →
      m.FieldAt k valueName (m.startOf k) (m.stopOf k) → Seated m source fingerprint k
  | container {k : Key} {isObject : Bool} {frame : Frame} {last : Nat} :
    m.Placed fingerprint k → (m.node k).kind = kindOf isObject → (m.node k).fields = .empty →
      (m.node k).frames.get? ((m.node k).edgeName .child) = some frame →
      frame.Fits (m.node k).kind → m.SlotAt k (m.startOf k) (m.stopOf k) →
      Occurs source (m.startOf k) frame.opening.toList →
      m.Lined source (m.startOf k + frame.opening.toList.length) (m.children k) last →
      Occurs source last frame.closing.toList →
      m.stopOf k = last + frame.closing.toList.length →
      (∀ c ∈ m.children k, Seated m source fingerprint c) → Seated m source fingerprint k
  | pair {k : Key} {key : List Char} {frame : Frame} :
    m.Placed fingerprint k → (m.node k).kind = .pair → Lexeme .string key →
      (m.node k).frames.get? ((m.node k).edgeName .child) = some frame →
      frame.Fits (m.node k).kind → frame.closing = "" →
      m.SlotAt k (m.startOf k + key.length) (m.stopOf k) →
      Occurs source (m.startOf k) (key ++ frame.opening.toList) →
      m.FieldAt k keyField (m.startOf k) (m.startOf k + key.length) →
      m.ValueAt source k (String.ofList key)
        (m.startOf k + key.length + frame.opening.toList.length) →
      (∀ c ∈ m.children k, Seated m source fingerprint c) → Seated m source fingerprint k

namespace Seated

variable {x : Key}

theorem placed (seated : m.Seated source fingerprint k) : m.Placed fingerprint k := by
  cases seated <;> assumption

/-- What holds of a node when it holds of all its children holds of every node that stands in the text. -/
theorem descend {motive : Key → Prop} (seated : m.Seated source fingerprint k)
    (step : ∀ k, m.Seated source fingerprint k →
      (∀ c ∈ m.children k, m.Seated source fingerprint c ∧ motive c) → motive k) : motive k := by
  induction seated with
  | scalar placed kind isValue fields childless occurs stop field =>
    exact step _ (.scalar placed kind isValue fields childless occurs stop field) (by simp [childless])
  | container placed kind fields stored fits slot opens lined closes stop below ih =>
    exact step _ (.container placed kind fields stored fits slot opens lined closes stop below)
      fun c child => ⟨below c child, ih c child⟩
  | pair placed kind lexeme stored fits closing slot opens field value below ih =>
    exact step _ (.pair placed kind lexeme stored fits closing slot opens field value below)
      fun c child => ⟨below c child, ih c child⟩

/-- A node ends before the text does. -/
theorem stopOf_le (seated : m.Seated source fingerprint k) : m.stopOf k ≤ source.length := by
  induction seated with
  | scalar _ _ _ _ _ occurs stop _ => exact stop ▸ occurs.le
  | container _ _ _ _ _ _ _ _ closes stop _ _ => exact stop ▸ closes.le
  | pair _ _ _ _ _ _ _ _ _ value _ ih =>
    rcases value with ⟨_, _, occurs, stop, _⟩ | ⟨c, children, _, stop, _⟩
    · exact stop ▸ occurs.le
    · exact stop ▸ ih c (by rw [children]; exact List.mem_singleton_self c)

end Seated

/-! ### Rows of siblings -/

/-- Siblings stand between the positions that they take up. -/
theorem Trails.between (trails : m.Trails source p keys q) :
    p ≤ q ∧ ∀ x ∈ keys, p < m.startOf x ∧ m.startOf x < m.stopOf x ∧ m.stopOf x ≤ q := by
  induction keys generalizing p with
  | nil => exact ⟨Nat.le_of_eq trails, by simp⟩
  | cons k rest ih =>
    obtain ⟨⟨gap, ⟨before, after, rfl, _⟩, _, start⟩, some_, later⟩ := trails
    obtain ⟨order, inside⟩ := ih later
    -- A gap has its comma, so the sibling behind it starts behind the position.
    rw [List.length_append, List.length_cons] at start
    refine ⟨by omega, List.forall_mem_cons.2 ⟨by omega, fun x member => ?_⟩⟩
    have := inside x member
    omega

theorem trails_append :
    m.Trails source p (keys ++ keys') q ↔
      ∃ r, m.Trails source p keys r ∧ m.Trails source r keys' q := by
  induction keys generalizing p with
  | nil => exact ⟨fun trails => ⟨p, rfl, trails⟩, fun ⟨r, same, trails⟩ => same ▸ trails⟩
  | cons k rest ih =>
    rw [List.cons_append, Trails, ih]
    exact ⟨fun ⟨gap, some_, r, left, right⟩ => ⟨r, ⟨gap, some_, left⟩, right⟩,
      fun ⟨r, ⟨gap, some_, left⟩, right⟩ => ⟨gap, some_, r, left, right⟩⟩

theorem Lined.between (lined : m.Lined source p keys q) :
    p ≤ q ∧ ∀ x ∈ keys, p ≤ m.startOf x ∧ m.startOf x < m.stopOf x ∧ m.stopOf x ≤ q := by
  cases keys with
  | nil => exact ⟨Nat.le_of_eq lined, by simp⟩
  | cons k rest =>
    obtain ⟨start, some_, later⟩ := lined
    obtain ⟨order, inside⟩ := later.between
    refine ⟨by omega, List.forall_mem_cons.2 ⟨by omega, fun x member => ?_⟩⟩
    have := inside x member
    omega

/-- Siblings behind a position stand between positions of their own. -/
theorem Trails.lined (trails : m.Trails source p keys q) : ∃ r, p ≤ r ∧ m.Lined source r keys q := by
  cases keys with
  | nil => exact ⟨p, Nat.le_refl _, trails⟩
  | cons k rest =>
    obtain ⟨⟨gap, _, _, start⟩, some_, later⟩ := trails
    exact ⟨m.startOf k, by omega, rfl, some_, later⟩

/-- Of two siblings one stands before the other. -/
theorem Lined.apart (lined : m.Lined source p keys q) {x y : Key} (inX : x ∈ keys) (inY : y ∈ keys) :
    x = y ∨ m.stopOf x ≤ m.startOf y ∨ m.stopOf y ≤ m.startOf x := by
  induction keys generalizing p with
  | nil => cases inX
  | cons k rest ih =>
    obtain ⟨_, _, later⟩ := lined
    rcases List.mem_cons.1 inX with rfl | lateX <;> rcases List.mem_cons.1 inY with rfl | lateY
    · exact .inl rfl
    · exact .inr (.inl (later.between.2 y lateY).1.le)
    · exact .inr (.inr (later.between.2 x lateX).1.le)
    · obtain ⟨_, _, lined⟩ := later.lined
      exact ih lined lateX lateY

/-- Siblings of which some come first: these end before the others start. -/
theorem lined_append (lined : m.Lined source p (keys ++ keys') q) :
    ∃ r r', m.Lined source p keys r ∧ r ≤ r' ∧ m.Lined source r' keys' q := by
  cases keys with
  | nil => exact ⟨p, p, rfl, Nat.le_refl _, lined⟩
  | cons k rest =>
    obtain ⟨start, some_, later⟩ := lined
    obtain ⟨r, front, back⟩ := trails_append.1 later
    obtain ⟨r', order, back⟩ := back.lined
    exact ⟨r, r', ⟨start, some_, front⟩, order, back⟩

/-- The last of several siblings ends where they end. -/
theorem Trails.stopOf_last (trails : m.Trails source p keys q) {last : Key}
    (ends : keys.getLast? = some last) : m.stopOf last = q := by
  induction keys generalizing p with
  | nil => cases ends
  | cons k rest ih =>
    obtain ⟨_, _, later⟩ := trails
    cases rest with
    | nil => exact Option.some.inj ends ▸ later
    | cons k' rest => exact ih later (by rw [← ends, List.getLast?_cons_cons])

/-- Where siblings end that stand behind another one, the last of them ends, or else that one. -/
theorem Trails.stopOf_getLast (trails : m.Trails source (m.stopOf k) keys q) :
    m.stopOf ((keys.getLast?).getD k) = q := by
  cases last : keys.getLast? with
  | none =>
    rw [List.getLast?_eq_none_iff.1 last] at trails
    exact trails
  | some x => exact trails.stopOf_last last

/-- A text stands between two siblings of which one comes right behind the other. -/
def StandsBetween (m : Model) (source : List Char) (keys : List Key) (gap : List Char) : Prop :=
  ∃ x y, [x, y] <:+: keys ∧ Gap ',' gap ∧ Occurs source (m.stopOf x) gap ∧
    m.startOf y = m.stopOf x + gap.length

/-! ### What hangs on a node stands inside of it -/

/-- A child stands in the region of its slot, behind its opening and before its closing. -/
structure Enclosed (m : Model) (k c : Key) (frame : Frame) (lo hi : Nat) : Prop where
  slot : m.SlotAt k lo hi
  stored : (m.node k).frames.get? ((m.node k).edgeName .child) = some frame
  behind : lo + frame.opening.toList.length ≤ m.startOf c
  before : m.stopOf c + frame.closing.toList.length ≤ hi
  /-- Something of the node comes before its child. -/
  lower : m.startOf k < m.startOf c
  upper : hi ≤ m.stopOf k

theorem Seated.exists_enclosed (seated : m.Seated source fingerprint k) (child : c ∈ m.children k) :
    ∃ frame lo hi, m.Enclosed k c frame lo hi := by
  cases seated with
  | scalar _ _ _ _ childless _ _ _ => rw [childless] at child; cases child
  | @container _ isObject frame last placed kind _ stored fits slot _ lined _ stop _ =>
    have between := lined.between.2 c child
    -- The opening bracket stands before all children.
    have opening : 0 < frame.opening.toList.length := by
      have texts := fits.texts
      rw [kind] at texts
      cases isObject
      all_goals
        obtain ⟨⟨before, after, same, _⟩, _, _⟩ := texts
        rw [same, List.length_append, List.length_cons]
        omega
    exact ⟨frame, _, _, slot, stored, by omega, by omega, by omega, Nat.le_refl _⟩
  | @pair _ key frame placed kind lexeme stored fits closing slot _ _ value _ =>
    obtain ⟨first, tail, rfl, _⟩ := lexeme
    rcases value with ⟨_, _, _, _, childless, _⟩ | ⟨c', children, start, stop, _⟩
    · rw [childless] at child
      cases child
    · -- The key stands before the only child.
      obtain rfl : c = c' := by simpa [children] using child
      rw [List.length_cons] at start slot
      refine ⟨frame, _, _, slot, stored, by omega, ?_, by omega, Nat.le_refl _⟩
      rw [closing, stop]
      exact Nat.le_refl _

/-- What hangs on a node stands inside of its stretch, and takes up all of it only if it is the node
itself. -/
theorem Seated.within (linked : m.Linked) (seated : m.Seated source fingerprint k) {x : Key}
    (member : x ∈ m.subtree k) : m.Seated source fingerprint x ∧ m.startOf k ≤ m.startOf x ∧
      m.stopOf x ≤ m.stopOf k ∧ (x = k ∨ m.startOf k < m.startOf x ∨ m.stopOf x < m.stopOf k) := by
  revert member
  refine seated.descend (motive := fun k => x ∈ m.subtree k → m.Seated source fingerprint x ∧
    m.startOf k ≤ m.startOf x ∧ m.stopOf x ≤ m.stopOf k ∧
      (x = k ∨ m.startOf k < m.startOf x ∨ m.stopOf x < m.stopOf k)) fun k seated below member => ?_
  rcases (linked.mem_subtree_iff seated.placed.held).1 member with rfl | ⟨c, child, inside⟩
  · exact ⟨seated, by simp⟩
  · obtain ⟨seatedX, lower, upper, _⟩ := (below c child).2 inside
    obtain ⟨frame, lo, hi, enclosed⟩ := seated.exists_enclosed child
    have := enclosed.lower
    have := enclosed.before
    have := enclosed.upper
    exact ⟨seatedX, by omega⟩

/-! ### The nodes of a text -/

/-- A node with an origin stands where the origin says. -/
theorem placed_of_origin (held : m.Holds k) {span : Location}
    {fields slots : List (String × Location)}
    (origin : (m.node k).origin = Build.origin fingerprint span fields slots) (start : span.start = lo)
    (stop : span.stop = hi) (some_ : lo < hi) :
    m.Placed fingerprint k ∧ m.startOf k = lo ∧ m.stopOf k = hi := by
  have first : m.startOf k = lo := by simp [startOf, origin, Build.origin, start]
  have last : m.stopOf k = hi := by simp [stopOf, origin, Build.origin, stop]
  refine ⟨⟨held, by rw [first, last]; exact some_, _, origin, rfl, ?_⟩, first, last⟩
  rw [first, last]
  exact ⟨start, stop, rfl⟩

theorem fieldAt_of_origin (part : Location) {span : Location}
    {fields slots : List (String × Location)} {name : String}
    (origin : (m.node k).origin = Build.origin fingerprint span fields slots)
    (known : (Dict.ofList (Build.origin.kept fields)).get? name = some { toLocation := part })
    (start : part.start = lo) (stop : part.stop = hi) : m.FieldAt k name lo hi :=
  ⟨_, _, origin, known, start, stop, rfl⟩

theorem slotAt_of_origin {span part : Location} {fields : List (String × Location)} {name : String}
    (origin : (m.node k).origin = Build.origin fingerprint span fields [(name, part)])
    (called : (m.node k).edgeName .child = name) (start : part.start = lo) (stop : part.stop = hi) :
    m.SlotAt k lo hi :=
  ⟨_, { toLocation := part }, origin, by rw [called]; exact Dict.get?_ofList_singleton, start, stop,
    rfl⟩

/-- A node is seated where a cell of a row is placed. -/
structure Fills (m : Model) (source : List Char) (fingerprint : String) (k : Key)
    (place : Nat × Cell) : Prop where
  seated : m.Seated source fingerprint k
  start : m.startOf k = place.1
  stop : m.stopOf k = place.1 + place.2.text.length

/-- The nodes of a row stand one behind the other. -/
theorem trails_of_row {row : List Cell} (gaps : ∀ cell ∈ row, Gap ',' cell.gap)
    (occurs : Occurs source p (rowText row))
    (fill : List.Forall₂ (m.Fills source fingerprint) keys (placed p row)) :
    m.Trails source p keys (p + (rowText row).length) := by
  induction row generalizing p keys with
  | nil =>
    cases fill
    rfl
  | cons cell rest ih =>
    have split : rowText (cell :: rest) = cell.gap ++ (cell.text ++ rowText rest) := by
      simp [rowText]
    rw [placed] at fill
    rw [List.forall_mem_cons] at gaps
    rw [split] at occurs
    -- The first cell takes up its gap and its text, and the others stand behind it.
    cases fill with
    | @cons k _ keys _ here later =>
      obtain ⟨seated, start, stop⟩ := here
      have long := seated.placed.some_
      have behind := ih gaps.2 occurs.right.right later
      rw [← stop] at behind
      simp only at start stop
      refine ⟨⟨cell.gap, gaps.1, occurs.left, start⟩, by omega, ?_⟩
      have total : m.stopOf k + (rowText rest).length = p + (rowText (cell :: rest)).length := by
        rw [split, List.length_append, List.length_append]
        omega
      rwa [← total]

/-- The indent is blanks, whatever the separator. -/
theorem blanks_indentOf (separator : List Char) : Blanks (Frame.indentOf separator) := by
  unfold Frame.indentOf
  split
  · intro c inside
    have space := List.mem_takeWhile_imp inside
    simp only [Bool.or_eq_true, beq_iff_eq] at space
    rcases space with rfl | rfl <;> rfl
  · exact List.forall_mem_nil _

/-- What is sampled for a container's frame is its brackets, a comma, and blanks. -/
theorem fits_ofContainer {isObject : Bool} {span : Location} {spans : List Location}
    (opens : Gap (openMark isObject) (Frame.ofContainer source span spans).opening.toList)
    (closes : Gap (closeMark isObject) (Frame.ofContainer source span spans).closing.toList)
    (separates : Gap ',' (Frame.ofContainer source span spans).separator.toList) :
    (Frame.ofContainer source span spans).Fits (kindOf isObject) := by
  refine ⟨?_, ?_, ?_, ?_⟩
  · cases isObject <;> exact ⟨opens, separates, closes⟩
  · cases spans with
    | nil => exact List.forall_mem_nil _
    | cons first rest =>
      simp only [Frame.ofContainer, String.toList_ofList]
      exact blanks_indentOf _
  · cases spans <;> rfl
  · cases spans <;> rfl

/-- A node of the model stands where its tree is laid out in the text. -/
def SeatedAt (m : Model) (source : List Char) (fingerprint : String) (at_ : Nat) (text : List Char)
    (tree : ParseTree) : Prop :=
  ∀ {k}, m.Holds k → (m.tree k).map m.madeOf = tree.blueprint source fingerprint →
    Occurs source at_ text → m.Seated source fingerprint k ∧ m.startOf k = at_ ∧
      m.stopOf k = at_ + text.length

section

variable {at_ : Nat} {text : List Char} {tree : ParseTree} {isObject : Bool} {span : Location}

/-- What a tree's node is made of, and what its children are. -/
theorem exists_children (linked : m.Linked) (held : m.Holds k) (regular : tree.Regular)
    (same : (m.tree k).map m.madeOf = tree.blueprint source fingerprint) :
    m.madeOf k = Build.makeup source fingerprint tree ∧
      List.Forall₂ (fun c child => m.Holds c ∧ (m.tree c).map m.madeOf =
        child.blueprint source fingerprint) (m.children k) tree.nested := by
  obtain ⟨k', trees, node, made, below⟩ := exists_node_of_map regular same
  rw [tree_eq, Tree.node.injEq] at node
  obtain ⟨rfl, rfl⟩ := node
  rw [linked.treesAt_head held, List.forall₂_map_left_iff] at below
  refine ⟨made, List.forall₂_iff_zip.2 ⟨below.length_eq, fun {c child} inside => ?_⟩⟩
  exact ⟨(linked.over_of_mem_children held (List.of_mem_zip inside).1).2,
    (List.forall₂_iff_zip.1 below).2 inside⟩

theorem seatedAt_token (linked : m.Linked) {t : Token} (laid : Laid at_ text (.token t)) :
    m.SeatedAt source fingerprint at_ text (.token t) := by
  intro k held same occurs
  obtain ⟨made, below⟩ := exists_children linked held laid.regular same
  have long := List.length_pos_iff.2 laid.text_ne_nil
  cases laid with
  | token lexeme isScalar shows start stop =>
    have origin : (m.node k).origin = Build.origin fingerprint t.span [(valueName, t.span)] [] :=
      congrArg (fun made => made.2.origin) made
    obtain ⟨placed, first, last⟩ := placed_of_origin held origin start stop (by omega)
    have fields : (m.node k).fields = Dict.ofList [(valueName, t.lexeme)] :=
      congrArg (fun made => made.2.fields) made
    have field : m.FieldAt k valueName (m.startOf k) (m.stopOf k) :=
      fieldAt_of_origin t.span origin (show (Dict.ofList [(valueName, _)]).get? valueName = _ from
        Dict.get?_ofList_singleton) (by rw [start, first]) (by rw [stop, last])
    exact ⟨.scalar placed (congrArg Prod.fst made) ⟨_, lexeme, isScalar⟩ (shows ▸ fields)
      (List.forall₂_nil_right_iff.1 below) (first ▸ occurs) (by rw [first, last]) field, first, last⟩

/-- A container is seated if its children are, between its brackets. -/
theorem seated_container {children : List ParseTree} (held : m.Holds k)
    (made : m.madeOf k = Build.makeup source fingerprint (.rule (ruleOf isObject) children span))
    (start : span.start = lo) (stop : span.stop = hi)
    (opens : Gap (openMark isObject)
      (Frame.ofContainer source span (children.map ParseTree.span)).opening.toList)
    (closes : Gap (closeMark isObject)
      (Frame.ofContainer source span (children.map ParseTree.span)).closing.toList)
    (separates : Gap ','
      (Frame.ofContainer source span (children.map ParseTree.span)).separator.toList)
    (first : Occurs source lo
      (Frame.ofContainer source span (children.map ParseTree.span)).opening.toList)
    (lined : m.Lined source (lo +
      (Frame.ofContainer source span (children.map ParseTree.span)).opening.toList.length)
      (m.children k) r)
    (last : Occurs source r
      (Frame.ofContainer source span (children.map ParseTree.span)).closing.toList)
    (ends : hi = r +
      (Frame.ofContainer source span (children.map ParseTree.span)).closing.toList.length)
    (below : ∀ c ∈ m.children k, m.Seated source fingerprint c) :
    m.Seated source fingerprint k ∧ m.startOf k = lo ∧ m.stopOf k = hi := by
  rw [makeup_container] at made
  have fits := fits_ofContainer opens closes separates
  obtain ⟨kind, called, stored⟩ := stored_of_madeOf made
  have origin : (m.node k).origin =
      Build.origin fingerprint span [] [(DocSync.slotOf isObject, span)] :=
    congrArg (fun made => made.2.origin) made
  -- The opening has its bracket, so there is some text.
  have some_ : lo < hi := by
    obtain ⟨before, after, same, _⟩ := opens
    have := lined.between.1
    rw [same, List.length_append, List.length_cons] at this
    omega
  obtain ⟨placed, starts, stops⟩ := placed_of_origin held origin start stop some_
  refine ⟨.container placed kind (congrArg (fun made => made.2.fields) made)
    (by rw [called, stored]) (kind ▸ fits)
    (slotAt_of_origin origin called (by rw [start, starts]) (by rw [stop, stops]))
    (starts ▸ first) (starts ▸ lined) last (by rw [stops, ends]) below, starts, stops⟩

theorem seatedAt_empty (linked : m.Linked) {blank : List Char} (blanks : Blanks blank)
    (start : span.start = at_) (stop : span.stop = (at_ + (blank.length + 2) : Nat)) :
    m.SeatedAt source fingerprint at_ (openMark isObject :: (blank ++ [closeMark isObject]))
      (.rule (ruleOf isObject) [] span) := by
  intro k held same occurs
  obtain ⟨made, below⟩ := exists_children linked held (regular_container (by simp)) same
  rw [nested_container, List.forall₂_nil_right_iff] at below
  obtain ⟨opening, closing⟩ := ofContainer_nil occurs start stop
  rw [show (Frame.ofContainer source span []).emptyOpening =
    (Frame.ofContainer source span []).opening from rfl] at opening
  have nothing : Blanks [] := List.forall_mem_nil _
  have ends : at_ + (blank.length + 2) = at_ +
      (openMark isObject :: (blank ++ [closeMark isObject])).length := by
    simp
  rw [← ends]
  -- The blanks belong to the opening, and the closing is the bracket alone.
  refine seated_container (r := at_ + (openMark isObject :: blank).length) held made start stop
    ?_ ?_ ?_ ?_ ?_ ?_ ?_ ?_
  · exact ⟨[], blank, opening, nothing, blanks⟩
  · exact ⟨[], [], closing, nothing, nothing⟩
  · exact ⟨[], [' '], by simp [Frame.ofContainer, Frame.flatSeparator], nothing,
      by simp [Blanks, Lexer.isBlank]⟩
  · rw [List.map_nil, opening]
    exact Occurs.left (y := [closeMark isObject]) occurs
  · rw [below, List.map_nil, opening]
    rfl
  · rw [List.map_nil, closing]
    exact Occurs.right (x := openMark isObject :: blank) occurs
  · rw [List.map_nil, closing, List.length_cons, List.length_singleton]
    omega
  · simp [below]

/-- The nodes of a row are seated where its cells are placed, if each is once it is found there. -/
theorem forall₂_fills (cells : List Cell)
    (each : ∀ p ∈ placed at_ cells, m.SeatedAt source fingerprint p.1 p.2.text p.2.tree)
    (occurs : ∀ p ∈ placed at_ cells, Occurs source p.1 p.2.text)
    (below : List.Forall₂ (fun c child => m.Holds c ∧ (m.tree c).map m.madeOf =
      child.blueprint source fingerprint) keys (cells.map Cell.tree)) :
    List.Forall₂ (m.Fills source fingerprint) keys (placed at_ cells) := by
  induction cells generalizing at_ keys with
  | nil =>
    cases below
    exact .nil
  | cons cell rest ih =>
    rw [placed, List.forall_mem_cons] at each occurs
    rw [List.map_cons] at below
    cases below with
    | cons here later =>
      obtain ⟨seated, start, stop⟩ := each.1 here.1 here.2 occurs.1
      exact .cons ⟨seated, start, stop⟩ (ih each.2 occurs.2 later)

theorem seatedAt_container (linked : m.Linked) {blank closing : List Char} {rest : List Cell}
    (laid : Laid at_ (rowText (⟨openMark isObject :: blank, text, tree⟩ :: rest) ++
      (closing ++ [closeMark isObject])) (.rule (ruleOf isObject) (tree :: rest.map Cell.tree) span))
    (blanks : Blanks blank) (gaps : ∀ cell ∈ rest, Gap ',' cell.gap) (blanks' : Blanks closing)
    (start : span.start = at_)
    (stop : span.stop = (at_ + (rowText (⟨openMark isObject :: blank, text, tree⟩ :: rest)).length +
        (closing.length + 1) : Nat))
    (all : ∀ p ∈ placed at_ (⟨openMark isObject :: blank, text, tree⟩ :: rest),
      Laid p.1 p.2.text p.2.tree)
    (each : ∀ p ∈ placed at_ (⟨openMark isObject :: blank, text, tree⟩ :: rest),
      m.SeatedAt source fingerprint p.1 p.2.text p.2.tree) :
    m.SeatedAt source fingerprint at_ (rowText (⟨openMark isObject :: blank, text, tree⟩ :: rest) ++
      (closing ++ [closeMark isObject])) (.rule (ruleOf isObject) (tree :: rest.map Cell.tree)
        span) := by
  intro k held same occurs
  obtain ⟨made, below⟩ := exists_children linked held laid.regular same
  rw [nested_container] at below
  -- Each child is seated where its cell is placed.
  have fill := forall₂_fills (⟨openMark isObject :: blank, text, tree⟩ :: rest) each
    (occurs_of_placed occurs.left) below
  obtain ⟨opening, ending, first, _⟩ := ofContainer_cons occurs start stop all
  have nothing : Blanks [] := List.forall_mem_nil _
  have separates : Gap ',' (Frame.ofContainer source span
      ((tree :: rest.map Cell.tree).map ParseTree.span)).separator.toList := by
    cases rest with
    | cons cell rest =>
      rw [first cell rfl]
      exact gaps cell List.mem_cons_self
    | nil =>
      -- An only child takes its style from the opening, which is a bracket and blanks.
      have opening' : Text.slice source span.start tree.span.start = openMark isObject :: blank := by
        simpa [Frame.ofContainer] using opening
      simp only [List.map_nil, List.map_cons, Frame.ofContainer, opening', String.toList_ofList,
        List.tail_cons]
      split
      · exact ⟨[], blank, rfl, nothing, blanks⟩
      · exact ⟨[], [' '], by simp [Frame.flatSeparator], nothing, by simp [Blanks, Lexer.isBlank]⟩
  have ends : at_ + (rowText (⟨openMark isObject :: blank, text, tree⟩ :: rest)).length +
      (closing.length + 1) = at_ + (rowText (⟨openMark isObject :: blank, text, tree⟩ :: rest) ++
        (closing ++ [closeMark isObject])).length := by
    rw [List.length_append, List.length_append, List.length_singleton]
    omega
  have split : rowText (⟨openMark isObject :: blank, text, tree⟩ :: rest) =
      (openMark isObject :: blank) ++ (text ++ rowText rest) := by simp [rowText]
  rw [← ends]
  refine seated_container (r := at_ + (rowText (⟨openMark isObject :: blank, text, tree⟩ ::
    rest)).length) held made start stop ?_ ?_ separates ?_ ?_ ?_ ?_ ?_
  · exact ⟨[], blank, opening, nothing, blanks⟩
  · exact ⟨closing, [], ending, blanks', nothing⟩
  · rw [opening]
    rw [split] at occurs
    exact occurs.left.left
  · -- The first child stands right behind the opening, and the others behind the first.
    rw [opening]
    rw [placed] at fill
    obtain ⟨c, cs, ⟨seated, begins, stops⟩, later, children⟩ := List.forall₂_cons_right_iff.1 fill
    have row := occurs.left
    rw [split] at row
    simp only at begins stops
    have behind := trails_of_row gaps row.right.right later
    have total : at_ + (openMark isObject :: blank).length + text.length + (rowText rest).length =
        at_ + (rowText (⟨openMark isObject :: blank, text, tree⟩ :: rest)).length := by
      rw [split, List.length_append, List.length_append]
      omega
    rw [total, ← stops] at behind
    rw [children]
    exact ⟨begins, seated.placed.some_, behind⟩
  · rw [ending]
    exact occurs.right
  · rw [ending, List.length_append, List.length_singleton]
  · intro c child
    exact ((List.forall₂_and_left _ _).1 (fill.imp fun _ _ fills => ⟨fills.seated, fills⟩)).1 c child

theorem seatedAt_pair (linked : m.Linked) {keyText gap : List Char} {key : Token}
    (laidKey : Laid at_ keyText (.token key)) (isString : key.kind = .string) (isGap : Gap ':' gap)
    (notPair : tree.isPair = false) (laid : Laid (at_ + keyText.length + gap.length) text tree)
    (start : span.start = at_)
    (stop : span.stop = (at_ + keyText.length + gap.length + text.length : Nat))
    (inner : m.SeatedAt source fingerprint (at_ + keyText.length + gap.length) text tree) :
    m.SeatedAt source fingerprint at_ (keyText ++ (gap ++ text))
      (.rule .pair [.token key, tree] span) := by
  intro k held same occurs
  obtain ⟨made, below⟩ := exists_children linked held (.pair key span laid.regular) same
  have long := List.length_pos_iff.2 laid.text_ne_nil
  have keyStop : key.span.stop = (at_ + keyText.length : Nat) := laidKey.span.2
  obtain ⟨opening, closing⟩ := ofPair_eq occurs keyStop laid.span.1 laid.span.2 stop
  have kind : (m.node k).kind = .pair := congrArg Prod.fst made
  have called : (m.node k).edgeName .child = valueName := by
    rw [Node.edgeName, kind]
    rfl
  have origin : (m.node k).origin = Build.origin fingerprint span
      ((Build.pairFields key tree).map fun part => (part.1, part.2.span))
      [(valueName, key.span.restOf span)] := congrArg (fun made => made.2.origin) made
  have frames : (m.node k).frames = Dict.ofList
      [(valueName, Frame.ofPair source span key.span tree.span)] :=
    congrArg (fun made => made.2.frames) made
  have fields : (m.node k).fields =
      Dict.ofList ((Build.pairFields key tree).map fun part => (part.1, part.2.lexeme)) :=
    congrArg (fun made => made.2.fields) made
  have ends : at_ + keyText.length + gap.length + text.length =
      at_ + (keyText ++ (gap ++ text)).length := by
    rw [List.length_append, List.length_append]
    omega
  obtain ⟨placed, first, last⟩ := placed_of_origin held origin start stop (by omega)
  obtain ⟨lexeme, keyText', keyStart⟩ : Lexeme .string keyText ∧
      key.lexeme = String.ofList keyText ∧ key.span.start = at_ := by
    cases laidKey with
    | token lexeme _ shows start _ => exact ⟨isString ▸ lexeme, shows, start⟩
  -- The value is a token, which becomes a field, or a tree, which becomes the only child.
  have value : m.ValueAt source k (String.ofList keyText) (at_ + keyText.length + gap.length) ∧
      ∀ c ∈ m.children k, m.Seated source fingerprint c := by
    cases tree with
    | token t =>
      have childless : m.children k = [] := List.forall₂_nil_right_iff.1 below
      cases laid with
      | token isLexeme isScalar shows start' stop' =>
        refine ⟨.inl ⟨text, ⟨_, isLexeme, isScalar⟩, occurs.right.right, last, childless, ?_, ?_⟩, ?_⟩
        · refine fieldAt_of_origin t.span origin ?_ start' (by rw [stop', last])
          simp [Build.pairFields, Build.origin.kept]
        · rw [fields, ← keyText', ← shows]
          rfl
        · simp [childless]
    | rule r trees inside =>
      obtain ⟨c, none_, ⟨heldC, standing⟩, nothing, children⟩ := List.forall₂_cons_right_iff.1 below
      cases nothing
      obtain ⟨seated, begins, stops⟩ := inner heldC standing occurs.right.right
      refine ⟨.inr ⟨c, children, begins, by rw [stops, last], ?_⟩, ?_⟩
      · rw [fields, ← keyText']
        rfl
      · simpa [children] using seated
  have keyed : m.FieldAt k keyField (m.startOf k) (m.startOf k + keyText.length) := by
    refine fieldAt_of_origin key.span origin ?_ (by rw [keyStart, first])
      (by rw [keyStop, first])
    cases tree <;> simp [Build.pairFields, Build.origin.kept]
  have slot : m.SlotAt k (m.startOf k + keyText.length) (m.stopOf k) :=
    slotAt_of_origin origin called (by rw [Location.restOf, keyStop, first])
      (by rw [Location.restOf, stop, last])
  have empty : (Frame.ofPair source span key.span tree.span).closing = "" := by
    rw [← String.toList_inj, closing]
    rfl
  have fits : (Frame.ofPair source span key.span tree.span).Fits (m.node k).kind := by
    rw [kind]
    exact ⟨⟨opening ▸ isGap, closing ▸ List.forall_mem_nil _⟩, List.forall_mem_nil _, rfl, rfl⟩
  refine ⟨.pair placed kind lexeme
    (by rw [frames, called]; exact Dict.get?_ofList_singleton) fits empty slot ?_ keyed ?_ value.2,
    first, by rw [last, ends]⟩
  · rw [first, opening]
    rw [← List.append_assoc] at occurs
    exact occurs.left
  · rw [first, opening]
    exact value.1

/-- A node of the model stands where its tree is laid out in the text. -/
theorem seatedAt_of_laid (linked : m.Linked) (laid : Laid at_ text tree) :
    m.SeatedAt source fingerprint at_ text tree := by
  induction laid with
  | token lexeme isScalar shows start stop =>
    exact seatedAt_token linked (.token lexeme isScalar shows start stop)
  | empty blanks start stop => exact seatedAt_empty linked blanks start stop
  | container blanks gaps blanks' isItem areItems start stop laid ih =>
    exact seatedAt_container linked
      (.container blanks gaps blanks' isItem areItems start stop laid) blanks gaps blanks' start stop
      laid ih
  | pair laidKey isString between notPair laid start stop _ ih =>
    exact seatedAt_pair linked laidKey isString between notPair laid start stop ih

end

end Model

end DocSync
