import DocSync.Proofs.Render.Copied
import DocSync.Proofs.Render.Flanked

/-!
How generated containers are indented. A frame is generated one step deeper than the nearest frame that is stored
further up, so that a container directly below it is indented as it should, and one that lies in another generated
container no deeper than that one. A pair that keeps a frame of its own has no indent, and what is generated below
it stays on one line.
-/

namespace DocSync

/-! ### Lines and indents -/

section Lines

variable {front indent indent' tail : String}

/-- A text is a blank that lines can be indented by. -/
def IsIndent (text : String) : Prop := ∀ c ∈ text.toList, c = ' ' ∨ c = '\t'

instance (text : String) : Decidable (IsIndent text) :=
  List.decidableBAll (fun c => c = ' ' ∨ c = '\t') text.toList

/-- An indent with so many steps behind it. -/
def indentBy (indent step : String) (levels : Nat) : String :=
  indent ++ String.join (List.replicate levels step)

theorem length_indentBy (indent step : String) (levels : Nat) :
    (indentBy indent step levels).length = indent.length + levels * step.length := by
  simp [indentBy, String.length_join]

theorem indentBy_empty (indent : String) (levels : Nat) : indentBy indent "" levels = indent := by
  have steps : String.join (List.replicate levels "") = "" := by
    induction levels with
    | zero => rfl
    | succ levels ih => rw [List.replicate_succ, String.join_cons, ih, String.append_empty]
  rw [indentBy, steps, String.append_empty]

/-- A text ends in a new line with an indent. -/
def StartsLine (front indent : String) : Prop := ∃ ahead, front = ahead ++ "\n" ++ indent

theorem isIndent_append (first : IsIndent indent) (second : IsIndent tail) : IsIndent (indent ++ tail) := by
  intro c inside
  rw [String.toList_append, List.mem_append] at inside
  exact inside.elim (first c) (second c)

theorem isIndent_indentBy {step : String} (first : IsIndent indent) (second : IsIndent step) (levels : Nat) :
    IsIndent (indentBy indent step levels) := by
  refine isIndent_append first ?_
  induction levels with
  | zero => intro c inside; simp at inside
  | succ levels ih =>
    rw [List.replicate_succ, String.join_cons]
    exact isIndent_append second ih

theorem StartsLine.suffix (starts : StartsLine front indent) : '\n' :: indent.toList <:+ front.toList := by
  obtain ⟨ahead, rfl⟩ := starts
  exact ⟨ahead.toList, by simp⟩

theorem IsIndent.not_mem (blank : IsIndent indent) : '\n' ∉ indent.toList := fun inside => by
  rcases blank _ inside with same | same <;> exact absurd same (by decide)

/-- A text ends in one new line only. -/
theorem StartsLine.unique (blank : IsIndent indent) (blank' : IsIndent indent')
    (starts : StartsLine front indent) (starts' : StartsLine front indent') : indent = indent' := by
  have apart : ∀ {x y : List Char}, '\n' ∉ y → '\n' :: x <:+ '\n' :: y → x = y := by
    intro x y none within
    rcases List.suffix_cons_iff.1 within with same | later
    · exact (List.cons.inj same).2
    · exact absurd (later.subset List.mem_cons_self) none
  refine String.toList_inj.1 ?_
  rcases List.suffix_or_suffix_of_suffix starts.suffix starts'.suffix with within | within
  · exact apart blank'.not_mem within
  · exact (apart blank.not_mem within).symm

/-- A text that ends in anything but blanks ends in no new line with an indent as long. -/
theorem not_startsLine {c : Char} (blank : IsIndent indent) (long : tail.length ≤ indent.length + 1)
    (inside : c ∈ tail.toList) (solid : c ≠ '\n' ∧ c ≠ ' ' ∧ c ≠ '\t') (ends : ∃ ahead, front = ahead ++ tail) :
    ¬ StartsLine front indent := by
  intro starts
  obtain ⟨ahead, rfl⟩ := ends
  have tails : tail.toList <:+ (ahead ++ tail).toList := ⟨ahead.toList, by simp⟩
  have within : tail.toList <:+ '\n' :: indent.toList :=
    List.suffix_of_suffix_length_le tails starts.suffix (by
      rwa [List.length_cons, String.length_toList, String.length_toList])
  rcases List.mem_cons.1 (within.subset inside) with feed | later
  · exact solid.1 feed
  · rcases blank c later with space | tab
    · exact solid.2.1 space
    · exact solid.2.2 tab

end Lines

namespace Model

variable {m : Model} {config : Config} {a b c k : Key} {way : List Key} {front back indent text : String}
  {frame : Frame}

/-! ### The way up to a stored frame -/

/-- The frame that is stored for a node's own slot. -/
def slotFrame? (m : Model) (k : Key) : Option Frame := (m.node k).frames.get? ((m.node k).edgeName .child)

/-- The nodes between a node and one further up: those that own it, from one to the next. -/
inductive Way (m : Model) : Key → List Key → Key → Prop
  | owner {k a : Key} : (m.node k).owner = some a → Way m k [] a
  | step {k b a : Key} {way : List Key} : (m.node k).owner = some b → Way m b way a → Way m k (b :: way) a

/-- A node is an object or an array. -/
def IsContainer (m : Model) (k : Key) : Prop := (m.node k).kind = .object ∨ (m.node k).kind = .array

/-- The objects and arrays among nodes. -/
def levels (m : Model) (way : List Key) : Nat := way.countP fun b => (m.node b).kind ≠ .pair

/-- An object or array with children and without a frame, inside a slot that keeps a frame with an indent. In
between are objects and arrays without a frame, and pairs; what frame a pair keeps has no indent. -/
structure Inside (m : Model) (indent : String) (k : Key) (way : List Key) (a : Key) : Prop where
  held : m.Holds k
  container : m.IsContainer k
  bare : m.slotFrame? k = none
  some_ : m.children k ≠ []
  leads : m.Way k way a
  slot : ∃ frame, m.slotFrame? a = some frame ∧ frame.indent = indent
  indented : indent ≠ ""
  between : ∀ b ∈ way, m.IsContainer b ∧ m.slotFrame? b = none ∨
    (m.node b).kind = .pair ∧ ∀ frame ∈ m.slotFrame? b, frame.indent = ""

theorem Frame.givenIndent_plain (plain : frame.strays = []) : frame.givenIndent = .str frame.indent :=
  Frame.given_plain plain _ _

/-- Where no frame is stored on the way, the indent at its end is continued. -/
theorem Way.indents_of_bare (leads : m.Way k way a) (stored : m.slotFrame? a = some frame)
    (plain : frame.strays = []) (bare : ∀ b ∈ way, m.slotFrame? b = none) :
    m.Indents k (.str frame.indent) := by
  rw [← Frame.givenIndent_plain plain]
  induction leads with
  | owner owned => exact .framed owned stored
  | step owned _ ih =>
    rw [List.forall_mem_cons] at bare
    exact .above owned bare.1 (ih stored bare.2)

/-- A frame on the way that has no indent ends what is continued. -/
theorem Way.indents_of_framed (leads : m.Way k way a) (framed : ∃ b ∈ way, m.slotFrame? b ≠ none)
    (plain : ∀ b ∈ way, ∀ frame ∈ m.slotFrame? b, frame.strays = [] ∧ frame.indent = "") :
    m.Indents k (.str "") := by
  induction leads with
  | owner _ => simp at framed
  | @step k b a way owned _ ih =>
    rw [List.forall_mem_cons] at plain
    cases stored : m.slotFrame? b with
    | some frame =>
      obtain ⟨strays, flat⟩ := plain.1 frame stored
      have indents : m.Indents k frame.givenIndent := .framed owned stored
      rwa [Frame.givenIndent_plain strays, flat] at indents
    | none =>
      refine .above owned stored (ih ?_ plain.2)
      obtain ⟨b', inside, some_⟩ := framed
      rcases List.mem_cons.1 inside with rfl | later
      · exact absurd stored some_
      · exact ⟨b', later, some_⟩

section Frames

variable (sound : m.Sound)
include sound

/-- What lies on the way up, and at its end, are nodes of the model, and the end is one with a slot. -/
theorem Way.holds (held : m.Holds k) (leads : m.Way k way a) :
    m.Holds a ∧ (m.node a).kind ≠ .scalar ∧ ∀ b ∈ way, m.Holds b := by
  have above := fun {k a} (held : m.Holds k) (owned : (m.node k).owner = some a) =>
    sound.holds_of_over held (sound.over_of_owner held owned).1
  induction leads with
  | @owner k a owned =>
    refine ⟨above held owned, fun kind => ?_, by simp⟩
    have child := (sound.mem_children_iff (above held owned) held).2 owned
    rw [sound.children_of_scalar (above held owned) kind] at child
    cases child
  | step owned _ ih =>
    obtain ⟨heldEnd, slotted, others⟩ := ih (above held owned)
    exact ⟨heldEnd, slotted, List.forall_mem_cons.2 ⟨above held owned, others⟩⟩

/-- A node without a frame has the one that is generated under the indent that it continues. -/
theorem frame_of_indents (plain : config.strays = []) (held : m.Holds k) (bare : m.slotFrame? k = none)
    (indents : m.Indents k (.str indent)) :
    m.frame config k ((m.node k).edgeName .child) = .ok (Frame.generated config (m.node k).kind indent) := by
  rw [slotFrame?] at bare
  rw [frame, bare, (sound.indents_contextIndent held).unique indents]
  exact Frame.generatedUnder_str plain _ _

/-- A child of an object or array stands behind the opening of the frame, or behind a separator. -/
theorem Flanked.ends_of_child (flanked : m.Flanked config c front back) (held : m.Holds k)
    (container : m.IsContainer k) (had : m.frame config k ((m.node k).edgeName .child) = .ok frame)
    (child : c ∈ m.children k) :
    (∃ ahead, front = ahead ++ frame.opening) ∨ ∃ ahead, front = ahead ++ frame.separator := by
  obtain ⟨front', _, frame', before, behind, _, had', _, rfl⟩ := flanked.exists_of_child sound held child
  cases had.symm.trans had'
  have lead : m.leadIn k frame = frame.opening := by
    rcases container with kind | kind <;> simp [leadIn, kind]
  rw [lead]
  rcases List.eq_nil_or_concat before with rfl | ⟨elder, last, rfl⟩
  · exact .inl ⟨front', by simp⟩
  · exact .inr ⟨_, by rw [List.concat_eq_append, List.map_append, String.join_append, List.map_singleton,
      String.join_cons, String.join_nil, String.append_empty, ← String.append_assoc, ← String.append_assoc]⟩

end Frames

/-- An object or array is generated over several lines, each with one step more than the indent. -/
theorem generated_of_indented (config : Config) (container : m.IsContainer k) (indented : indent ≠ "") : ∃ left right,
    Frame.generated config (m.node k).kind indent =
      Frame.spread config left right indent (indent ++ config.defaultIndent) := by
  rcases container with kind | kind
  · exact ⟨"\x7b", "\x7d", by simp [Frame.generated, kind, Kind.brackets?, indented]⟩
  · exact ⟨"[", "]", by simp [Frame.generated, kind, Kind.brackets?, indented]⟩

/-- Without an indent it is generated on one line. -/
theorem generated_of_flat (config : Config) (container : m.IsContainer k) : ∃ left right, (left = "\x7b" ∨ left = "[") ∧
    Frame.generated config (m.node k).kind "" = Frame.flat config left right := by
  rcases container with kind | kind
  · exact ⟨"\x7b", "\x7d", .inl rfl, by simp [Frame.generated, kind, Kind.brackets?]⟩
  · exact ⟨"[", "]", .inr rfl, by simp [Frame.generated, kind, Kind.brackets?]⟩

/-! ### The children of a generated container -/

namespace Inside

variable (inside : m.Inside indent k way a) (sound : m.Sound) (typed : m.Typed)
  (plain : config.strays = [])
include inside sound typed plain

/-- Where no frame is stored on the way, each child begins a new line, one step deeper than the indent. -/
theorem startsLine_of_bare (bare : ∀ b ∈ way, m.slotFrame? b = none) (child : c ∈ m.children k)
    (flanked : m.Flanked config c front back) : StartsLine front (indent ++ config.defaultIndent) := by
  obtain ⟨heldA, slotted, -⟩ := inside.leads.holds sound inside.held
  obtain ⟨frame, stored, rfl⟩ := inside.slot
  have indents := inside.leads.indents_of_bare stored (typed.framed a heldA slotted frame stored) bare
  have had := frame_of_indents sound plain inside.held inside.bare indents
  obtain ⟨left, right, spread⟩ := generated_of_indented config inside.container inside.indented
  rw [spread] at had
  rcases flanked.ends_of_child sound inside.held inside.container had child with
    ⟨ahead, rfl⟩ | ⟨ahead, rfl⟩
  · exact ⟨ahead ++ left, by simp [Frame.spread, String.append_assoc]⟩
  · exact ⟨ahead ++ ",", by simp [Frame.spread, String.append_assoc]⟩

/-- Where a pair on the way keeps a frame, each child stands behind a bracket or a comma. -/
theorem ends_of_framed (framed : ∃ b ∈ way, m.slotFrame? b ≠ none) (child : c ∈ m.children k)
    (flanked : m.Flanked config c front back) :
    ∃ tail, (tail = "\x7b" ∨ tail = "[" ∨ tail = ", ") ∧ ∃ ahead, front = ahead ++ tail := by
  obtain ⟨-, -, others⟩ := inside.leads.holds sound inside.held
  have flat : ∀ b ∈ way, ∀ frame ∈ m.slotFrame? b, frame.strays = [] ∧ frame.indent = "" := by
    intro b among frame stored
    rcases inside.between b among with ⟨-, bare⟩ | ⟨kind, none_⟩
    · rw [bare] at stored
      cases stored
    · exact ⟨typed.framed b (others b among) (by rw [kind]; decide) frame stored, none_ frame stored⟩
  have indents := inside.leads.indents_of_framed framed flat
  have had := frame_of_indents sound plain inside.held inside.bare indents
  obtain ⟨left, right, bracket, generated⟩ := generated_of_flat config inside.container
  rw [generated] at had
  rcases flanked.ends_of_child sound inside.held inside.container had child with ends | ends
  · exact ⟨left, bracket.elim .inl fun square => .inr (.inl square), ends⟩
  · exact ⟨", ", .inr (.inr rfl), ends⟩

variable (isIndent : IsIndent indent) (isStep : IsIndent config.defaultIndent)
include isIndent isStep

/-- The children are indented by a step for each object and array around them just if no pair on the way keeps a
frame and no object or array lies on the way, or a step is nothing. -/
theorem startsLine_indentBy_iff :
    (∀ c ∈ m.children k, ∀ front back, m.Flanked config c front back →
      StartsLine front (indentBy indent config.defaultIndent (m.levels way + 1))) ↔
    (∀ b ∈ way, m.slotFrame? b = none) ∧ (m.levels way = 0 ∨ config.defaultIndent = "") := by
  have deep := isIndent_indentBy isIndent isStep (m.levels way + 1)
  have length := length_indentBy indent config.defaultIndent (m.levels way + 1)
  constructor
  · intro all
    obtain ⟨c, child⟩ := List.exists_mem_of_ne_nil _ inside.some_
    have heldC := (sound.over_of_mem_children inside.held child).2
    obtain ⟨front, back, flanked⟩ := exists_flanked sound typed.framed
      (Config.generates_of_plain plain) heldC
    have starts := all c child front back flanked
    by_cases bare : ∀ b ∈ way, m.slotFrame? b = none
    · -- The text ends in one new line only, so the two indents are the same.
      have same := StartsLine.unique (isIndent_append isIndent isStep) deep
        (inside.startsLine_of_bare sound typed plain bare child flanked) starts
      have lengths := congrArg String.length same
      rw [length, String.length_append, Nat.succ_mul] at lengths
      refine ⟨bare, ?_⟩
      rw [← String.length_eq_zero_iff, ← Nat.mul_eq_zero]
      omega
    · push Not at bare
      obtain ⟨tail, brackets, ends⟩ := inside.ends_of_framed sound typed plain bare child flanked
      have long : 1 ≤ indent.length := by
        have := mt String.length_eq_zero_iff.1 inside.indented
        omega
      rcases brackets with rfl | rfl | rfl
      · exact absurd starts (not_startsLine (c := '\x7b') deep (Nat.le_add_left 1 _) (by simp) (by decide) ends)
      · exact absurd starts (not_startsLine (c := '[') deep (Nat.le_add_left 1 _) (by simp) (by decide) ends)
      · have two : ", ".length ≤ (indentBy indent config.defaultIndent (m.levels way + 1)).length + 1 := by
          rw [length, show ", ".length = 2 from rfl]
          omega
        exact absurd starts (not_startsLine (c := ',') deep two (by simp) (by decide) ends)
  · rintro ⟨bare, shallow⟩ c child front back flanked
    have starts := inside.startsLine_of_bare sound typed plain bare child flanked
    rcases shallow with none_ | none_
    · simpa [none_, indentBy] using starts
    · rw [none_, String.append_empty] at starts
      rwa [none_, indentBy_empty]

/-- In a document that is shown each child of such a node has its place. It begins a new line behind the indent
with a step for each object and array around it just if no pair on the way keeps a frame and no object or array
lies on the way, or a step is nothing. Where no pair keeps a frame there is one step, however many objects and
arrays lie on the way; where one does the children stay on one line. -/
theorem indented_iff {whole : String} (shown : m.render config = .ok whole) :
    (∀ c ∈ m.children k, ∃ front back text, m.Flanked config c front back ∧
      m.renderSubtree config c = .ok text ∧ whole = front ++ text ++ back) ∧
    ((∀ c ∈ m.children k, ∀ front back, m.Flanked config c front back →
        StartsLine front (indentBy indent config.defaultIndent (m.levels way + 1))) ↔
      (∀ b ∈ way, m.slotFrame? b = none) ∧ (m.levels way = 0 ∨ config.defaultIndent = "")) ∧
    ((∀ b ∈ way, m.slotFrame? b = none) → ∀ c ∈ m.children k, ∀ front back,
      m.Flanked config c front back → StartsLine front (indent ++ config.defaultIndent)) ∧
    ((∃ b ∈ way, m.slotFrame? b ≠ none) → ∀ c ∈ m.children k, ∀ front back,
      m.Flanked config c front back →
        ∃ tail, (tail = "\x7b" ∨ tail = "[" ∨ tail = ", ") ∧ ∃ ahead, front = ahead ++ tail) := by
  have generates := Config.generates_of_plain plain
  refine ⟨fun c child => ?_, inside.startsLine_indentBy_iff sound typed plain isIndent isStep,
    fun bare c child front back => inside.startsLine_of_bare sound typed plain bare child,
    fun framed c child front back => inside.ends_of_framed sound typed plain framed child⟩
  have fine : ∀ j, m.Holds j → m.lack? j = none := fun j held =>
    (hingesOn_render sound typed.framed generates typed.beside).fine_of_ok shown j (sound.mem_order.2 held)
  have heldC := (sound.over_of_mem_children inside.held child).2
  obtain ⟨front, back, flanked⟩ := exists_flanked sound typed.framed generates heldC
  refine ⟨front, back, m.textOf config c, flanked,
    renderSubtree_eq (renders_textOf sound typed.framed generates fine heldC), ?_⟩
  rw [flanked.render_eq sound typed.framed generates fine typed.beside] at shown
  exact (Except.ok.inj shown).symm

end Inside

end Model

/-! ### A pair and an array in between -/

/-- An object over several lines that is given a pair with an array. -/
def addedPair : Workspace :=
  afterCalls (readIn "\x7b\n  \"a\": 1\n\x7d" 0)
    [.create (some "p") .pair { fields := Dict.ofList [(keyField, "\"b\"")] },
      .create (some "a") .array {},
      .create (some "s") .scalar { fields := Dict.ofList [(valueName, "2")] },
      .appendChild "a" itemsSlot "s", .appendChild "p" valueName "a", .appendChild "n1" membersSlot "p"]

/-- An array over several lines that is given an array in an array. -/
def addedArrays : Workspace :=
  afterCalls (readIn "[\n  1\n]" 0)
    [.create (some "a") .array {}, .create (some "b") .array {},
      .create (some "c") .scalar { fields := Dict.ofList [(valueName, "2")] },
      .appendChild "b" itemsSlot "c", .appendChild "a" itemsSlot "b", .appendChild "n1" itemsSlot "a"]

/-- A model of five nodes whose frames are all of texts, and of which the fourth is an array, hanging by way of
the third inside the slot of the first. -/
structure Fivefold (m : Model) : Prop where
  size : m.nodes.size = 5
  beside : m.strays = []
  framed : ∀ k < 5, (m.slotFrame? k).all (·.strays.isEmpty) = true
  live : (m.node 3).live = true
  array : (m.node 3).kind = .array ∧ m.slotFrame? 3 = none ∧ m.children 3 = [4]
  owners : (m.node 3).owner = some 2 ∧ (m.node 2).owner = some 0
  slot : (m.slotFrame? 0).map Frame.indent = some "  "
  between : m.slotFrame? 2 = none ∧ ((m.node 2).kind = .array ∨ (m.node 2).kind = .pair)

namespace Fivefold

variable {m : Model} (fivefold : Fivefold m)
include fivefold

theorem typed : m.Typed := by
  refine ⟨fivefold.beside, fun k held _ frame stored => ?_⟩
  have plain := fivefold.framed k (fivefold.size ▸ held.1)
  rw [Model.slotFrame?, Option.mem_def.1 stored] at plain
  simpa using plain

theorem inside : m.Inside "  " 3 [2] 0 where
  held := ⟨by rw [fivefold.size]; decide, fivefold.live⟩
  container := .inr fivefold.array.1
  bare := fivefold.array.2.1
  some_ := by simp [fivefold.array.2.2]
  leads := .step fivefold.owners.1 (.owner fivefold.owners.2)
  slot := by simpa [Option.map_eq_some_iff] using fivefold.slot
  indented := by decide
  between := by
    obtain ⟨bare, kind⟩ := fivefold.between
    simpa [bare] using kind.imp .inr id

end Fivefold

theorem fivefold_addedPair : Fivefold addedPair.model := by
  constructor <;> decide +kernel

theorem fivefold_addedArrays : Fivefold addedArrays.model := by
  constructor <;> decide +kernel

/-- In an array that hangs on a pair, in an object over several lines, the item is indented by one step more. -/
theorem indented_iff_addedPair :
    addedPair.model.render {} = .ok "\x7b\n  \"a\": 1,\n  \"b\": [\n    2\n  ]\n\x7d" ∧
      ∀ c ∈ addedPair.model.children 3, ∀ front back, addedPair.model.Flanked {} c front back →
        StartsLine front "    " := by
  have shown : addedPair.model.render {} = .ok "\x7b\n  \"a\": 1,\n  \"b\": [\n    2\n  ]\n\x7d" := by
    decide +kernel
  have sound : addedPair.model.Sound := ((reachable_readIn _ _).afterCalls _).sound
  obtain ⟨-, exactly, -⟩ := fivefold_addedPair.inside.indented_iff sound fivefold_addedPair.typed rfl
    (show IsIndent "  " by decide) (show IsIndent "  " by decide) shown
  have deep : indentBy "  " ({} : Config).defaultIndent (addedPair.model.levels [2] + 1) = "    " := by
    decide +kernel
  rw [deep] at exactly
  exact ⟨shown, exactly.2 ⟨by simpa using fivefold_addedPair.between.1, .inl (by decide +kernel)⟩⟩

/-- In an array that is made in another one the item is indented by one step where it should be two. -/
theorem not_indented_addedArrays : ¬ ∀ {w : Workspace}, Reachable w → w.model.Typed →
    ∀ {config : Config}, config.strays = [] → IsIndent config.defaultIndent →
    ∀ {indent k way a}, w.model.Inside indent k way a → IsIndent indent →
    (∃ whole, w.model.render config = .ok whole) → ∀ c ∈ w.model.children k, ∀ front back,
      w.model.Flanked config c front back →
        StartsLine front (indentBy indent config.defaultIndent (w.model.levels way + 1)) := by
  intro all
  have reached : Reachable addedArrays := (reachable_readIn _ _).afterCalls _
  have typed := fivefold_addedArrays.typed
  have inside := fivefold_addedArrays.inside
  have isIndent : IsIndent "  " := by decide
  have shown : ∃ whole, addedArrays.model.render {} = .ok whole :=
    ⟨"[\n  1,\n  [\n    [\n    2\n  ]\n  ]\n]", by decide +kernel⟩
  have deep := all reached typed rfl isIndent inside isIndent shown
  have shallow := (inside.startsLine_indentBy_iff reached.sound typed rfl isIndent isIndent).1 deep
  exact absurd shallow.2 (by decide +kernel)

end DocSync
