import DocSync.Proofs.Patch.Carried
import DocSync.Proofs.Patch.Seats
import DocSync.Proofs.Patch.Slots
import DocSync.Proofs.Render.Shown

/-!
The splices of a chain that changed. The chain before and the chain after are cut at what stayed of the
one in the other; between the cuts lie the gaps, and each gap in which something went or came asks for
one splice.
-/

namespace DocSync

open Lexer (Blanks)

namespace Model

variable {m : Model} {config : Config} {k : Key}

/-- The shape of a node with all that hangs on it. -/
def shapeOf (m : Model) (k : Key) : Shape := (m.tree k).map m.contentOf

theorem Linked.shapesAt_head (linked : m.Linked) (held : m.Holds k) :
    m.shapesAt (m.node k).head = (m.children k).map m.shapeOf := by
  rw [shapesAt, linked.treesAt_head held, Tree.mapAll_eq_map, List.map_map]
  rfl

theorem Linked.shapeOf_eq (linked : m.Linked) (held : m.Holds k) :
    m.shapeOf k = .node (m.contentOf k) ((m.children k).map m.shapeOf) := by
  rw [← linked.shapesAt_head held, shapeOf, tree_eq, Tree.map]
  rfl

/-- Every node of a model that stands for a document is shown as what it is. -/
theorem Furnished.exists_text (furnished : m.Furnished) (sound : m.Sound) (blank : config.Blank)
    (held : m.Holds k) : ∃ text, m.renderSubtree config k = .ok text ∧
      ReadsWithin anyhow text.toList (m.shapeOf k) := by
  have shape : m.shapeOf k = .node (m.contentOf k) (m.shapesAt (m.node k).head) := by
    rw [sound.shapeOf_eq held, sound.shapesAt_head held]
  have below : m.Voiced config (m.node k).head := by
    cases head : (m.node k).head with
    | none => exact ⟨[], by simp, by simp⟩
    | some c => exact furnished.voiced sound blank (sound.holds_of_leads held ⟨.child, head⟩)
  obtain ⟨text, renders, reads⟩ := furnished.voiced_node sound blank held below
  exact ⟨_, renderSubtree_eq renders, by rw [String.toList_ofList, shape]; exact reads⟩

/-- The frame that a node keeps for its slot. -/
def sampled (m : Model) (k : Key) : Frame :=
  ((m.node k).frames.get? ((m.node k).edgeName .child)).getD {}

/-- Where the slot of a node starts. -/
def slotStart (m : Model) (k : Key) : Nat :=
  (((m.node k).origin.bind fun origin => origin.slotSpans.get? ((m.node k).edgeName .child)).map
    fun span => span.start.toNat).getD 0

theorem SlotAt.slotStart {lo hi : Nat} (slot : m.SlotAt k lo hi) : m.slotStart k = lo := by
  obtain ⟨origin, span, known, there, covers⟩ := slot
  simp [Model.slotStart, known, there, covers.start]

/-- A node that may have children has its slot in the text, with a frame that fits. -/
structure Slotted (m : Model) (k : Key) : Prop where
  kind : (m.node k).kind ≠ .scalar
  slot : m.SlotAt k (m.slotStart k) (m.stopOf k)
  stored : (m.node k).frames.get? ((m.node k).edgeName .child) = some (m.sampled k)
  fits : (m.sampled k).Fits (m.node k).kind

/-- The children of a node stand in its slot, between the texts that its frame has around them. -/
structure Rowed (m : Model) (source : List Char) (k : Key) (p q : Nat) : Prop extends
    m.Slotted k where
  lined : m.Lined source p (m.children k) q
  start : m.startOf k ≤ m.slotStart k
  opening : m.slotStart k + (m.sampled k).opening.length = p
  closing : q + (m.sampled k).closing.length ≤ m.stopOf k
  /-- The closing text is a bracket, or else there is a value before it. -/
  some_ : 0 < (m.sampled k).closing.length ∨ p + (m.sampled k).closing.length < m.stopOf k

/-- What is shown of the opening of an empty slot is what it starts with. -/
theorem emptyOpening_prefix (frame : Frame) :
    frame.emptyOpening.toList <+: frame.opening.toList := by
  unfold Frame.emptyOpening
  simp only
  split
  · exact List.prefix_refl _
  · rw [String.toList_ofList]
    split
    · exact (List.dropLast_prefix _).trans (List.take_prefix _ _)
    · exact List.take_prefix _ _

/-- A padded mark is not empty. -/
theorem length_pos_of_gap {mark : Char} {gap : List Char} (isGap : Gap mark gap) :
    0 < gap.length := by
  obtain ⟨before, after, rfl, _⟩ := isGap
  rw [List.length_append, List.length_cons]
  omega

/-- The opening of an empty slot has its mark, too. -/
theorem Slotted.emptyOpening_pos (slotted : m.Slotted k) :
    0 < (m.sampled k).emptyOpening.length := by
  obtain ⟨notScalar, _, _, texts, indent, _, _⟩ := slotted
  rw [← String.length_toList]
  cases kind : (m.node k).kind with
  | object =>
    rw [kind] at texts
    exact length_pos_of_gap (gap_emptyOpening rfl texts.opening indent)
  | array =>
    rw [kind] at texts
    exact length_pos_of_gap (gap_emptyOpening rfl texts.opening indent)
  | pair =>
    rw [kind] at texts
    exact length_pos_of_gap (gap_emptyOpening rfl texts.1 indent)
  | scalar => exact absurd kind notScalar

/-- The slot of a container ends with its bracket. -/
theorem Slotted.closing_pos (slotted : m.Slotted k) (notPair : (m.node k).kind ≠ .pair) :
    0 < (m.sampled k).closing.length := by
  obtain ⟨notScalar, _, _, texts, _, _, _⟩ := slotted
  rw [← String.length_toList]
  cases kind : (m.node k).kind with
  | object =>
    rw [kind] at texts
    exact length_pos_of_gap texts.closing
  | array =>
    rw [kind] at texts
    exact length_pos_of_gap texts.closing
  | pair => exact absurd kind notPair
  | scalar => exact absurd kind notScalar

/-- A pair has one child at most. -/
theorem Seated.length_children_of_pair {source : List Char} {fingerprint : String}
    (seated : m.Seated source fingerprint k) (kind : (m.node k).kind = .pair) :
    (m.children k).length ≤ 1 := by
  cases seated with
  | scalar _ kind' _ _ _ _ _ _ =>
    rw [kind] at kind'
    cases kind'
  | @container _ isObject _ _ _ kind' _ _ _ _ _ _ _ _ _ =>
    rw [kind] at kind'
    cases isObject <;> cases kind'
  | pair _ _ _ _ _ _ _ _ _ value _ =>
    rcases value with ⟨_, _, _, _, childless, _⟩ | ⟨c, children, _⟩
    · rw [childless]
      exact Nat.zero_le _
    · rw [children]
      rfl

/-- In a document a pair has one child at most. -/
theorem Filled.length_children_of_pair (filled : m.Filled k) (kind : (m.node k).kind = .pair) :
    (m.children k).length ≤ 1 := by
  rw [Filled, kind] at filled
  obtain ⟨_, _, ⟨_, _, childless, _⟩ | ⟨c, children, _⟩⟩ := filled
  · rw [childless]
    exact Nat.zero_le _
  · rw [children]
    rfl

/-- The children of a node that may have some stand in its slot. -/
theorem Seated.exists_rowed {source : List Char} {fingerprint : String}
    (seated : m.Seated source fingerprint k) (notScalar : (m.node k).kind ≠ .scalar) :
    ∃ p q, m.Rowed source k p q := by
  cases seated with
  | scalar _ kind _ _ _ _ _ _ => exact absurd kind notScalar
  | @container _ isObject frame last placed kind fields stored fits slot opens lined closes stop
      below =>
    -- The slot is all of the container, with a bracket at its end.
    have same : m.sampled k = frame := by rw [sampled, stored]; rfl
    have starts := slot.slotStart
    have closing : 0 < frame.closing.toList.length := by
      have texts := fits.texts
      rw [kind] at texts
      cases isObject
      · exact length_pos_of_gap texts.closing
      · exact length_pos_of_gap texts.closing
    refine ⟨_, last, ⟨notScalar, by rw [starts]; exact slot, by rw [same]; exact stored,
      by rw [same]; exact fits⟩, lined, Nat.le_of_eq starts.symm, ?_, ?_, ?_⟩
    · rw [same, starts, String.length_toList]
    · rw [same, stop, String.length_toList]
    · rw [same]
      rw [String.length_toList] at closing
      exact .inl closing
  | @pair _ key frame placed kind lexeme stored fits closing slot opens field value below =>
    have same : m.sampled k = frame := by rw [sampled, stored]; rfl
    have starts := slot.slotStart
    have slotted : m.Slotted k := ⟨notScalar, by rw [starts]; exact slot, by rw [same]; exact stored,
      by rw [same]; exact fits⟩
    have none_ : (m.sampled k).closing.length = 0 := by rw [same, closing]; rfl
    rcases value with ⟨value, ⟨_, ⟨_, _, rfl, _⟩, _⟩, _, stop, childless, _⟩ |
      ⟨c, children, start, stop, _⟩
    · -- A value that is a field is no child, and the row is empty where the value starts.
      refine ⟨m.startOf k + key.length + frame.opening.toList.length,
        m.startOf k + key.length + frame.opening.toList.length, slotted, ?_, ?_, ?_, ?_, ?_⟩
      · rw [childless]
        rfl
      · omega
      · rw [same, starts, String.length_toList]
      · omega
      · rw [List.length_cons] at stop
        omega
    · -- The only child takes up all that is left of the pair.
      have some_ := (below c (by rw [children]; exact List.mem_singleton_self c)).placed.some_
      refine ⟨m.startOf k + key.length + frame.opening.toList.length, m.stopOf k, slotted, ?_, ?_, ?_,
        ?_, ?_⟩
      · rw [children]
        exact ⟨start, some_, stop⟩
      · omega
      · rw [same, starts, String.length_toList]
      · omega
      · omega

/-- The frames of a text are made of texts. -/
theorem plainFrames_of_seated {source : List Char} {fingerprint : String}
    (seated : ∀ {k}, m.Holds k → m.Seated source fingerprint k) : m.PlainFrames := by
  intro k held notScalar frame stored
  obtain ⟨_, _, rowed⟩ := (seated held).exists_rowed notScalar
  rw [rowed.stored] at stored
  cases stored
  exact rowed.fits.plain

/-- An object or array stands between its brackets, which the frame of its slot has. -/
structure Bracketed (m : Model) (source : List Char) (k : Key) (isObject : Bool) (last : Nat) :
    Prop where
  brackets : (m.sampled k).Brackets isObject
  indent : Blanks (m.sampled k).indent.toList
  slot : m.slotStart k = m.startOf k
  opens : Occurs source (m.startOf k) (m.sampled k).opening.toList
  lined : m.Lined source (m.startOf k + (m.sampled k).opening.toList.length) (m.children k) last
  closes : Occurs source last (m.sampled k).closing.toList
  stop : m.stopOf k = last + (m.sampled k).closing.toList.length

/-- Objects and arrays have no fields, and stand between brackets. -/
theorem Seated.exists_bracketed {source : List Char} {fingerprint : String} {isObject : Bool}
    (seated : m.Seated source fingerprint k) (kind : (m.node k).kind = kindOf isObject) :
    (m.node k).fields = .empty ∧ ∃ last, m.Bracketed source k isObject last := by
  cases seated with
  | scalar _ kind' =>
    rw [kind] at kind'
    cases isObject <;> cases kind'
  | pair _ kind' =>
    rw [kind] at kind'
    cases isObject <;> cases kind'
  | @container _ _ frame last _ _ fields stored fits slot opens lined closes stop _ =>
    have brackets : frame.Brackets isObject := by
      have texts := fits.texts
      rw [kind] at texts
      cases isObject <;> exact texts
    obtain rfl : m.sampled k = frame := by rw [sampled, stored]; rfl
    exact ⟨fields, last, brackets, fits.indent, slot.slotStart, opens, lined, closes, stop⟩

end Model

namespace PatchTask

variable {t : PatchTask} {a b k : Key} {isAnchor : Key → Bool} {chain : List Key}

/-- A task from the model of a text, with every node of the model where it stands in the text. -/
structure Situated (t : PatchTask) : Prop extends t.Proper where
  seated : ∀ {k}, t.read.Holds k → t.read.Seated t.text.toList (Digest.fingerprint t.text) k

/-- A task from the model of a text to one that stands for a document. -/
structure Ready (t : PatchTask) : Prop extends t.Situated where
  furnished : t.live.Furnished
  generates : t.config.Generates

/-- The text that a node of the live model is shown as. -/
def shown (t : PatchTask) (k : Key) : String := (t.liveText k).toOption.getD ""

theorem Situated.exists_origin (situated : t.Situated) (held : t.read.Holds a) : ∃ origin, t.originOf a = .ok origin ∧
    (t.read.node a).origin = some origin ∧
      origin.span.Covers (t.read.startOf a) (t.read.stopOf a) := by
  obtain ⟨origin, known, hash, covers⟩ := (situated.seated held).placed.origin
  refine ⟨origin, ?_, known, covers⟩
  rw [originOf]
  simp only [known, hash, if_true]

namespace Ready

variable (ready : t.Ready)
include ready

/-- Every node of the live model comes to what it is shown as. -/
theorem renders_shown (held : t.live.Holds k) :
    t.liveText k = .ok (t.shown k) ∧ t.live.Renders t.config (t.live.tree k) (t.shown k) := by
  obtain ⟨text, renders⟩ := ready.furnished.exists_renders ready.soundLive ready.generates held
  have shows : t.liveText k = .ok text := by rw [liveText, Model.renderSubtree_eq renders]; rfl
  rw [shown, shows]
  exact ⟨rfl, renders⟩

/-- What nodes are shown as says what they are, if nothing but blanks is added to it. -/
theorem readsWithin_shown (blank : t.config.Blank) (held : t.live.Holds k) :
    ReadsWithin anyhow (t.shown k).toList (t.live.shapeOf k) := by
  obtain ⟨text, rendered, reads⟩ := ready.furnished.exists_text ready.soundLive blank held
  have shows : t.liveText k = .ok text := by rw [liveText, rendered]; rfl
  rwa [shown, shows]

end Ready

/-! ### Chains cut at their anchors -/

/-- A chain falls into what lies before its first anchor, and its anchors with what lies behind
each. -/
theorem exists_runs (isAnchor : Key → Bool) (chain : List Key) :
    ∃ (first : List Key) (rest : List (Key × List Key)),
      chain = first ++ rest.flatMap (fun run => run.1 :: run.2) ∧
      gaps isAnchor chain = first :: rest.map Prod.snd ∧
      chain.filter isAnchor = rest.map Prod.fst ∧
      (∀ k ∈ first, isAnchor k = false) ∧
      ∀ run ∈ rest, isAnchor run.1 = true ∧ ∀ k ∈ run.2, isAnchor k = false := by
  induction chain with
  | nil => exact ⟨[], [], rfl, rfl, rfl, by simp, by simp⟩
  | cons k chain ih =>
    obtain ⟨first, rest, split, cut, anchors, before, behind⟩ := ih
    -- An anchor starts a run of its own, and any other node joins the run that it stands before.
    by_cases anchor : isAnchor k = true
    · refine ⟨[], (k, first) :: rest, by simp [split], ?_, ?_, by simp, ?_⟩
      · simp [gaps, cut, anchor]
      · simp [anchor, anchors]
      · exact List.forall_mem_cons.2 ⟨⟨anchor, before⟩, behind⟩
    · refine ⟨k :: first, rest, by simp [split], ?_, ?_, ?_, behind⟩
      · simp [gaps, cut, anchor]
      · simp [anchor, anchors]
      · exact List.forall_mem_cons.2 ⟨by simpa using anchor, before⟩

/-- The gaps behind the anchors of a chain. -/
def gapsBehind (rest rest' : List (Key × List Key)) : List Gap :=
  gapsOf (rest.map Prod.fst).head? (rest.map Prod.fst).tail (rest.map Prod.snd) (rest'.map Prod.snd)

theorem gapsBehind_cons (run run' : Key × List Key) (rest rest' : List (Key × List Key)) :
    gapsBehind (run :: rest) (run' :: rest') =
      ⟨some run.1, (rest.map Prod.fst).head?, run.2, run'.2⟩ :: gapsBehind rest rest' := rfl

/-- A node of the live model was there before. -/
def known (t : PatchTask) (k : Key) : Bool := (t.changes.oldId? (t.live.node k).id).isSome

/-- The chain in a node's slot and that of its partner, cut at the siblings that stayed: what went and
came before the first of them, and each of them with what went or came behind it. -/
structure Cut (t : PatchTask) (a b : Key) (first first' : List Key)
    (rest rest' : List (Key × List Key)) : Prop where
  old : t.read.children a = first ++ rest.flatMap fun run => run.1 :: run.2
  new : t.live.children b = first' ++ rest'.flatMap fun run => run.1 :: run.2
  partners : List.Forall₂ (fun run run' => Partners t.read t.live run.1 run'.1) rest rest'
  gone : ∀ k ∈ first, t.stayed k = false
  goneBehind : ∀ run ∈ rest, ∀ k ∈ run.2, t.stayed k = false
  came : ∀ k ∈ first', t.known k = false
  cameBehind : ∀ run ∈ rest', ∀ k ∈ run.2, t.known k = false

/-- The gaps of a cut chain. -/
def gapsOfCut (first first' : List Key) (rest rest' : List (Key × List Key)) : List Gap :=
  ⟨none, (rest.map Prod.fst).head?, first, first'⟩ :: gapsBehind rest rest'

/-- Something went or came in a gap. -/
def Gap.stirred (gap : Gap) : Bool := !(gap.deleted.isEmpty && gap.created.isEmpty)

/-- The gaps of the chain in a node's slot. -/
def slotGaps (t : PatchTask) (a b : Key) : List Gap :=
  gapsOf none ((t.read.children a).filter t.stayed) (gaps t.stayed (t.read.children a))
    (gaps t.known (t.live.children b))

/-- The splice that a gap of the chain in a node's slot asks for. -/
def spliceOf (t : PatchTask) (a : Key) (gap : Gap) : Splice :=
  let frame := t.read.sampled a
  let shown := frame.separator.intercalate (gap.created.map t.shown)
  match gap.before, gap.after with
  | some before, _ =>
    ⟨t.read.stopOf before, t.read.stopOf ((gap.deleted.getLast?).getD before),
      if gap.created.isEmpty then "" else frame.separator ++ shown⟩
  | none, some after =>
    ⟨t.read.startOf ((gap.deleted.head?).getD after), t.read.startOf after,
      if gap.created.isEmpty then "" else shown ++ frame.separator⟩
  | none, none =>
    ⟨t.read.slotStart a +
        ((if gap.created.isEmpty then frame.emptyOpening else frame.opening).length : Int),
      t.read.stopOf a - (frame.closing.length : Int), shown⟩

/-- The splices of the chain in a node's slot. -/
def slotPlan (t : PatchTask) (a b : Key) : List Splice :=
  ((t.slotGaps a b).filter Gap.stirred).map (t.spliceOf a)

/-- The gaps behind anchors are made of these and of what lies behind them. -/
theorem mem_of_mem_gapsBehind {rest rest' : List (Key × List Key)} {gap : Gap}
    (member : gap ∈ gapsBehind rest rest') :
    (∃ run ∈ rest, gap.before = some run.1 ∧ gap.deleted = run.2) ∧
      (∀ k ∈ gap.after, k ∈ rest.map Prod.fst) ∧ ∃ run' ∈ rest', gap.created = run'.2 := by
  induction rest generalizing rest' with
  | nil => cases member
  | cons run rest ih =>
    cases rest' with
    | nil => simp [gapsBehind, gapsOf] at member
    | cons run' rest' =>
      rw [gapsBehind_cons] at member
      -- The first gap lies between the first two siblings, the others further back.
      rcases List.mem_cons.1 member with rfl | later
      · refine ⟨⟨run, List.mem_cons_self, rfl, rfl⟩, fun k head => ?_, run', List.mem_cons_self, rfl⟩
        exact List.mem_cons_of_mem _ (List.mem_of_mem_head? head)
      · obtain ⟨⟨other, inside, old⟩, after, other', inside', new⟩ := ih later
        exact ⟨⟨other, List.mem_cons_of_mem _ inside, old⟩,
          fun k head => List.mem_cons_of_mem _ (after k head), other',
          List.mem_cons_of_mem _ inside', new⟩

/-- The gaps of a chain are made of its nodes and of those of the partner's chain. -/
theorem Cut.mem_children {first first' : List Key} {rest rest' : List (Key × List Key)} {gap : Gap}
    (cut : t.Cut a b first first' rest rest') (member : gap ∈ gapsOfCut first first' rest rest') :
    (∀ k ∈ gap.before, k ∈ t.read.children a) ∧ (∀ k ∈ gap.after, k ∈ t.read.children a) ∧
      (∀ k ∈ gap.deleted, k ∈ t.read.children a) ∧ ∀ k ∈ gap.created, k ∈ t.live.children b := by
  have anchor : ∀ {k}, k ∈ rest.map Prod.fst → k ∈ t.read.children a := by
    intro k inside
    obtain ⟨run, there, rfl⟩ := List.mem_map.1 inside
    rw [cut.old]
    exact List.mem_append_right _ (List.mem_flatMap.2 ⟨run, there, List.mem_cons_self⟩)
  have behind : ∀ {run k}, run ∈ rest → k ∈ run.2 → k ∈ t.read.children a := by
    intro run k there inside
    rw [cut.old]
    exact List.mem_append_right _ (List.mem_flatMap.2 ⟨run, there, List.mem_cons_of_mem _ inside⟩)
  -- The gap lies before the first sibling that stayed, or behind one of them.
  rcases List.mem_cons.1 member with rfl | later
  · refine ⟨by simp, fun k head => anchor (List.mem_of_mem_head? head), fun k inside => ?_,
      fun k inside => ?_⟩
    · rw [cut.old]
      exact List.mem_append_left _ inside
    · rw [cut.new]
      exact List.mem_append_left _ inside
  · obtain ⟨⟨run, there, before, deleted⟩, after, run', there', created⟩ :=
      mem_of_mem_gapsBehind later
    refine ⟨fun k is => ?_, fun k head => anchor (after k head), fun k inside =>
      behind there (deleted ▸ inside), fun k inside => ?_⟩
    · rw [before] at is
      cases is
      exact anchor (List.mem_map_of_mem there)
    · rw [cut.new]
      exact List.mem_append_right _
        (List.mem_flatMap.2 ⟨run', there', List.mem_cons_of_mem _ (created ▸ inside)⟩)

/-- What went in the gaps of a chain has not stayed. -/
theorem Cut.stayed_of_deleted {first first' : List Key} {rest rest' : List (Key × List Key)} {gap : Gap}
    (cut : t.Cut a b first first' rest rest') (member : gap ∈ gapsOfCut first first' rest rest')
    (gone : k ∈ gap.deleted) : t.stayed k = false := by
  rcases List.mem_cons.1 member with rfl | later
  · exact cut.gone k gone
  · obtain ⟨⟨run, there, _, same⟩, _, _⟩ := mem_of_mem_gapsBehind later
    exact cut.goneBehind run there k (same ▸ gone)

/-- What came in the gaps of a chain was not there before. -/
theorem Cut.known_of_created {first first' : List Key} {rest rest' : List (Key × List Key)} {gap : Gap}
    (cut : t.Cut a b first first' rest rest') (member : gap ∈ gapsOfCut first first' rest rest')
    (came : k ∈ gap.created) : t.known k = false := by
  rcases List.mem_cons.1 member with rfl | later
  · exact cut.came k came
  · obtain ⟨_, _, run, there, same⟩ := mem_of_mem_gapsBehind later
    exact cut.cameBehind run there k (same ▸ came)

/-- Behind each anchor of the partner's chain there is a gap, with what came there. -/
theorem exists_gap_behind {rest rest' : List (Key × List Key)} (length : rest.length = rest'.length)
    {run' : Key × List Key} (there : run' ∈ rest') :
    ∃ gap ∈ gapsBehind rest rest', gap.created = run'.2 := by
  induction rest' generalizing rest with
  | nil => cases there
  | cons first rest' ih =>
    cases rest with
    | nil => cases length
    | cons run rest =>
      rw [gapsBehind_cons]
      rcases List.mem_cons.1 there with rfl | later
      · exact ⟨_, List.mem_cons_self, rfl⟩
      · obtain ⟨gap, member, created⟩ := ih (Nat.succ.inj length) later
        exact ⟨gap, List.mem_cons_of_mem _ member, created⟩

/-- What stayed of the chain in a node's slot is there in the same order. -/
def InOrder (t : PatchTask) (a b : Key) : Prop :=
  ((t.read.children a).filter t.stayed).map (fun k => (t.read.node k).id.name) =
    ((t.live.children b).filterMap fun k => t.changes.oldId? (t.live.node k).id).map NodeId.name

namespace Situated

variable (situated : t.Situated)
include situated

theorem known_iff (held : t.live.Holds k) :
    t.known k = true ↔ ∃ c, Partners t.read t.live c k := by
  rw [known]
  by_cases partner : ∃ c, Partners t.read t.live c k
  · obtain ⟨c, partners⟩ := partner
    rw [situated.tells.oldId?_of_partners situated.soundLive partners]
    exact iff_of_true rfl ⟨c, partners⟩
  · rw [situated.tells.oldId?_of_lone situated.soundLive held (not_exists.1 partner)]
    exact iff_of_false Bool.false_ne_true partner

theorem holds_child (held : t.read.Holds a) (member : k ∈ t.read.children a) : t.read.Holds k :=
  (situated.soundRead.over_of_mem_children held member).2

theorem holds_child_live (held : t.live.Holds b) (member : k ∈ t.live.children b) :
    t.live.Holds k :=
  (situated.soundLive.over_of_mem_children held member).2

/-- Chains of which the siblings that stayed are in order are cut at these. -/
theorem exists_cut (partners : Partners t.read t.live a b) (inOrder : t.InOrder a b) :
    ∃ first first' rest rest', t.Cut a b first first' rest rest' ∧
      t.slotGaps a b = gapsOfCut first first' rest rest' := by
  obtain ⟨first, rest, split, cut, anchors, gone, behind⟩ := exists_runs t.stayed (t.read.children a)
  obtain ⟨first', rest', split', cut', anchors', came, behind'⟩ :=
    exists_runs t.known (t.live.children b)
  have heldA := partners.holds_left situated.soundRead
  have heldB := partners.holds_right situated.soundLive
  -- Anchors that go by one name are partners.
  have ids : ∀ chain : List Key, List.Forall₂ (fun k id =>
      t.changes.oldId? (t.live.node k).id = some id) (chain.filter t.known)
        (chain.filterMap fun k => t.changes.oldId? (t.live.node k).id) := by
    intro chain
    induction chain with
    | nil => exact .nil
    | cons k chain ih =>
      cases found : t.changes.oldId? (t.live.node k).id with
      | none => simpa [known, found] using ih
      | some id => simpa [known, found] using ih
  have names := inOrder
  rw [InOrder, anchors, ← List.forall₂_eq_eq_eq, List.forall₂_map_left_iff,
    List.forall₂_map_left_iff, List.forall₂_map_right_iff] at names
  have named := ids (t.live.children b)
  rw [anchors', List.forall₂_map_left_iff] at named
  have joined : List.Forall₂ (fun run run' => Partners t.read t.live run.1 run'.1) rest rest' := by
    -- There are as many anchors on either side, and one by one they go by one name.
    have length : rest.length = rest'.length := names.length_eq.trans named.length_eq.symm
    refine List.forall₂_iff_get.2 ⟨length, fun i inside inside' => ?_⟩
    have between : i < ((t.live.children b).filterMap fun k =>
        t.changes.oldId? (t.live.node k).id).length := named.length_eq ▸ inside'
    have name := (List.forall₂_iff_get.1 names).2 i inside between
    have id := (List.forall₂_iff_get.1 named).2 i inside' between
    have memberA : (rest.get ⟨i, inside⟩).1 ∈ t.read.children a := by
      have filtered : (rest.get ⟨i, inside⟩).1 ∈ (t.read.children a).filter t.stayed := by
        rw [anchors]
        exact List.mem_map_of_mem (List.get_mem _ _)
      exact (List.mem_filter.1 filtered).1
    have memberB : (rest'.get ⟨i, inside'⟩).1 ∈ t.live.children b ∧
        t.known (rest'.get ⟨i, inside'⟩).1 = true := by
      have filtered : (rest'.get ⟨i, inside'⟩).1 ∈ (t.live.children b).filter t.known := by
        rw [anchors']
        exact List.mem_map_of_mem (List.get_mem _ _)
      exact List.mem_filter.1 filtered
    have held := situated.holds_child_live heldB memberB.1
    obtain ⟨c, other⟩ := (situated.known_iff held).1 memberB.2
    rw [situated.tells.oldId?_of_partners situated.soundLive other, Option.some.injEq] at id
    rw [← id] at name
    have same := situated.soundRead.named (situated.holds_child heldA memberA)
      (other.holds_left situated.soundRead) name
    exact same ▸ other
  refine ⟨first, first', rest, rest', ⟨split, split', joined, gone, fun run member =>
    (behind run member).2, came, fun run member => (behind' run member).2⟩, ?_⟩
  rw [slotGaps, anchors, cut, cut', gapsOfCut]
  rfl

/-- What came to a chain that is cut at what stayed came in one of its gaps. -/
theorem exists_gap_of_lone {first first' : List Key} {rest rest' : List (Key × List Key)}
    (cut : t.Cut a b first first' rest rest') (held : t.live.Holds b) (child : k ∈ t.live.children b)
    (came : t.known k = false) : ∃ gap ∈ gapsOfCut first first' rest rest', k ∈ gap.created := by
  have heldK := situated.holds_child_live held child
  rw [cut.new] at child
  rcases List.mem_append.1 child with front | back
  · exact ⟨_, List.mem_cons_self, front⟩
  · obtain ⟨run', there, inside⟩ := List.mem_flatMap.1 back
    rcases List.mem_cons.1 inside with rfl | behind
    · -- The siblings that the chain is cut at were there before.
      obtain ⟨run, _, partners⟩ := cut.partners.flip.exists_of_mem there
      rw [(situated.known_iff heldK).2 ⟨_, partners⟩] at came
      cases came
    · obtain ⟨gap, member, created⟩ := exists_gap_behind cut.partners.length_eq there
      exact ⟨gap, List.mem_cons_of_mem _ member, created ▸ behind⟩

/-- The splice of a gap is had from the spans of the nodes around it. -/
theorem gapSplice_eq {gap : Gap} (held : t.read.Holds a) (slotted : t.read.Slotted a)
    (before : ∀ k ∈ gap.before, t.read.Holds k) (after : ∀ k ∈ gap.after, t.read.Holds k)
    (deleted : ∀ k ∈ gap.deleted, t.read.Holds k) :
    t.gapSplice a ((t.read.node a).edgeName .child) (t.read.sampled a) gap
      (t.read.sampled a).separator
      ((t.read.sampled a).separator.intercalate (gap.created.map t.shown)) =
        .ok (.ofSplice (t.spliceOf a gap)) := by
  obtain ⟨before?, after?, gone, come⟩ := gap
  cases before? with
  | some before_ =>
    -- Behind an anchor the splice reaches to where the last node that went ends.
    obtain ⟨origin, found, _, covers⟩ := situated.exists_origin (before before_ rfl)
    cases last : gone.getLast? with
    | none =>
      simp [gapSplice, spliceOf, found, last, covers.given, Draft.ofSplice, bind, Except.bind, pure,
        Except.pure]
    | some last_ =>
      obtain ⟨origin', found', _, covers'⟩ :=
        situated.exists_origin (deleted last_ (List.mem_of_getLast? last))
      simp [gapSplice, spliceOf, found, found', last, covers.given, covers'.given, Draft.ofSplice,
        bind, Except.bind, pure, Except.pure]
  | none =>
    cases after? with
    | some after_ =>
      -- Before all anchors it reaches from where the first node that went starts.
      obtain ⟨origin, found, _, covers⟩ := situated.exists_origin (after after_ rfl)
      cases first : gone.head? with
      | none =>
        simp [gapSplice, spliceOf, found, first, covers.given, Draft.ofSplice, bind, Except.bind, pure,
          Except.pure]
      | some first_ =>
        obtain ⟨origin', found', _, covers'⟩ :=
          situated.exists_origin (deleted first_ (List.mem_of_head? first))
        simp [gapSplice, spliceOf, found, found', first, covers.given, covers'.given, Draft.ofSplice,
          bind, Except.bind, pure, Except.pure]
    | none =>
      -- Without anchors it is told by the slot and what the frame has around its children.
      obtain ⟨origin, found, known, _⟩ := situated.exists_origin held
      obtain ⟨origin', span, known', there, covers⟩ := slotted.slot
      obtain rfl : origin' = origin := Option.some.inj (known' ▸ known)
      have plain := slotted.fits.plain
      have closes : moved span.givenStop (t.read.sampled a).givenClosing (-1) =
          .ok (.int (t.read.stopOf a - (t.read.sampled a).closing.length)) := by
        rw [covers.given.2, Frame.givenClosing, Model.Frame.given_plain plain]
        simp [moved, Json.number?, Json.size?, Json.ofNumeric, Numeric.add, Int.sub_eq_add_neg]
      have opens : ∀ text : String, moved span.givenStart (.str text) 1 =
          .ok (.int (t.read.slotStart a + text.length)) := by
        intro text
        rw [covers.given.1]
        simp [moved, Json.number?, Json.size?, Json.ofNumeric, Numeric.add]
      have untrailed := slotted.fits.untrailed
      cases come with
      | nil =>
        simp [gapSplice, spliceOf, found, there, closes, opens, Draft.ofSplice, bind, Except.bind, pure,
          Except.pure, Except.mapError, Model.Frame.openingWhenEmpty_plain plain]
      | cons c come =>
        simp [gapSplice, spliceOf, found, there, closes, opens, untrailed, Draft.ofSplice, bind,
          Except.bind, pure, Except.pure, Except.mapError, Frame.givenOpening,
          Model.Frame.given_plain plain]

/-- Where a chain became that of the partner, sibling by sibling, no splice is asked for. -/
theorem inOrder_of_partners (partners : Partners t.read t.live a b)
    (same : List.Forall₂ (Partners t.read t.live) (t.read.children a) (t.live.children b)) :
    t.InOrder a b ∧ t.slotPlan a b = [] := by
  have each : ∀ {xs ys : List Key}, List.Forall₂ (Partners t.read t.live) xs ys →
      (∀ k ∈ xs, t.stayed k = true) ∧ (∀ k ∈ ys, t.known k = true) ∧
        (xs.filter t.stayed).map (fun k => (t.read.node k).id.name) =
          (ys.filterMap fun k => t.changes.oldId? (t.live.node k).id).map NodeId.name := by
    intro xs ys same
    induction same with
    | nil => exact ⟨by simp, by simp, rfl⟩
    | @cons x y xs ys first _ ih =>
      have stays := (situated.stayed_iff (first.holds_left situated.soundRead)).2 ⟨y, first⟩
      have known := (situated.known_iff (first.holds_right situated.soundLive)).2 ⟨x, first⟩
      refine ⟨List.forall_mem_cons.2 ⟨stays, ih.1⟩, List.forall_mem_cons.2 ⟨known, ih.2.1⟩, ?_⟩
      rw [List.filter_cons_of_pos stays, List.filterMap_cons,
        situated.tells.oldId?_of_partners situated.soundLive first, List.map_cons, List.map_cons, ih.2.2]
  obtain ⟨stays, known, inOrder⟩ := each same
  refine ⟨inOrder, ?_⟩
  obtain ⟨first, first', rest, rest', cut, gaps⟩ := situated.exists_cut partners inOrder
  -- Nothing went or came, as every sibling has a partner on the other side.
  have quiet : ∀ gap ∈ t.slotGaps a b, gap.stirred = false := by
    intro gap member
    rw [gaps] at member
    obtain ⟨_, _, deleted, created⟩ := cut.mem_children member
    have old : gap.deleted = [] := List.eq_nil_iff_forall_not_mem.2 fun k inside => by
      have gone := cut.stayed_of_deleted member inside
      rw [stays k (deleted k inside)] at gone
      cases gone
    have new : gap.created = [] := List.eq_nil_iff_forall_not_mem.2 fun k inside => by
      have came := cut.known_of_created member inside
      rw [known k (created k inside)] at came
      cases came
    simp [Gap.stirred, old, new]
  rw [slotPlan, List.filter_eq_nil_iff.2 fun gap member => by simp [quiet gap member], List.map_nil]

theorem slotPlan_of_scalar (partners : Partners t.read t.live a b)
    (kind : (t.read.node a).kind = .scalar) : t.slotPlan a b = [] := by
  refine (situated.inOrder_of_partners partners ?_).2
  rw [situated.soundRead.children_of_scalar (partners.holds_left situated.soundRead) kind,
    situated.soundLive.children_of_scalar (partners.holds_right situated.soundLive)
      (partners.kind_eq ▸ kind)]
  exact .nil

omit situated in
/-- Nodes that can all be shown are shown as their texts. -/
theorem eq_map_shown {ks : List Key} {texts : List String} (had : ks.mapM t.liveText = .ok texts) :
    texts = ks.map t.shown := by
  rw [← List.forall₂_eq_eq_eq, List.forall₂_map_right_iff]
  refine (Except.mapM_eq_ok.1 had).flip.imp fun text k shows => ?_
  change t.liveText k = .ok text at shows
  rw [shown, shows]
  rfl

/-- The splices of a chain of which what stayed is in order are those of its gaps, if all that came can
be shown. -/
theorem slotSplices_eq (slotted : t.read.Slotted a ∨ (t.read.node a).kind = .scalar)
    (partners : Partners t.read t.live a b) (inOrder : t.InOrder a b) :
    t.slotSplices a ((t.read.node a).edgeName .child) =
      ((t.slotGaps a b).filter Gap.stirred).mapM fun gap => do
        discard (gap.created.mapM t.liveText)
        return Draft.ofSplice (t.spliceOf a gap) := by
  have heldA := partners.holds_left situated.soundRead
  have heldB := partners.holds_right situated.soundLive
  have sameName := Node.edgeName_congr partners.kind_eq .child
  have oldChain := situated.soundRead.childrenAt_edgeName heldA
  have newChain := situated.soundLive.childrenAt_edgeName heldB
  rw [← sameName] at newChain
  -- There is a frame in any case, but only where there may be children it matters which.
  obtain ⟨frame, framed, stored⟩ : ∃ frame, t.read.frame t.config a
      ((t.read.node a).edgeName .child) = .ok frame ∧
        (t.read.Slotted a → frame = t.read.sampled a) := by
    rcases slotted with slotted | kind
    · exact ⟨_, by rw [Model.frame, slotted.stored], fun _ => rfl⟩
    · rw [Model.frame]
      cases stored : (t.read.node a).frames.get? ((t.read.node a).edgeName .child) with
      | some frame => exact ⟨frame, rfl, fun slotted => Option.some.inj (stored ▸ slotted.stored)⟩
      | none =>
        refine ⟨_, by rw [kind]; rfl, fun slotted => ?_⟩
        have found := slotted.stored
        rw [stored] at found
        cases found
  unfold slotSplices
  rw [situated.becameOf_of_partners partners]
  simp only [bind, Except.bind, oldChain, newChain, framed, Except.mapError]
  rw [if_neg (by simpa [InOrder] using inOrder)]
  change List.mapM _ ((t.slotGaps a b).filter Gap.stirred) = _
  refine Except.mapM_congr fun gap inside => ?_
  obtain ⟨member, _⟩ := List.mem_filter.1 inside
  obtain ⟨first, first', rest, rest', cut, same⟩ := situated.exists_cut partners inOrder
  rw [same] at member
  obtain ⟨before, after, deleted, created⟩ := cut.mem_children member
  rcases slotted with slotted | kind
  · obtain rfl := stored slotted
    simp only [Frame.givenSeparator, Model.Frame.given_plain slotted.fits.plain, Json.text?]
    cases had : gap.created.mapM t.liveText with
    | error e => rfl
    | ok texts =>
      obtain rfl := eq_map_shown had
      exact situated.gapSplice_eq heldA slotted
        (fun k inside => situated.holds_child heldA (before k inside))
        (fun k inside => situated.holds_child heldA (after k inside))
        fun k inside => situated.holds_child heldA (deleted k inside)
  · -- What has no slot has no gaps in it.
    have none_ := situated.slotPlan_of_scalar partners kind
    rw [slotPlan, List.map_eq_nil_iff] at none_
    rw [none_] at inside
    cases inside

end Situated

/-! ### Where the splices of a chain lie -/

/-- A splice lies beside a node, or the node is one of those that it takes away. -/
def Passes (t : PatchTask) (s : Splice) (gone : List Key) (x : Key) : Prop :=
  s.Beside (t.read.startOf x) (t.read.stopOf x) ∨
    x ∈ gone ∧ s.start ≤ t.read.startOf x ∧ t.read.stopOf x ≤ s.stop

/-- The splices behind the anchors of a chain lie between its siblings, and take away those that went. -/
theorem passes_of_mem_gapsBehind {source : List Char} {p q : Nat}
    {rest rest' : List (Key × List Key)} {gap : Gap}
    (lined : t.read.Lined source p (rest.flatMap fun run => run.1 :: run.2) q)
    (member : gap ∈ gapsBehind rest rest') :
    (p < (t.spliceOf a gap).start ∧ (t.spliceOf a gap).start ≤ (t.spliceOf a gap).stop ∧
      (t.spliceOf a gap).stop ≤ q) ∧ ∀ x ∈ rest.flatMap fun run => run.1 :: run.2,
        t.Passes (t.spliceOf a gap) gap.deleted x := by
  induction rest generalizing p rest' with
  | nil => cases member
  | cons run rest ih =>
    cases rest' with
    | nil => simp [gapsBehind, gapsOf] at member
    | cons run' rest' =>
      rw [List.flatMap_cons] at lined
      have whole := lined.between.2
      obtain ⟨start, some_, trails⟩ := lined
      obtain ⟨r, front, back⟩ := Model.trails_append.1 trails
      obtain ⟨r', order, back⟩ := back.lined
      have ahead := front.between
      have later := back.between
      rw [gapsBehind_cons] at member
      rcases List.mem_cons.1 member with rfl | member
      · -- The gap reaches from its anchor to where the last sibling that went ends.
        simp only [spliceOf, front.stopOf_getLast]
        refine ⟨by omega, fun x inside => ?_⟩
        unfold Passes Splice.Beside
        simp only
        rcases List.mem_append.1 (List.flatMap_cons ▸ inside) with here | there
        · rcases List.mem_cons.1 here with rfl | gone
          · omega
          · have := ahead.2 x gone
            exact .inr ⟨gone, by omega⟩
        · have := later.2 x there
          omega
      · -- The gap is behind a later anchor, and so behind all of this run.
        obtain ⟨bounds, passes⟩ := ih back member
        refine ⟨by omega, fun x inside => ?_⟩
        rcases List.mem_append.1 (List.flatMap_cons ▸ inside) with here | there
        · refine .inl (.inr ?_)
          rcases List.mem_cons.1 here with rfl | gone
          · omega
          · have := ahead.2 x gone
            omega
        · exact passes x there

/-- Where some of a chain stayed, its splices lie between its siblings, and take away those that went. -/
theorem Cut.passes {source : List Char} {p q : Nat} {first first' : List Key}
    {rest rest' : List (Key × List Key)} {gap : Gap} (cut : t.Cut a b first first' rest rest')
    (lined : t.read.Lined source p (t.read.children a) q) (anchored : rest ≠ [])
    (member : gap ∈ gapsOfCut first first' rest rest') :
    (p ≤ (t.spliceOf a gap).start ∧ (t.spliceOf a gap).start ≤ (t.spliceOf a gap).stop ∧
      (t.spliceOf a gap).stop ≤ q) ∧ ∀ x ∈ t.read.children a,
        t.Passes (t.spliceOf a gap) gap.deleted x := by
  rw [cut.old] at lined ⊢
  obtain ⟨r, r', front, order, back⟩ := Model.lined_append lined
  have ahead := front.between
  have later := back.between
  rcases List.mem_cons.1 member with rfl | member
  · obtain ⟨run, rest, rfl⟩ := List.exists_cons_of_ne_nil anchored
    rw [List.flatMap_cons] at back
    have start : t.read.startOf run.1 = r' := back.1
    -- The gap reaches from the first sibling that went to the first one that stayed.
    have begins : t.read.startOf ((first.head?).getD run.1) ≤ r' ∧
        p ≤ t.read.startOf ((first.head?).getD run.1) ∧
          ∀ x ∈ first, t.read.startOf ((first.head?).getD run.1) ≤ t.read.startOf x := by
      cases first with
      | nil => exact ⟨Nat.le_of_eq start, by rw [List.head?_nil, Option.getD_none]; omega, by simp⟩
      | cons x xs =>
        rw [List.head?_cons, Option.getD_some]
        have := ahead.2 x List.mem_cons_self
        refine ⟨by omega, by omega, fun y inside => ?_⟩
        have := ahead.2 y inside
        have : t.read.startOf x = p := front.1
        omega
    simp only [spliceOf, List.map_cons, List.head?_cons, start]
    refine ⟨by omega, fun x inside => ?_⟩
    unfold Passes Splice.Beside
    simp only
    rcases List.mem_append.1 inside with gone | there
    · have := ahead.2 x gone
      have := begins.2.2 x gone
      exact .inr ⟨gone, by omega⟩
    · have := later.2 x there
      omega
  · obtain ⟨bounds, passes⟩ := passes_of_mem_gapsBehind (a := a) back member
    refine ⟨by omega, fun x inside => ?_⟩
    rcases List.mem_append.1 inside with gone | there
    · have := ahead.2 x gone
      exact .inl (.inr (by omega))
    · exact passes x there

/-- Where a chain of one stayed, nothing went or came. -/
theorem Cut.quiet {first first' : List Key} {rest rest' : List (Key × List Key)} {gap : Gap}
    (cut : t.Cut a b first first' rest rest') (anchored : rest ≠ [])
    (single : (t.read.children a).length ≤ 1) (single' : (t.live.children b).length ≤ 1)
    (member : gap ∈ gapsOfCut first first' rest rest') : gap.stirred = false := by
  obtain ⟨old, new, partners, _, _, _, _⟩ := cut
  cases partners with
  | nil => exact absurd rfl anchored
  | @cons run run' rest rest' _ others =>
    rw [old, List.flatMap_cons] at single
    rw [new, List.flatMap_cons] at single'
    simp only [List.length_append, List.length_cons] at single single'
    have none_ : ∀ xs : List Key, xs.length = 0 → xs = [] := fun _ => List.length_eq_zero_iff.1
    -- The one child is the sibling that stayed, so no other went or came.
    have ends : rest = [] := by
      cases rest with
      | nil => rfl
      | cons run rest =>
        rw [List.flatMap_cons, List.length_append, List.length_cons] at single
        omega
    subst ends
    rw [List.forall₂_nil_left_iff.1 others, gapsOfCut, gapsBehind_cons] at member
    rcases List.mem_cons.1 member with rfl | later
    · rw [Gap.stirred, none_ first (by omega), none_ first' (by omega)]
      rfl
    · obtain rfl := List.mem_singleton.1 later
      rw [Gap.stirred, none_ run.2 (by omega), none_ run'.2 (by omega)]
      rfl

/-- A splice of a slot takes up a stretch of its node, or puts something inside of it, unless a pair has
come to more than one child; and all that stayed in the slot lies beside it. -/
structure Fitting (t : PatchTask) (a b : Key) (s : Splice) : Prop where
  ordered : s.start ≤ s.stop
  lower : t.read.startOf a ≤ s.start
  upper : s.stop ≤ t.read.stopOf a
  touches : ((t.live.node b).kind = .pair → (t.live.children b).length ≤ 1) →
    s.start < s.stop ∨ t.read.startOf a < s.start ∧ s.stop < t.read.stopOf a
  spares : ∀ x ∈ t.read.children a, s.Spares (t.read.startOf x) (t.read.stopOf x)
  beside : ∀ x ∈ t.read.children a, t.stayed x = true →
    s.Beside (t.read.startOf x) (t.read.stopOf x)

/-- The splices of a node's slot lie inside of the node, and take up only whole children. -/
theorem Situated.fitting_of_mem_slotPlan (situated : t.Situated) {s : Splice}
    (partners : Partners t.read t.live a b) (inOrder : t.InOrder a b) (member : s ∈ t.slotPlan a b) :
    t.Fitting a b s := by
  have heldA := partners.holds_left situated.soundRead
  have notScalar : (t.read.node a).kind ≠ .scalar := by
    intro kind
    rw [situated.slotPlan_of_scalar partners kind] at member
    cases member
  obtain ⟨p, q, slotted, lined, start, opening, closing, some_⟩ :=
    (situated.seated heldA).exists_rowed notScalar
  have solid := slotted.emptyOpening_pos
  have shorter := (Model.emptyOpening_prefix (t.read.sampled a)).length_le
  rw [String.length_toList, String.length_toList] at shorter
  have between := lined.between
  obtain ⟨gap, inside, rfl⟩ := List.mem_map.1 member
  obtain ⟨inside, stirred⟩ := List.mem_filter.1 inside
  obtain ⟨first, first', rest, rest', cut, same⟩ := situated.exists_cut partners inOrder
  rw [same] at inside
  by_cases anchored : rest = []
  · -- Without anchors all between the brackets is replaced.
    subst anchored
    have none_ := List.forall₂_nil_left_iff.1 cut.partners
    subst none_
    obtain rfl : gap = ⟨none, none, first, first'⟩ := by
      rcases List.mem_cons.1 inside with is | later
      · exact is
      · cases later
    have opens : ∀ text : String, text = (if first'.isEmpty then (t.read.sampled a).emptyOpening
        else (t.read.sampled a).opening) → 0 < text.length ∧
          text.length ≤ (t.read.sampled a).opening.length := by
      rintro text rfl
      cases first' with
      | nil => exact ⟨solid, shorter⟩
      | cons k first' => exact ⟨solid.trans_le shorter, Nat.le_refl _⟩
    obtain ⟨pos, le⟩ := opens _ rfl
    have old : t.read.children a = first := by simpa using cut.old
    simp only [spliceOf]
    generalize (if first'.isEmpty then (t.read.sampled a).emptyOpening
      else (t.read.sampled a).opening).length = length at pos le
    refine ⟨by simp only; omega, by simp only; omega, by simp only; omega, fun _ => by simp only; omega,
      fun x child => ?_, fun x child stays => ?_⟩
    · have := between.2 x child
      unfold Splice.Spares
      simp only
      omega
    · rw [cut.gone x (old ▸ child)] at stays
      cases stays
  · obtain ⟨bounds, passes⟩ := cut.passes lined anchored inside
    refine ⟨by omega, by omega, by omega, fun single' => ?_, fun x child => ?_, fun x child stays => ?_⟩
    · -- In a pair with an anchor there is no room for anything that went or came.
      have notPair : (t.read.node a).kind ≠ .pair := by
        intro kind
        have single := (situated.seated heldA).length_children_of_pair kind
        rw [cut.quiet anchored single (single' (partners.kind_eq ▸ kind)) inside] at stirred
        cases stirred
      -- Where the splice reaches to the end of the row, a bracket still stands behind it.
      have bracket := slotted.closing_pos notPair
      omega
    · rcases passes x child with beside | ⟨_, whole⟩
      · exact beside.spares
      · exact .inr (.inr whole)
    · rcases passes x child with beside | ⟨gone, _⟩
      · exact beside
      · rw [cut.stayed_of_deleted inside gone] at stays
        cases stays

/-- The splices of a node's slot lie inside of the node, and take up only whole children. -/
theorem Ready.inside_of_mem_slotPlan (ready : t.Ready) {s : Splice} (partners : Partners t.read t.live a b)
    (inOrder : t.InOrder a b) (member : s ∈ t.slotPlan a b) :
    s.Inside (t.read.startOf a) (t.read.stopOf a) ∧
      ∀ x ∈ t.read.children a, s.Spares (t.read.startOf x) (t.read.stopOf x) := by
  have fitting := ready.fitting_of_mem_slotPlan partners inOrder member
  have filled := ready.furnished.filled (partners.holds_right ready.soundLive)
  exact ⟨⟨fitting.ordered, fitting.lower, fitting.upper,
    fitting.touches filled.length_children_of_pair⟩, fitting.spares⟩

end PatchTask

end DocSync
