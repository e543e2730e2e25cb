import DocSync.Proofs.Patch.Patched
import DocSync.Proofs.Render.Respelled

/-!
A patched text is the edited model as it is shown, character by character, where the text was read with one
separator in each chain and the edits left the frames alone. What splices keep of the text is then what the
frames show in its place, and where the model is shown as a whole there is nothing to compare.
-/

namespace DocSync

variable {m live : Model} {source : List Char} {fingerprint text : String} {file : Json} {supply count : Nat}
  {tree : ParseTree} {k x r rb : Key}

/-! ### What is read from a text with even gaps -/

/-- What lies between two neighbours is one of the gaps. -/
theorem mem_gapsBetween {spans : List Location} {s s' : Location} (adjacent : [s, s'] <:+: spans) :
    Text.slice source s.stop s'.start ∈ gapsBetween source spans := by
  -- The induction is on what stands before the two.
  obtain ⟨before, after, rfl⟩ := adjacent
  induction before with
  | nil => exact List.mem_cons_self
  | cons first before ih =>
    cases before <;> exact List.mem_cons_of_mem _ ih

/-- Where all gaps are even, each is the separator that is sampled for the frame. -/
theorem separator_ofContainer {span s s' : Location} {spans : List Location}
    (even : (gapsBetween source spans).Pairwise (· = ·)) (adjacent : [s, s'] <:+: spans) :
    (Frame.ofContainer source span spans).separator.toList = Text.slice source s.stop s'.start := by
  -- The separator is sampled from the first gap, which all gaps are like.
  have member : Text.slice source s.stop s'.start ∈ gapsBetween source spans := mem_gapsBetween adjacent
  cases spans with
  | nil => cases member
  | cons first rest =>
    cases rest with
    | nil => cases member
    | cons second rest =>
      rw [gapsBetween, List.pairwise_cons] at even
      rw [gapsBetween, List.mem_cons] at member
      simp only [Frame.ofContainer, String.toList_ofList]
      rcases member with same | later
      · exact same.symm
      · exact even.1 _ later

/-- Without an indent the opening of an empty slot is the opening. -/
theorem emptyOpening_of_flat {frame : Frame} (flat : frame.indent = "") :
    frame.emptyOpening = frame.opening := by
  simp [Frame.emptyOpening, flat]

namespace ParseTree

theorem Regular.nested (regular : tree.Regular) : ∀ child ∈ tree.nested, child.Regular := by
  cases regular with
  | token t => exact List.forall_mem_nil _
  | object span each => exact each
  | array span each => exact each
  | @pair key value span inner =>
    cases value with
    | token t => exact List.forall_mem_nil _
    | rule r children span => exact List.forall_mem_singleton.2 inner

theorem Evenly.nested (regular : tree.Regular) (even : tree.Evenly source) :
    ∀ child ∈ tree.nested, child.Evenly source := by
  cases even with
  | token t => exact List.forall_mem_nil _
  | rule _ each =>
    cases regular with
    | object => exact each
    | array => exact each
    | @pair key value span inner =>
      cases value with
      | token t => exact List.forall_mem_nil _
      | rule r children span => exact List.forall_mem_singleton.2 (each _ (by simp))

/-- A tree that becomes a container is an object or an array. -/
theorem Regular.exists_container {isObject : Bool} (regular : tree.Regular)
    (kind : (Build.makeup source fingerprint tree).1 = kindOf isObject) :
    ∃ children span, tree = .rule (ruleOf isObject) children span := by
  cases isObject <;> cases regular <;> first | exact ⟨_, _, rfl⟩ | cases kind

end ParseTree

namespace Model

/-- A node was read where the gaps between its children are even: whatever stands between two of them is the
separator of the frame, and the opening of an empty one is shown as it is. -/
structure Even (m : Model) (source : List Char) (k : Key) : Prop where
  separator : ∀ gap, m.StandsBetween source (m.children k) gap → gap = (m.sampled k).separator.toList
  opening : m.children k = [] → (m.sampled k).emptyOpening = (m.sampled k).opening

/-- A node was made for a tree that is spaced evenly. -/
def MadeEvenly (m : Model) (source : List Char) (fingerprint : String) (k : Key) : Prop :=
  m.Holds k ∧ ∃ tree : ParseTree, tree.Regular ∧ tree.Evenly source ∧
    (m.tree k).map m.madeOf = tree.blueprint source fingerprint

theorem MadeEvenly.child {c : Key} (made : m.MadeEvenly source fingerprint k) (linked : m.Linked)
    (child : c ∈ m.children k) : m.MadeEvenly source fingerprint c := by
  obtain ⟨held, tree, regular, even, same⟩ := made
  obtain ⟨tree', inside, heldC, same'⟩ := (exists_children linked held regular same).2.exists_of_mem child
  exact ⟨heldC, tree', regular.nested tree' inside, even.nested regular tree' inside, same'⟩

/-- What hangs on a node was made for trees that are spaced evenly if the node was. -/
theorem Seated.madeEvenly (seated : m.Seated source fingerprint k) (linked : m.Linked)
    (made : m.MadeEvenly source fingerprint k) (member : x ∈ m.subtree k) :
    m.MadeEvenly source fingerprint x := by
  -- The induction is on where the node stands, and its children were made for trees in its own.
  revert made member
  refine seated.descend (motive := fun k => m.MadeEvenly source fingerprint k → x ∈ m.subtree k →
    m.MadeEvenly source fingerprint x) fun k _ below made member => ?_
  rcases (linked.mem_subtree_iff made.1).1 member with rfl | ⟨c, child, inside⟩
  · exact made
  · exact (below c child).2 (made.child linked child) inside

/-- A node was read from the span of the tree that it was made for. -/
theorem span_of_madeOf (regular : tree.Regular) (made : m.madeOf k = Build.makeup source fingerprint tree)
    (placed : m.Placed fingerprint k) : tree.span.start = m.startOf k ∧ tree.span.stop = m.stopOf k := by
  -- Whatever is made for a tree has the tree's span.
  obtain ⟨_, _, origin, known, _, covers⟩ := placed
  have from_ : (m.node k).origin = (Build.makeup source fingerprint tree).2.origin :=
    congrArg (fun made => made.2.origin) made
  rw [known] at from_
  cases regular <;> (obtain rfl := Option.some.inj from_; exact ⟨covers.start, covers.stop⟩)

/-- A container that was made for an evenly spaced tree was read where gaps are even. -/
theorem even_of_madeEvenly {isObject : Bool} (linked : m.Linked)
    (seated : ∀ {k}, m.Holds k → m.Seated source fingerprint k)
    (made : m.MadeEvenly source fingerprint k) (kind : (m.node k).kind = kindOf isObject) :
    m.Even source k := by
  obtain ⟨held, tree, regular, even, same⟩ := made
  obtain ⟨made, below⟩ := exists_children linked held regular same
  obtain ⟨children, span, rfl⟩ := regular.exists_container ((congrArg Prod.fst made).symm.trans kind)
  have each := regular.nested
  rw [makeup_container] at made
  rw [nested_container] at below each
  obtain ⟨_, slot, stored⟩ := stored_of_madeOf made
  have sampled : m.sampled k = Frame.ofContainer source span (children.map ParseTree.span) := by
    rw [Model.sampled, slot, stored]
    rfl
  constructor
  · rintro gap ⟨x, y, adjacent, _, occurs, start⟩
    obtain ⟨left, right, beside, ⟨heldX, sameX⟩, heldY, sameY⟩ := below.exists_adjacent adjacent
    have regularX := each left (beside.subset (by simp))
    have regularY := each right (beside.subset (by simp))
    -- The two children were read from the spans of two neighbours in the tree.
    have stops := (span_of_madeOf regularX (exists_children linked heldX regularX sameX).1
      (seated heldX).placed).2
    have starts := (span_of_madeOf regularY (exists_children linked heldY regularY sameY).1
      (seated heldY).placed).1
    cases even with
    | rule gaps _ =>
      rw [sampled, separator_ofContainer gaps (beside.map ParseTree.span), stops, starts, start,
        occurs.slice]
  · intro childless
    rw [childless, List.forall₂_nil_left_iff] at below
    rw [sampled, below]
    exact emptyOpening_of_flat rfl

/-- A model that is shown as the text it was read from was read where gaps are even. -/
theorem even_of_render {config : Config} {isObject : Bool}
    (built : Model.build text file supply = .ok (m, count)) (rendered : m.render config = .ok text)
    (held : m.Holds k) (kind : (m.node k).kind = kindOf isObject) : m.Even text.toList k := by
  obtain ⟨r, readFrom⟩ := exists_readFrom built
  obtain ⟨tree, parsed, spelled⟩ := Build.spelled_of_build built
  obtain ⟨root, single, alone, below⟩ := spelled.single
  have sound := spelled.sound
  have top := sound.holds_root (r := root) (by simp [single])
  rw [sound.treesAt_some top, alone, treesAt_none, Tree.mapAll, Tree.mapAll] at below
  -- It is shown with the first gap for all gaps, which is the text just if the gaps are even.
  obtain ⟨respelled, even⟩ := render_of_spelled parsed spelled config
  have made : m.MadeEvenly text.toList (Digest.fingerprint text) root :=
    ⟨top, tree, Parser.regular_of_parse parsed, even.1 (Except.ok.inj (respelled.symm.trans rendered)),
      (List.cons.inj below).1⟩
  exact even_of_madeEvenly sound.toLinked readFrom.seated ((readFrom.seated top).madeEvenly sound.toLinked made
    ((sound.mem_subtree_root single alone).2 held)) kind

end Model

/-! ### What is put together is what is shown -/

/-- Nodes that the changes take for one another have the same frames. -/
def ChangeSet.KeepsFrames (changes : ChangeSet) (old new : Model) : Prop :=
  ∀ a b, old.Holds a → new.Holds b → ((new.node b).id, (old.node a).id) ∈ changes.idMap →
    (old.node a).frames = (new.node b).frames

namespace PatchTask

variable {t : PatchTask} {a b : Key} {frame : Frame} {out : List Char}

namespace Ready

variable (ready : t.Ready)
include ready

/-- A node is shown as what its children are shown as in its frame. -/
theorem shown_eq (held : t.live.Holds b)
    (framed : t.live.frame t.config b ((t.live.node b).edgeName .child) = .ok frame)
    (plain : frame.strays = []) (single : (t.live.node b).kind = .pair → frame.trailing = false) :
    t.shown b = (t.live.node b).textIn frame ((t.live.children b).map t.shown) := by
  -- All children are shown, and the node is shown with their texts in its frame.
  have below : List.Forall₂ (t.live.Renders t.config) (t.live.treesAt (t.live.node b).head)
      ((t.live.children b).map t.shown) := by
    rw [ready.soundLive.toLinked.treesAt_head held, List.forall₂_map_left_iff, List.forall₂_map_right_iff,
      List.forall₂_same]
    exact fun c child => (ready.renders_shown (ready.holds_child_live held child)).2
  have renders := (ready.furnished.filled held).renders framed plain single below
  have shown := (ready.renders_shown held).1
  rw [liveText, Model.renderSubtree_eq renders] at shown
  exact (Except.ok.inj shown).symm

variable (keeps : t.changes.KeepsFrames t.read t.live)
include keeps

/-- A node that stayed is shown in the frame that was sampled for it. -/
theorem shown_of_partners (partners : Partners t.read t.live a b) (notScalar : (t.read.node a).kind ≠ .scalar) :
    t.shown b = (t.live.node b).textIn (t.read.sampled a) ((t.live.children b).map t.shown) := by
  -- The node has the frame that was sampled where it was read.
  have heldA := partners.holds_left ready.soundRead
  have heldB := partners.holds_right ready.soundLive
  obtain ⟨_, _, slotted, _⟩ := (ready.seated heldA).exists_rowed notScalar
  have framed : t.live.frame t.config b ((t.live.node b).edgeName .child) = .ok (t.read.sampled a) := by
    rw [Model.frame, ← keeps a b heldA heldB (ready.tells.mem_idMap.2 ⟨a, b, partners, rfl, rfl⟩),
      ← Node.edgeName_congr partners.kind_eq .child, slotted.stored]
  exact ready.shown_eq heldB framed slotted.fits.plain fun _ => slotted.fits.untrailed

/-- What is put together for a node is what it is shown as, if the gaps in the text were even. -/
theorem eq_shown_of_retold (even : ∀ {k isObject}, t.read.Holds k → (t.read.node k).kind = kindOf isObject →
      t.read.Even t.text.toList k) (retold : t.Retold out b) : out = (t.shown b).toList := by
  -- What was a container is shown in the frame that was sampled for it, with its children in a row.
  have container : ∀ {a b isObject}, Partners t.read t.live a b → (t.read.node a).kind = kindOf isObject →
      t.shown b = (t.read.sampled a).around ((t.live.children b).map t.shown) := by
    intro a b isObject partners kind
    have kindB := partners.kind_eq ▸ kind
    rw [ready.shown_of_partners keeps partners (by rw [kind]; cases isObject <;> decide), Node.textIn, kindB]
    cases isObject <;> rfl
  -- A pair has a frame with a colon, and with nothing behind the value.
  have pair : ∀ {a b}, Partners t.read t.live a b → (t.read.node a).kind = .pair →
      t.shown b = ((t.live.node b).fields.get? keyField).getD "" ++ (t.read.sampled a).opening ++
        (((t.live.children b).map t.shown).head?.getD (((t.live.node b).fields.get? valueName).getD "")) := by
    intro a b partners kind
    have kindB := partners.kind_eq ▸ kind
    obtain ⟨_, closing⟩ := ready.sampled_pair (partners.holds_left ready.soundRead) kind
    rw [ready.shown_of_partners keeps partners (by rw [kind]; decide), Node.textIn, kindB]
    simp [closing]
  induction retold with
  | shown _ => rfl
  | @scalar a b value partners kind valued =>
    have heldB := partners.holds_right ready.soundLive
    have kindB := partners.kind_eq ▸ kind
    obtain ⟨frame, framed, plain, single⟩ :=
      ready.furnished.exists_plain_frame ready.soundLive ready.generates heldB
    rw [ready.shown_eq heldB framed plain single, Node.textIn, kindB, valued]
    rfl
  | @field a b key value partners kind childless keyed valued =>
    simp [pair partners kind, childless, keyed, valued]
  | @slot a b c key text partners kind children keyed _ ih =>
    simp [pair partners kind, children, keyed, ih]
  | @empty a b isObject opening partners kind childless opens =>
    have opening : opening = (t.read.sampled a).emptyOpening := by
      rcases opens with is | ⟨none_, is⟩
      · exact is
      · exact is.trans ((even (partners.holds_left ready.soundRead) kind).opening none_).symm
    rw [container partners kind, childless, opening, List.map_nil, Frame.around, String.toList_append]
  | @row a b isObject row stands partners kind _ rows ih =>
    have heldA := partners.holds_left ready.soundRead
    obtain ⟨_, _, slotted, _⟩ := (ready.seated heldA).exists_rowed (by rw [kind]; cases isObject <;> decide)
    -- The separators that were kept are those that are put in.
    have gaps : ∀ gap, t.Spaces a gap → gap = (t.read.sampled a).separator.toList := by
      rintro gap (is | between)
      · exact is
      · exact (even heldA kind).separator gap between
    have text := rows.eq_intercalate gaps ih
    have some_ : (t.live.children b).map t.shown ≠ [] := by
      rw [Ne, List.map_eq_nil_iff]
      intro none_
      rw [none_] at rows
      cases rows
    rw [container partners kind, Frame.around_of_untrailed slotted.fits.untrailed some_, text]
    simp

/-- A patch is had, spliced or shown as a whole, and its text is the live model as it is shown, if gaps were
even in the text and no frame has changed. -/
theorem exists_patch_eq_render (readFrom : t.read.ReadFrom t.text r)
    (even : ∀ {k isObject}, t.read.Holds k → (t.read.node k).kind = kindOf isObject →
      t.read.Even t.text.toList k) (single : t.live.roots = [rb]) (alone : (t.live.node rb).next = none)
    (plain : t.live.strays = []) (fallback : t.config.allowFullRender = true) :
    ∃ patch, t.patch = .ok patch ∧ t.live.render t.config = .ok patch.text := by
  -- Either way the texts around the document are those of the live model.
  have held := ready.soundLive.holds_root (r := rb) (by simp [single])
  have rendered := Model.render_eq ready.soundLive single alone plain (ready.renders_shown held).2
  rcases ready.patch_cases readFrom single plain fallback with ⟨patch, out, patched, retold, text⟩ | ⟨e, whole⟩
  · refine ⟨patch, patched, rendered.trans (congrArg Except.ok ?_)⟩
    rw [← String.toList_inj, text, ready.eq_shown_of_retold keeps even retold]
    simp
  · obtain ⟨patch, shown, same⟩ := exists_renderWhole e rendered
    exact ⟨patch, whole.trans shown, rendered.trans (congrArg Except.ok same.symm)⟩

end Ready

end PatchTask

/-- An edited text is the edited model as it is shown. A text is built that the model is shown as, the model
is edited until it stands for another document, and the two are reconciled; this fails only if the search for
a new label is given up, as long as the numbers of the lines have no more digits than a numeral may have. If
nodes that are taken for one another have the same frames, the text is patched, whether spliced or shown as a
whole, and comes to be the one that the edited model is shown as. -/
theorem build_patch_render {config settings : Config}
    (built : Model.build text file supply = .ok (m, count)) (rendered : m.render settings = .ok text)
    (sound : live.Sound) (furnished : live.Furnished) (single : live.roots = [rb])
    (alone : (live.node rb).next = none) (typed : live.strays = []) (plain : config.strays = [])
    (generates : settings.Generates) (fallback : settings.allowFullRender = true) (withModels : Bool) :
    (∀ e, reconcile config m live withModels = .error e →
      (∃ id limit, e = .collision id limit) ∨ 10 ^ Text.maxDigits ≤ labelRoom config m live) ∧
    ∀ changes, reconcile config m live withModels = .ok changes → changes.KeepsFrames m live →
      ∃ patch, PatchTask.patch ⟨settings, text, m, live, changes⟩ = .ok patch ∧
        live.render settings = .ok patch.text := by
  obtain ⟨r, readFrom⟩ := Model.exists_readFrom built
  constructor
  · exact fun e failed => collision_of_reconcile readFrom.sound sound plain failed
  · intro changes made keeps
    have ready : PatchTask.Ready ⟨settings, text, m, live, changes⟩ :=
      ⟨⟨⟨readFrom.sound, sound, tells_of_reconcile readFrom.sound sound made⟩, readFrom.seated⟩, furnished,
        generates⟩
    exact ready.exists_patch_eq_render keeps readFrom (Model.even_of_render built rendered) single alone typed
      fallback

theorem build_patch_render_nested : ∃ m count changes patch,
    Model.build "\x7b \x7d" .null 0 = .ok (m, count) ∧ m.render {} = .ok "\x7b \x7d" ∧
      reconcile {} m nestedSpace.model = .ok changes ∧ changes.KeepsFrames m nestedSpace.model ∧
      PatchTask.patch ⟨{}, "\x7b \x7d", m, nestedSpace.model, changes⟩ = .ok patch ∧
      nestedSpace.model.render {} = .ok patch.text ∧ patch.text = "\x7b \"k\": [10]\x7d" := by
  have sound : nestedSpace.model.Sound := ((reachable_readIn "\x7b \x7d" 0).afterCalls _).sound
  have shaped := documentShaped_nestedSpace
  have ready : (Model.build "\x7b \x7d" .null 0).toOption.isSome = true ∧
      (reconcile {} (readIn "\x7b \x7d" 0).model nestedSpace.model).toOption.isSome = true ∧
      (readIn "\x7b \x7d" 0).model.render {} = .ok "\x7b \x7d" ∧
      (∀ a < 1, ∀ b < 4, ((nestedSpace.model.node b).id, ((readIn "\x7b \x7d" 0).model.node a).id) ∈
        (taskTo "\x7b \x7d" nestedSpace.model).changes.idMap →
          ((readIn "\x7b \x7d" 0).model.node a).frames = (nestedSpace.model.node b).frames) ∧
      (readIn "\x7b \x7d" 0).model.nodes.size = 1 ∧ nestedSpace.model.nodes.size = 4 ∧
      nestedSpace.model.render {} = .ok "\x7b \"k\": [10]\x7d" := by
    decide +kernel
  obtain ⟨parses, alike, rendered, framed, size, size', shows⟩ := ready
  obtain ⟨changes, made⟩ := Except.exists_ok alike
  have keeps : changes.KeepsFrames (readIn "\x7b \x7d" 0).model nestedSpace.model := by
    rw [taskTo, made] at framed
    exact fun a b held held' => framed a (size ▸ held.1) b (size' ▸ held'.1)
  obtain ⟨patch, patched, shown⟩ := (build_patch_render (build_eq_readIn parses) rendered sound
    shaped.toFurnished shaped.single shaped.alone shaped.plain rfl (Config.generates_of_plain rfl) rfl
    true).2 changes made keeps
  exact ⟨_, _, changes, patch, build_eq_readIn parses, rendered, made, keeps, patched, shown,
    Except.ok.inj (shown.symm.trans shows)⟩

end DocSync
