import DocSync.Proofs.Patch.Planned
import DocSync.Proofs.Patch.Rewritten
import DocSync.Proofs.Patch.TopLevel
import DocSync.Proofs.Snapshot.Collision

/-!
The text that comes of a patch. The splices that count are those beside the document and those of its
one top-level node, so the patched text says what the live model is; where no plan is had the live
model is shown as a whole, and that says so, too.
-/

namespace DocSync

open Lexer (Blanks Lexeme)

variable {m : Model} {text : String} {file : Json} {supply count : Nat} {r k : Key}

/-! ### The model of a text -/

/-- A model that was read from a text: its one top-level node, which is no pair, stands between the texts
around it, and every node stands in the text. -/
structure Model.ReadFrom (m : Model) (text : String) (r : Key) : Prop where
  sound : m.Sound
  single : m.roots = [r]
  alone : (m.node r).next = none
  notPair : (m.node r).kind ≠ .pair
  plain : m.strays = []
  start : m.startOf r = m.leading.toList.length
  stop : m.stopOf r + m.trailing.toList.length = text.toList.length
  leading : Occurs text.toList 0 m.leading.toList
  trailing : Occurs text.toList (m.stopOf r) m.trailing.toList
  seated : ∀ {k}, m.Holds k → m.Seated text.toList (Digest.fingerprint text) k

namespace Model

/-- In a model with one top-level node that has no sibling what hangs on this node is the document. -/
theorem Sound.order_eq_subtree (sound : m.Sound) (single : m.roots = [r])
    (alone : (m.node r).next = none) : m.order = m.subtree r := by
  have held : m.Holds r := sound.holds_root (by simp [single])
  rw [order, single, List.flatMap_singleton, subtreeAndNext, chainTrees_eq, sound.treesAt_some held,
    alone, treesAt_none, Tree.preorderAll_cons, Tree.preorderAll_nil, List.append_nil]
  rfl

theorem Sound.mem_subtree_root (sound : m.Sound) (single : m.roots = [r])
    (alone : (m.node r).next = none) : k ∈ m.subtree r ↔ m.Holds k := by
  rw [← sound.order_eq_subtree single alone]
  exact sound.mem_order

/-- The one node at top level comes first. -/
theorem Sound.canonicalOrder_zero (sound : m.Sound) (single : m.roots = [r]) :
    m.canonicalOrder[0]? = some r := by
  rw [canonicalOrder_single single, sound.treesAt_some (sound.holds_root (by simp [single])), tree_eq,
    Tree.preorderAll_cons, Tree.preorder_node]
  rfl

/-- A node is a pair just when the tree that it was made for is one. -/
theorem isPair_iff_of_madeOf {source : List Char} {fingerprint : String} {tree : ParseTree}
    (regular : tree.Regular)
    (made : m.madeOf k = Build.makeup source fingerprint tree) :
    (m.node k).kind = .pair ↔ tree.isPair = true := by
  have kind : (m.node k).kind = (Build.makeup source fingerprint tree).1 := congrArg Prod.fst made
  rw [kind]
  cases regular <;> simp [Build.makeup, Build.scalarMakeup, Build.containerMakeup, Build.pairMakeup,
    ParseTree.isPair]

/-- A model that is built from a text is read from it. -/
theorem exists_readFrom (built : Model.build text file supply = .ok (m, count)) :
    ∃ r, m.ReadFrom text r := by
  obtain ⟨tree, parsed, spelled⟩ := Build.spelled_of_build built
  obtain ⟨r, single, alone, below⟩ := spelled.single
  -- Where the parser laid the tree out is where the nodes of the model stand.
  obtain ⟨leading, body, trailing, split, _, _, laid, notPair⟩ := Parser.laid_of_parse parsed
  obtain ⟨start, stop⟩ := laid.span
  obtain ⟨before, after⟩ := outside_eq split start stop
  have sound := spelled.sound
  have held : m.Holds r := sound.holds_root (by simp [single])
  rw [sound.treesAt_some held, alone, treesAt_none, Tree.mapAll, Tree.mapAll] at below
  obtain ⟨seated, first, last⟩ := seatedAt_of_laid sound.toLinked laid held (List.cons.inj below).1
    ⟨leading, trailing, split, rfl⟩
  have leads : m.leading.toList = leading := by rw [spelled.leading, before, String.toList_ofList]
  have trails : m.trailing.toList = trailing := by rw [spelled.trailing, after, String.toList_ofList]
  refine ⟨r, sound, single, alone, fun isPair => ?_, spelled.plain, by rw [first, leads], ?_, ?_, ?_,
    fun known => ?_⟩
  · have made := (exists_children sound.toLinked held laid.regular (List.cons.inj below).1).1
    rw [(isPair_iff_of_madeOf laid.regular made).1 isPair] at notPair
    cases notPair
  · rw [last, trails, split, List.length_append, List.length_append]
    omega
  · rw [leads, split]
    exact ⟨[], body ++ trailing, by simp, rfl⟩
  · rw [trails, split, last]
    exact ⟨leading ++ body, [], by simp, by simp⟩
  · exact (seated.within sound.toLinked ((sound.mem_subtree_root single alone).2 known)).1

end Model

namespace PatchTask

variable {t : PatchTask} {rb : Key} {kept : List Splice}

/-- The text beside the document is replaced where it differs. -/
theorem exists_carried_edge {source : List Char} {at_ : Nat} {read : String} (live : String)
    (occurs : Occurs source at_ read.toList) :
    Splice.Carried source at_ (at_ + read.toList.length)
      (edge read live at_ (at_ + read.toList.length : Nat)) live.toList := by
  unfold edge
  split
  · next same =>
    subst same
    exact .keep occurs
  · exact .replace (Nat.le_add_right _ _) occurs.le live

namespace Ready

variable (ready : t.Ready) (readFrom : t.read.ReadFrom t.text r)
include ready readFrom

/-- The one node at top level became the one at top level of the live model. -/
theorem partners_root (single : t.live.roots = [rb])
    (stayed : ∀ {a}, t.read.Holds a → (t.read.node a).owner = none →
      ∃ b, Partners t.read t.live a b)
    (known : ∀ {b}, t.live.Holds b → (t.live.node b).owner = none →
      ∃ a, Partners t.read t.live a b) : Partners t.read t.live r rb := by
  have soundRead := ready.soundRead
  have soundLive := ready.soundLive
  have rootR : r ∈ t.read.roots := by simp [readFrom.single]
  have rootB : rb ∈ t.live.roots := by simp [single]
  have heldR := soundRead.holds_root rootR
  obtain ⟨b, partners⟩ := stayed heldR (soundRead.owner_root rootR)
  obtain ⟨a, partners'⟩ := known (soundLive.holds_root rootB) (soundLive.owner_root rootB)
  cases ready.seated heldR with
  | scalar _ _ _ _ childless =>
    -- A scalar at top level is all that was read.
    have below := (soundRead.mem_subtree_root readFrom.single readFrom.alone).2
      (partners'.holds_left soundRead)
    rcases (soundRead.toLinked.mem_subtree_iff heldR).1 below with rfl | ⟨c, child, _⟩
    · exact partners'
    · rw [childless] at child
      cases child
  | pair _ kind => exact absurd kind readFrom.notPair
  | @container _ isObject _ _ _ kind fields =>
    -- Objects and arrays show nothing but their kind, and pairs of equal nodes are not crossed.
    have fields' : (t.live.node b).fields = .empty := by
      have filled := ready.furnished.filled (partners.holds_right soundLive)
      unfold Model.Filled at filled
      rw [← partners.kind_eq, kind] at filled
      cases isObject <;> exact filled.1
    have same : t.read.contentOf r = t.live.contentOf b := by
      rw [Model.contentOf, Model.contentOf, partners.kind_eq, fields, fields']
    obtain ⟨i, j, paired, atI, atJ⟩ := partners
    obtain ⟨i', j', paired', atI', atJ'⟩ := partners'
    obtain rfl := getElem?_unique soundRead.nodup_canonicalOrder atI
      (soundRead.canonicalOrder_zero readFrom.single)
    obtain rfl := getElem?_unique soundLive.nodup_canonicalOrder atJ'
      (soundLive.canonicalOrder_zero single)
    have order := (pairing_contentPairs t.read t.live).order paired paired'
      (by rw [List.getElem?_map, atI]; rfl) (by rw [List.getElem?_map, atJ, same]; rfl)
    obtain rfl : i' = 0 := by omega
    exact ⟨0, 0, paired', atI, atJ'⟩

/-- The text beside the document lies in no node. -/
theorem outside_of_mem_edges {s : Splice} (member : s ∈ t.leadingEdge ++ t.trailingEdge) :
    t.Outside s := by
  intro z b span partners _ start stop
  have linked := ready.soundRead.toLinked
  have held := partners.holds_left ready.soundRead
  have root := ready.soundRead.holds_root (r := r) (by simp [readFrom.single])
  have some_ := (ready.seated held).placed.some_
  obtain ⟨_, lower, upper, _⟩ := (readFrom.seated root).within linked
    ((ready.soundRead.mem_subtree_root readFrom.single readFrom.alone).2 held)
  have first := readFrom.start
  have last := readFrom.stop
  rw [String.length_toList] at first last
  rw [String.length_toList] at last
  -- The edges are what lies before the document and behind it, and each node lies within.
  have beside : s.Spares (t.read.startOf z) (t.read.stopOf z) := by
    unfold Splice.Spares
    rcases List.mem_append.1 member with leading | trailing
    · obtain rfl := eq_of_mem_edge leading
      simp only
      omega
    · obtain rfl := eq_of_mem_edge trailing
      simp only
      omega
  exact beside.not_coveredBy (ordered_of_mem_edges member) some_ start stop

/-- The text with the splices of a plan carried out is put together for the live model. -/
theorem exists_retold_of_settled (settled : t.Settled (t.leadingEdge ++ t.trailingEdge) kept)
    (partners : Partners t.read t.live r rb) : ∃ out, t.Retold out rb ∧
      (Splice.applyAll t.text kept).toList =
        t.live.leading.toList ++ (out ++ t.live.trailing.toList) := by
  have held := partners.holds_left ready.soundRead
  have all : ∀ {k}, t.read.Holds k → k ∈ t.read.subtree r :=
    fun known => (ready.soundRead.mem_subtree_root readFrom.single readFrom.alone).2 known
  have clear : t.Clear r := fun partners _ => .inl (all (partners.holds_left ready.soundRead))
  have some_ := (ready.seated held).placed.some_
  obtain ⟨E, out, part, retold⟩ := ready.rewritten settled (ready.seated held) partners clear
  have inside := ready.inside_of_part settled held part
  -- All of the text is what stands before the document, the document, and what stands behind it.
  have front := exists_carried_edge t.live.leading readFrom.leading
  have back := exists_carried_edge t.live.trailing readFrom.trailing
  rw [Nat.zero_add, ← readFrom.start] at front
  rw [readFrom.stop] at back
  have isLeading : edge t.read.leading t.live.leading (0 : Nat) (t.read.startOf r) = t.leadingEdge := by
    rw [leadingEdge, readFrom.start, String.length_toList]
    rfl
  have isTrailing : edge t.read.trailing t.live.trailing (t.read.stopOf r) t.text.toList.length =
      t.trailingEdge := by
    have ends := readFrom.stop
    rw [String.length_toList, String.length_toList] at ends
    rw [trailingEdge, String.length_toList, show (t.read.stopOf r : Int) =
      t.text.length - t.read.trailing.length by omega]
  rw [isLeading] at front
  rw [isTrailing] at back
  have whole := (front.append part.carried (.inr fun s member => by
    obtain ⟨_, _, _, _⟩ := inside s member
    omega)).append back (.inl fun s member => by
      rcases List.mem_append.1 member with early | late
      · have := front.inside s early
        omega
      · obtain ⟨_, _, _, _⟩ := inside s late
        omega)
  -- What counts is what is carried out.
  have same : kept = t.leadingEdge ++ E ++ t.trailingEdge := by
    refine Splice.eq_of_mem_iff settled.ordered whole.ordered fun s => ?_
    rw [List.mem_append, List.mem_append, part.mem_iff]
    constructor
    · intro known
      rcases ((settled.mem_iff s).1 known).1 with beside | ⟨a, asks⟩
      · exact (List.mem_append.1 beside).imp .inl id
      · refine .inl (.inr ⟨known, .inr ⟨r, List.mem_singleton_self r, a, all ?_, asks⟩⟩)
        obtain ⟨b, one, _⟩ := asks
        exact one.holds_left ready.soundRead
    · rintro ((first | ⟨known, _⟩) | last)
      · exact (settled.mem_iff s).2 ⟨.inl (List.mem_append_left _ first),
          ready.outside_of_mem_edges readFrom (List.mem_append_left _ first)⟩
      · exact known
      · exact (settled.mem_iff s).2 ⟨.inl (List.mem_append_right _ last),
          ready.outside_of_mem_edges readFrom (List.mem_append_right _ last)⟩
  exact ⟨out, retold, by rw [same, whole.applyAll, String.toList_ofList, List.append_assoc]⟩

/-- A patch is had: one whose text is put together for the live model, or else that of the model shown as a
whole. -/
theorem patch_cases (single : t.live.roots = [rb]) (plain : t.live.strays = [])
    (fallback : t.config.allowFullRender = true) :
    (∃ patch out, t.patch = .ok patch ∧ t.Retold out rb ∧
      patch.text.toList = t.live.leading.toList ++ (out ++ t.live.trailing.toList)) ∨
    ∃ e, t.patch = t.renderWhole e := by
  have meets := ready.meets_plan readFrom.plain plain
  cases planned : t.plan with
  | ok plan =>
    rw [planned] at meets
    obtain ⟨⟨stayed, known⟩, settled⟩ := meets
    obtain ⟨out, retold, patched⟩ := ready.exists_retold_of_settled readFrom settled
      (ready.partners_root readFrom single stayed known)
    exact .inl ⟨_, out, by rw [patch, planned], retold, patched⟩
  | error e =>
    -- What no plan is had for is shown as a whole.
    rw [planned] at meets
    exact .inr ⟨e, patch_of_yields fallback planned meets⟩

omit ready readFrom in
/-- Shown as a whole, the live model is the text of the patch. -/
theorem exists_renderWhole (e : Error) {out : String} (rendered : t.live.render t.config = .ok out) :
    ∃ patch, t.renderWhole e = .ok patch ∧ patch.text = out := by
  rw [renderWhole, rendered]
  exact ⟨_, rfl, rfl⟩

/-- A patch is had, spliced or shown as a whole, and its text says what the live model is. -/
theorem exists_patch (blank : t.config.Blank) (shaped : t.live.DocumentShaped rb)
    (notPair : (t.live.node rb).kind ≠ .pair) (fallback : t.config.allowFullRender = true) :
    ∃ patch shape, t.patch = .ok patch ∧ ReadAs anyhow patch.text shape ∧
      t.live.shapesAt (some rb) = [shape] := by
  have soundLive := ready.soundLive
  have held := soundLive.holds_root (r := rb) (by simp [shaped.single])
  -- Spliced or shown as a whole, the text says what the edited document says.
  rcases ready.patch_cases readFrom shaped.single shaped.plain fallback with
    ⟨patch, out, patched, retold, text⟩ | ⟨e, whole⟩
  · obtain ⟨before, body, after, rfl, blanks, blanks', reads⟩ := ready.readsWithin_of_retold blank retold
    refine ⟨patch, t.live.shapeOf rb, patched, ⟨⟨t.live.leading.toList ++ before, body,
      after ++ t.live.trailing.toList, text.trans (by simp), blanks_append shaped.leading blanks,
      blanks_append blanks' shaped.trailing, reads⟩, ?_⟩, ?_⟩
    · rw [soundLive.shapeOf_eq held]
      exact beq_false_of_ne notPair
    · rw [soundLive.shapesAt_some held, shaped.alone, Model.shapesAt_none, soundLive.shapesAt_head held,
        soundLive.shapeOf_eq held]
  · obtain ⟨out, shape, rendered, readAs, shapes⟩ := shaped.exists_render soundLive blank notPair
    obtain ⟨patch, shown, rfl⟩ := exists_renderWhole e rendered
    exact ⟨patch, shape, whole.trans shown, readAs, shapes⟩

end Ready

end PatchTask

/-- An edited text says what the edited model is. A text is built, its model is edited until it
stands for another document, without a pair at top level, and the two are reconciled; this fails only
if the search for a new label is given up, as long as the numbers of the lines have no more digits
than a numeral may have. Then the text is patched, whether spliced or shown as a whole, and what is
read from the patched text has the snapshot of the edited model. -/
theorem build_patch_snapshot {config settings : Config} {live : Model} {rb : Key}
    (built : Model.build text file supply = .ok (m, count)) (sound : live.Sound)
    (shaped : live.DocumentShaped rb) (notPair : (live.node rb).kind ≠ .pair)
    (plain : config.strays = []) (blank : settings.Blank)
    (fallback : settings.allowFullRender = true) (withModels : Bool) :
    (∀ e, reconcile config m live withModels = .error e →
      (∃ id limit, e = .collision id limit) ∨ 10 ^ Text.maxDigits ≤ labelRoom config m live) ∧
    ∀ changes, reconcile config m live withModels = .ok changes →
      ∃ patch, PatchTask.patch ⟨settings, text, m, live, changes⟩ = .ok patch ∧
        ∀ file' supply', ∃ tree m' count', Parser.parse patch.text file' = .ok tree ∧
          Model.build patch.text file' supply' = .ok (m', count') ∧
            ∀ indent, m'.snapshot.text indent = live.snapshot.text indent := by
  obtain ⟨r, readFrom⟩ := Model.exists_readFrom built
  constructor
  · exact fun e failed => collision_of_reconcile readFrom.sound sound plain failed
  · intro changes made
    have ready : PatchTask.Ready ⟨settings, text, m, live, changes⟩ :=
      ⟨⟨⟨readFrom.sound, sound, tells_of_reconcile readFrom.sound sound made⟩, readFrom.seated⟩,
        shaped.toFurnished, blank.generates⟩
    obtain ⟨patch, shape, patched, readAs, shapes⟩ :=
      ready.exists_patch readFrom blank shaped notPair fallback
    refine ⟨patch, patched, fun file' supply' => ?_⟩
    obtain ⟨tree, parsed, _⟩ := readAs.parse file'
    obtain ⟨m', count', rebuilt, same⟩ := readAs.build sound shaped.single shapes file' supply'
    exact ⟨tree, m', count', parsed, rebuilt, same⟩

/-- Carrying an edited model over to the text that another was read from, under the default settings. -/
def taskTo (text : String) (live : Model) : PatchTask where
  config := {}
  text := text
  read := (readIn text 0).model
  live := live
  changes := (reconcile {} (readIn text 0).model live).toOption.getD {}

theorem build_patch_snapshot_nested : ∃ m count changes patch,
    Model.build "\x7b \x7d" .null 0 = .ok (m, count) ∧
      reconcile {} m nestedSpace.model = .ok changes ∧
      PatchTask.patch ⟨{}, "\x7b \x7d", m, nestedSpace.model, changes⟩ = .ok patch ∧
      patch.text = "\x7b \"k\": [10]\x7d" ∧ patch.fullRender = false ∧
      ∃ m' count', Model.build patch.text .null 0 = .ok (m', count') ∧
        m'.snapshot.text none = nestedSpace.model.snapshot.text none := by
  have sound : nestedSpace.model.Sound := ((reachable_readIn "\x7b \x7d" 0).afterCalls _).sound
  have ready : (Model.build "\x7b \x7d" .null 0).toOption.isSome = true ∧
      (reconcile {} (readIn "\x7b \x7d" 0).model nestedSpace.model).toOption.isSome = true ∧
      ((taskTo "\x7b \x7d" nestedSpace.model).patch).toOption.map (fun patch =>
        (patch.text, patch.fullRender)) = some ("\x7b \"k\": [10]\x7d", false) := by
    decide +kernel
  obtain ⟨parses, alike, shows⟩ := ready
  obtain ⟨changes, made⟩ := Except.exists_ok alike
  have built := build_eq_readIn parses
  obtain ⟨patch, patched, rebuilt⟩ := (build_patch_snapshot built sound documentShaped_nestedSpace
    (by decide +kernel) rfl blank_default rfl true).2 changes made
  rw [taskTo, made] at shows
  simp only [Except.toOption, Option.getD_some] at shows
  rw [patched] at shows
  obtain ⟨text, spliced⟩ := Prod.mk.inj (Option.some.inj shows)
  obtain ⟨tree, m', count', _, again, same⟩ := rebuilt .null 0
  exact ⟨_, _, changes, patch, built, made, patched, text, spliced, m', count', again, same none⟩

/-- An edited model with a pair at top level is carried over to a text that is not parsed. -/
theorem not_build_patch_snapshot : ¬ ∀ (text : String) (calls : List Call) (m live : Model)
    (rb : Key) (changes : ChangeSet), Model.build text .null 0 = .ok (m, (readIn text 0).supply) →
      live = (afterCalls (readIn text 0) calls).model → live.DocumentShaped rb →
        reconcile {} m live = .ok changes →
          ∃ patch, PatchTask.patch ⟨{}, text, m, live, changes⟩ = .ok patch ∧
            ∃ tree m' count', Parser.parse patch.text .null = .ok tree ∧
              Model.build patch.text .null 0 = .ok (m', count') ∧
                ∀ indent, m'.snapshot.text indent = live.snapshot.text indent := by
  intro always
  have ready : (Model.build "\x7b\"a\": 1\x7d" .null 0).toOption.isSome = true ∧
      (reconcile {} (readIn "\x7b\"a\": 1\x7d" 0).model pairSpace.model).toOption.isSome = true ∧
      (((taskTo "\x7b\"a\": 1\x7d" pairSpace.model).patch).toOption.bind fun patch =>
        (Parser.parse patch.text .null).toOption.map fun _ => ()) = none := by
    decide +kernel
  obtain ⟨parses, alike, fails⟩ := ready
  obtain ⟨changes, made⟩ := Except.exists_ok alike
  have built := build_eq_readIn parses
  obtain ⟨patch, patched, tree, _, _, parsed, _⟩ := always _ [.detach "n2", .remove "n1"] _
    pairSpace.model 1 changes built rfl documentShaped_pairSpace made
  rw [taskTo, made] at fails
  simp only [Except.toOption, Option.getD_some] at fails
  rw [patched] at fails
  simp [parsed] at fails

end DocSync
