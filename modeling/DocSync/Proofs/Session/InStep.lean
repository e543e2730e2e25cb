import DocSync.Proofs.Change.Rebuilt
import DocSync.Proofs.Render.Fidelity
import DocSync.Proofs.Session.Endings

/-!
What a pass achieves. Once it has carried a change across, the text of the session parses, the live
model is what the text becomes but for its ids, and a further pass in either direction finds nothing
to do.
-/

namespace DocSync

open Model

variable {s s' : Session} {fresh : Model} {changes : ChangeSet} {carry : NodeId → NodeId}
  {image : Key → Key} {text : String}

/-- A model shows the document that another one shows: it is a copy of it under ids of its own, with the
same text around it, and it has the same snapshot and the same rendering. -/
structure SameDocument (m m' : Model) : Prop where
  copied : ∃ carry image, Copied m' m carry image ∧ m'.roots = m.roots.map image
  margins : SameMargins m m'
  snapshot : ∀ indent, m'.snapshot.text indent = m.snapshot.text indent
  rendering : ∀ config, ∃ out, m.render config = .ok out ∧ m'.render config = .ok out

namespace Session

/-- Text and live model say the same. The text is that of a document, whatever ids are handed out for
it; the live model shows this document; and a pass in either direction has nothing to do and leaves the
session as it is, except that it is no longer taken for edited. -/
structure InStep (s : Session) : Prop where
  rebuilt : ∀ supply, ∃ m count, Model.build s.text s.config.sourceFile supply = .ok (m, count) ∧
    SameDocument m s.live
  fromModel : ∀ dirty, ∃ r, syncFromModel { s with dirty := dirty } = .ok r { s with dirty := false } ∧
    r.status = .unchanged
  fromText : ∀ dirty, syncFromText s.text { s with dirty := dirty } =
    .ok { status := .unchanged } { s with dirty := dirty }

/-- Once the live model is a fresh parse carried over, taking the parse over brings the session in step. -/
theorem inStep_taken (sound : s.live.Sound) {supply count : Nat}
    (built : Model.build text s.config.sourceFile supply = .ok (fresh, count))
    {indent : Option Json.Indent} (given : s.config.givenSnapshotIndent = .ok indent)
    (carried : CarriedOver s.live fresh changes.carry image) :
    InStep (s.taken text fresh changes.idMap) := by
  obtain ⟨tree, parsed, spelled⟩ := Build.spelled_of_build built
  obtain ⟨r, single, -⟩ := spelled.single
  -- Adoption completes what the replay has carried over.
  have copied : Copied (s.taken text fresh changes.idMap).live fresh changes.carry image :=
    carried.copied_adopt sound (fun _ => rfl) spelled.sound
  have soundLive : (s.taken text fresh changes.idMap).live.Sound :=
    (sameForest_adopt fresh changes.idMap s.live).sound sound
  have margins : SameMargins fresh (s.taken text fresh changes.idMap).live :=
    sameMargins_adopt fresh changes.idMap s.live
  have listed : (s.taken text fresh changes.idMap).live.roots = fresh.roots.map image := by
    rw [copied.roots soundLive spelled.sound single, single]
    rfl
  refine ⟨fun supply' => ?_, fun dirty => ?_, fun dirty => ?_⟩
  · -- A further parse of the text is a copy of the one that was taken over.
    obtain ⟨m, count', built', spelled'⟩ := Build.build_eq parsed supply'
    obtain ⟨r', single', -⟩ := spelled'.single
    obtain ⟨carry', image', copied', listed', margins'⟩ := spelled.exists_copied spelled'
    have whole := copied'.trans copied
    have listedAll : (s.taken text fresh changes.idMap).live.roots = m.roots.map (image ∘ image') := by
      rw [listed, listed', List.map_map]
    have margins := margins'.trans margins
    refine ⟨m, count', built', ⟨_, _, whole, listedAll⟩, margins,
      whole.text_eq soundLive spelled'.sound single', fun config => ?_⟩
    obtain ⟨out, shown, -⟩ := spelled'.exists_render parsed config
    refine ⟨out, shown, ?_⟩
    rw [whole.render soundLive spelled'.sound margins listedAll, shown]
    rfl
  · -- The live model is compared with the parse that it has just taken over.
    have order := copied.toCarriedOver.canonicalOrder soundLive spelled.sound listed (.refl _) fun _ => rfl
    obtain ⟨c, made, empty⟩ := copied.toCarriedOver.exists_reconcile soundLive spelled.sound order given
    have leading : (s.taken text fresh changes.idMap).live.givenLeading = fresh.givenLeading := by
      rw [givenLeading, givenLeading, margins.leading, margins.strays]
    have trailing : (s.taken text fresh changes.idMap).live.givenTrailing = fresh.givenTrailing := by
      rw [givenTrailing, givenTrailing, margins.trailing, margins.strays]
    refine ⟨{ status := .unchanged, changes := some c }, ?_, rfl⟩
    have compared : lift (reconcile s.config fresh (s.taken text fresh changes.idMap).live)
        { s.taken text fresh changes.idMap with dirty := dirty } =
        .ok c { s.taken text fresh changes.idMap with dirty := dirty } := by
      rw [made]
      rfl
    refine EStateM.bind_eq_ok_iff.2 ⟨_, _, rfl, EStateM.bind_eq_ok_iff.2 ⟨c, _, compared, ?_⟩⟩
    rw [if_pos ⟨empty, by
      change (s.taken text fresh changes.idMap).live.givenLeading.alike fresh.givenLeading = true ∧
        (s.taken text fresh changes.idMap).live.givenTrailing.alike fresh.givenTrailing = true
      rw [leading, trailing]
      exact ⟨Json.alike_refl _, Json.alike_refl _⟩⟩]
    rfl
  · -- The text is the session's own, and the pass before has gone through.
    refine EStateM.bind_eq_ok_iff.2 ⟨_, _, rfl, ?_⟩
    rw [if_pos ⟨rfl, rfl⟩]
    rfl

/-! ### Passes -/

section Passes

/-- A parse under new ids and the live model have no ids in common. -/
theorem Unspent.apart (unspent : s.Unspent) {supply count : Nat} {file : Json}
    (later : s.supply ≤ supply) (built : Model.build text file supply = .ok (fresh, count)) {a b : Key}
    (heldA : s.live.Holds a) (heldB : fresh.Holds b) : s.live.nameOf a ≠ fresh.nameOf b := by
  obtain ⟨n, bound, -, id⟩ := Build.handed_of_build built heldB
  intro same
  have name : (s.live.node a).id.name = (freshId n).name := same.trans (congrArg NodeId.name id)
  exact unspent.live heldA (later.trans_lt bound) (NodeId.name_eq_text_iff.1 name)

variable (orderly : s.Orderly) (unspent : s.Unspent) {r : PassResult}
include orderly unspent

/-- A pass from the text that carries a change across brings the session in step with the text. -/
theorem inStep_of_syncFromText (ran : syncFromText text s = .ok r s') (synced : r.status = .synced) :
    s'.InStep ∧ s'.text = text := by
  rw [syncFromText_eq] at ran
  split at ran
  · cases ran
    cases synced
  have ends := followsText s text
  rw [ran] at ends
  cases ends with
  | unreadable => cases synced
  | @carried fresh count changes s₁ parsed replayed =>
    have entered : Orderly { s with supply := count } := orderly.same rfl rfl rfl
    obtain ⟨after, config, ⟨indent, given⟩, image, carried⟩ := replayToward_spec entered
      (sound_of_build parsed) (unspent.apart (Nat.le_refl _) parsed) replayed
    exact ⟨inStep_taken after.sound (config ▸ parsed) (config ▸ given) carried, rfl⟩

/-- A pass from the model that carries a change across brings the session in step. -/
theorem inStep_of_syncFromModel (ran : syncFromModel s = .ok r s') (synced : r.status = .synced) :
    s'.InStep := by
  have ends := followsModel s
  rw [ran] at ends
  cases ends with
  | idle | unrendered | unreadable => cases synced
  | @carried changes patch fresh count echo s₁ _ _ _ parsed replayed =>
    have entered : Orderly { s with supply := count } := orderly.same rfl rfl rfl
    obtain ⟨after, config, ⟨indent, given⟩, image, carried⟩ := replayToward_spec entered
      (sound_of_build parsed) (unspent.apart (Nat.le_refl _) parsed) replayed
    exact inStep_taken (s := { s₁ with dirty := false }) after.sound (config ▸ parsed) (config ▸ given)
      carried

omit orderly unspent in
/-- The replay that is taken back leaves the history first, whether or not that succeeds. -/
theorem undo_eq {applied : Applied} {earlier : List Applied} (history : s.history = applied :: earlier) :
    undo s = (do
      discard (guarded applied.inverses.length (quietHost.undo applied))
      syncFromModel : SessionStep PassResult) { s with history := earlier } := by
  unfold undo
  rw [EStateM.bind_get]
  simp only [history]
  rfl

omit unspent in
/-- What was taken back had nothing in its way. -/
theorem doesAll_of_takenBack {applied back : Applied} {earlier : List Applied}
    (history : s.history = applied :: earlier)
    (ran : guarded applied.inverses.length (quietHost.undo applied) { s with history := earlier } =
      .ok back s') : DoesAll s.live applied.inverses.reverse s'.live := by
  have latest : applied ∈ s.history := history ▸ List.mem_cons_self
  have popped := orderly.popped history
  exact (retraces_of_guarded popped.calm popped.sound
    (fun node inside => orderly.solid applied latest node (List.mem_reverse.1 inside)) ran).doesAll

/-- A replay that was taken back leaves the session in order, and uses no id that is to come. -/
theorem takenBack_spec {applied back : Applied} {earlier : List Applied}
    (history : s.history = applied :: earlier)
    (ran : guarded applied.inverses.length (quietHost.undo applied) { s with history := earlier } =
      .ok back s') : s'.Orderly ∧ s'.Unspent ∧ Stirred { s with history := earlier } s' ∧
        DoesAll s.live applied.inverses.reverse s'.live := by
  have latest : applied ∈ s.history := history ▸ List.mem_cons_self
  have among : ∀ a ∈ earlier, a ∈ s.history := fun a inside => history ▸ List.mem_cons_of_mem _ inside
  have popped := orderly.popped history
  have does := doesAll_of_takenBack orderly history ran
  obtain ⟨sound, stirred⟩ := kept_guarded popped.calm popped.sound applied.inverses.length
    applied.inverses.reverse
  have ends : guarded applied.inverses.length (quietHost.applyEntries applied.inverses.reverse)
      { s with history := earlier } = .ok back s' := ran
  rw [endOf, ends] at sound stirred
  have later : s.supply ≤ s'.supply := stirred.supply
  have kept : s'.history = earlier := stirred.history
  refine ⟨popped.stirred stirred sound, ⟨fun {k n} held bound => ?_, fun a inside node created {n} bound =>
    unspent.history a (among a (kept ▸ inside)) node created (later.trans_lt bound)⟩, stirred, does⟩
  -- Nodes that have come back did so under ids that are not to come.
  rcases does.id_of_holds popped.sound held with ⟨j, heldJ, id⟩ | ⟨node, created, id⟩
  · exact id ▸ unspent.live heldJ (later.trans_lt bound)
  · exact id ▸ unspent.history applied latest node (List.mem_reverse.1 created) (later.trans_lt bound)

/-- The undoing of the latest replay that carries a change across brings the session in step. -/
theorem inStep_of_undo (ran : undo s = .ok r s') (synced : r.status = .synced) : s'.InStep := by
  cases history : s.history with
  | nil =>
    unfold undo at ran
    rw [EStateM.bind_get] at ran
    simp only [history] at ran
    cases ran
    cases synced
  | cons applied earlier =>
    rw [undo_eq history] at ran
    obtain ⟨_, s₁, undone, rest⟩ := EStateM.bind_eq_ok_iff.1 ran
    obtain ⟨back, undone⟩ := EStateM.discard_eq_ok_iff.1 undone
    obtain ⟨after, fresh, -⟩ := takenBack_spec orderly unspent history undone
    exact inStep_of_syncFromModel after fresh rest synced

end Passes

end Session

/-! ### Sessions to look at -/

/-- The id that an entry creates a node under. -/
def Entry.created? : Entry → Option NodeId
  | .create node => some node.id
  | _ => none

namespace Session

/-- The ids that have been handed out. -/
def handed (s : Session) : List NodeId := (List.range (s.supply + 1)).map freshId

/-- No id to come is in use where all ids have been handed out. -/
theorem unspent_of_handed (nodes : ∀ node ∈ s.live.nodes.toList, node.id ∈ s.handed)
    (created : ∀ id ∈ (s.history.flatMap Applied.inverses).filterMap Entry.created?, id ∈ s.handed) :
    s.Unspent := by
  have early : ∀ {n}, freshId n ∈ s.handed → n ≤ s.supply := by
    intro n inside
    obtain ⟨i, bound, same⟩ := List.mem_map.1 inside
    rw [List.mem_range] at bound
    rw [← Build.freshId_injective same]
    exact Nat.le_of_lt_succ bound
  refine ⟨fun {k n} held later id => ?_, fun applied inside node back {n} later id => ?_⟩
  · have member : s.live.node k ∈ s.live.nodes.toList := by
      simp [Model.node, held.1]
    exact absurd (early (id ▸ nodes _ member)) (Nat.not_le.2 later)
  · have member : node.id ∈ (s.history.flatMap Applied.inverses).filterMap Entry.created? :=
      List.mem_filterMap.2 ⟨.create node, List.mem_flatMap.2 ⟨applied, inside, back⟩, rfl⟩
    exact absurd (early (id ▸ created _ member)) (Nat.not_le.2 later)

/-- The session that is opened on a text, with passes on request only. -/
def openedOn (text : String) : Session := ((create {} text false).toOption).getD default

theorem ran_openedOn (parses : (create {} text false).toOption.isSome = true) (calls : List Call) :
    ((openedOn text).editedBy calls).Ran := by
  obtain ⟨s, created⟩ := Except.exists_ok parses
  obtain ⟨_, _, _, same⟩ := built_of_create created
  rw [openedOn, created]
  exact (Ran.opened created).editedBy (congrArg autoSync same) calls

end Session

/-- Whatever a session has been through, a pass that carries a change across, in either direction or to
take a replay back, brings text and live model in step, as long as the ids to be handed out are not in
use. After a pass from a text, it is this text that the session has. -/
theorem inStep_of_synced (ran : s.Ran) (unspent : s.Unspent) {pass : Pass} {r : PassResult}
    (passed : pass.run s = .ok r s') (synced : r.status = .synced) :
    s'.InStep ∧ ∀ text, pass = .fromText text → s'.text = text := by
  cases pass with
  | fromText text =>
    obtain ⟨inStep, same⟩ := Session.inStep_of_syncFromText ran.orderly unspent passed synced
    exact ⟨inStep, fun text' given => Pass.fromText.inj given ▸ same⟩
  | fromModel =>
    exact ⟨Session.inStep_of_syncFromModel ran.orderly unspent passed synced, fun _ given => nomatch given⟩
  | undo =>
    exact ⟨Session.inStep_of_undo ran.orderly unspent passed synced, fun _ given => nomatch given⟩

/-- An array with one item, to which a second one has been appended. -/
def appendedSession : Session :=
  (Session.openedOn "[1]").editedBy
    [.create none .scalar { fields := Dict.ofList [(valueName, "2")] }, .appendChild "n3" itemsSlot "n5"]

theorem inStep_of_synced_appended : ∃ r s', Pass.fromModel.run appendedSession = .ok r s' ∧
    r.status = .synced ∧ s'.text = "[1, 2]" ∧ s'.InStep := by
  have ran : appendedSession.Ran := Session.ran_openedOn (by decide +kernel) _
  have unspent : appendedSession.Unspent :=
    Session.unspent_of_handed (by decide +kernel) (by decide +kernel)
  obtain ⟨r, s', passed, done⟩ := EStateM.exists_ok (s := appendedSession) (x := Pass.fromModel.run)
    (p := fun r s' => decide (r.status = .synced ∧ s'.text = "[1, 2]")) (by decide +kernel)
  obtain ⟨synced, same⟩ := of_decide_eq_true done
  exact ⟨r, s', passed, synced, same, (inStep_of_synced ran unspent passed synced).1⟩

/-! ### A pass between the steps of an edit -/

/-- Links of a copy lead to nodes that it holds. -/
theorem CarriedOver.holds_target {m new : Model} (carried : CarriedOver m new carry image)
    (soundNew : new.Sound) {k c : Key} {e : Edge} (held : m.Holds k)
    (leads : (m.node k).target? e = some c) : m.Holds c := by
  obtain ⟨b, heldB, rfl⟩ := carried.onto held
  rw [carried.target heldB] at leads
  obtain ⟨d, target, rfl⟩ := Option.map_eq_some_iff.1 leads
  exact carried.holds (soundNew.back heldB target).1

/-- Two arrays are taken out of the array around them, and one of them is put behind its sibling. From
now on passes follow edits of their own. -/
def laidSession : Session :=
  { (Session.openedOn "[1, [[7], [8]]]").editedBy
      [.detach "n11", .detach "n12", .remove "n10", .insertAfter "n9" "n12"] with autoSync := true }

/-- The other array is put behind the same sibling. This edit cuts a link first, and a pass that follows
at once destroys the node that is still loose; the edit then goes on with that node. -/
def looseSession : Session := laidSession.editedBy [.insertAfter "n9" "n11"]

/-- A node that the model does not hold stays in its chain, and no pass brings its spans up to date. -/
theorem not_inStep_of_synced : laidSession.Ran ∧ looseSession.Unspent ∧
    ∃ r s', (Pass.fromText "[2, []]").run looseSession = .ok r s' ∧ r.status = .synced ∧ ¬ s'.InStep := by
  obtain ⟨nodes, created, ran⟩ :
      (∀ node ∈ looseSession.live.nodes.toList, node.id ∈ looseSession.handed) ∧
      (∀ id ∈ (looseSession.history.flatMap Applied.inverses).filterMap Entry.created?,
        id ∈ looseSession.handed) ∧
      (Pass.fromText "[2, []]").run.comesTo looseSession (fun r s' =>
        decide (r.status = .synced ∧ 1 < s'.live.nodes.size ∧ (s'.live.node 1).live = true ∧
          (s'.live.node 1).next = some 3 ∧ (s'.live.node 3).live = false)) = true := by
    decide +kernel
  refine ⟨.switched true (Session.ran_openedOn (by decide +kernel) _),
    Session.unspent_of_handed nodes created, ?_⟩
  obtain ⟨r, s', passed, done⟩ := EStateM.exists_ok ran
  obtain ⟨synced, inside, held, next, gone⟩ := of_decide_eq_true done
  refine ⟨r, s', passed, synced, fun inStep => ?_⟩
  obtain ⟨m, count, built, same⟩ := inStep.rebuilt 0
  obtain ⟨carry, image, copied, -⟩ := same.copied
  have loose := copied.toCarriedOver.holds_target (e := .next) (sound_of_build built) ⟨inside, held⟩ next
  rw [loose.2] at gone
  cases gone

end DocSync
