import DocSync.Proofs.Change.Framed
import DocSync.Proofs.Session.Shaped

/-!
Passes taken back one after the other. Texts are carried over to a live model that nobody edits, and
each pass that changes something goes on record. Taking the latest one back leads to the live model
before it, up to the frames of its nodes, and the pass from the model that follows finds a document
to show: so nothing goes on record again, and the one before is the next to be taken back.
-/

namespace DocSync

open Model

variable {s s' : Session} {live m m' fresh : Model} {carry : NodeId → NodeId} {image : Key → Key}
  {changes : ChangeSet} {entries : List Entry} {history : List Applied} {past : List Model} {r : Key}

/-- A copy has frames that fit if its model has. -/
theorem Copied.framed (copied : Copied m' m carry image) (framed : m.Framed) : m'.Framed := by
  intro k held
  -- A copy has the very frames of what it is a copy of.
  obtain ⟨b, heldB, rfl⟩ := copied.onto held
  rw [copied.content heldB, copied.kind heldB]
  exact framed b heldB

/-! ### Replays on record -/

/-- A model stands for a document, with no pair at top level. -/
def Model.IsDocument (m : Model) : Prop := ∃ r, m.DocumentShaped r ∧ (m.node r).kind ≠ .pair

/-- Replays on record lead, the latest first, from a model through given ones: each of these is a
document of another shape than the model that its replay has led to, and nothing that is brought back
is a misfit. -/
inductive Model.Reverts : Model → List Applied → List Model → Prop
  | nil (live : Model) : Reverts live [] []
  | cons {live m m' : Model} {image : Key → Key} {applied : Applied} {entries : List Entry}
    {history : List Applied} {past : List Model} :
    Retraces m entries applied.inverses m' → CarriedOver live m' id image → m.Sound → m.IsDocument →
    (∀ back ∈ applied.inverses, back.BringsFramed) → m.shapes ≠ live.shapes →
    Reverts m history past → Reverts live (applied :: history) (m :: past)

namespace Model.Reverts

theorem length_eq (reverts : live.Reverts history past) : history.length = past.length := by
  induction reverts with
  | nil => rfl
  | cons _ _ _ _ _ _ _ ih => rw [List.length_cons, List.length_cons, ih]

/-- What is known of the latest replay, and of those before it. -/
theorem latest (reverts : live.Reverts history (m :: past)) : ∃ applied entries m' image,
    history = applied :: history.tail ∧ Retraces m entries applied.inverses m' ∧
      CarriedOver live m' id image ∧ (∀ back ∈ applied.inverses, back.BringsFramed) ∧ m.Sound ∧
        m.IsDocument ∧ m.shapes ≠ live.shapes ∧ m.Reverts history.tail past := by
  cases reverts with
  | cons retraces led sound document brings differ rest =>
    exact ⟨_, _, _, _, rfl, retraces, led, brings, sound, document, differ, rest⟩

/-- The replays lead back from any model with the ids, kinds, fields and links of the one they led to. -/
theorem of_carriedOver (reverts : live.Reverts history past) (carried : CarriedOver m live id image)
    (sound : m.Sound) (soundLive : live.Sound) (single : live.roots = [r]) :
    m.Reverts history past := by
  -- Only the latest replay speaks of the model that it has led to.
  cases reverts with
  | nil => exact .nil m
  | cons retraces led sound' shaped brings differ rest =>
    have same := carried.shapes sound soundLive single
    exact .cons retraces (led.trans carried) sound' shaped brings (same ▸ differ) rest

end Model.Reverts

namespace Session

/-! ### Sessions on their way -/

/-- A session that texts have been carried over in: the live model is a copy of a parse of the text,
and its replays on record lead back through given models. -/
structure Following (s : Session) (past : List Model) : Prop where
  orderly : s.Orderly
  unspent : s.Unspent
  reads : s.Reads
  copied : ∃ carry image, Copied s.live s.read carry image
  margins : SameMargins s.read s.live
  reverts : s.live.Reverts s.history past

/-- The live model on the way stands for a document. -/
theorem Following.isDocument (following : s.Following past) : s.live.IsDocument := by
  -- A parse is a document, and so is its copy, with the same text around it.
  obtain ⟨supply, count, built⟩ := following.reads
  obtain ⟨carry, image, copied⟩ := following.copied
  obtain ⟨r, shaped, notPair⟩ := documentShaped_of_build built
  have soundRead := sound_of_build built
  refine ⟨image r, copied.documentShaped following.orderly.sound soundRead shaped
    (copied.framed shaped.toFramed) ?_ ?_ ?_, ?_⟩
  · rw [following.margins.leading]
    exact shaped.leading
  · rw [following.margins.trailing]
    exact shaped.trailing
  · rw [following.margins.strays]
    exact shaped.plain
  · rw [copied.kind (soundRead.holds_root (by simp [shaped.single]))]
    exact notPair

/-- Once the live model is a fresh parse carried over, taking the parse over keeps the session on its
way. -/
theorem following_taken {text : String} (orderly : s.Orderly) (unspent : s.Unspent)
    {supply count : Nat} (built : Model.build text s.config.sourceFile supply = .ok (fresh, count))
    (carried : CarriedOver s.live fresh changes.carry image) (reverts : s.live.Reverts s.history past) :
    (s.taken text fresh changes.idMap).Following past := by
  have soundFresh := sound_of_build built
  obtain ⟨r, shaped, -⟩ := documentShaped_of_build built
  have same := sameForest_adopt fresh changes.idMap s.live
  have soundLive := same.sound orderly.sound
  refine ⟨⟨soundLive, orderly.calm, orderly.solid⟩, ⟨fun {k n} held later => ?_, unspent.history⟩,
    ⟨supply, count, built⟩, ⟨_, _, carried.copied_adopt orderly.sound (fun _ => rfl) soundFresh⟩,
    sameMargins_adopt fresh changes.idMap s.live, ?_⟩
  · change ((s.live.adopt fresh changes.idMap).1.node k).id ≠ _
    rw [same.id]
    exact unspent.live (same.holds_iff.1 held) later
  · exact reverts.of_carriedOver (carriedOver_adopt carried orderly.sound (fun _ => rfl) soundFresh)
      soundLive orderly.sound (carried.roots orderly.sound soundFresh shaped.single)

/-! ### Texts carried over -/

/-- Ids that are not handed out yet stay unused while later ones are drawn. -/
theorem Unspent.later (unspent : s.Unspent) {count : Nat} (later : s.supply ≤ count) :
    Unspent { s with supply := count } where
  live held bound := unspent.live held (later.trans_lt bound)
  history a inside node created _ bound :=
    unspent.history a inside node created (later.trans_lt bound)

/-- A replay toward a fresh parse uses no id that is to come, if the parse does not. -/
theorem unspent_replayToward (orderly : s.Orderly) (unspent : s.Unspent) (soundFresh : fresh.Sound)
    (handed : ∀ {k n}, fresh.Holds k → s.supply < n → (fresh.node k).id ≠ freshId n)
    (ran : replayToward fresh s = .ok changes s') : s'.Unspent := by
  obtain ⟨made, replayed⟩ := replayToward_eq_ok_iff.1 ran
  cases empty : changes.isEmpty with
  | true =>
    cases replayed.symm.trans (replay_of_isEmpty empty)
    exact unspent
  | false =>
    obtain ⟨applied, s₁, stirred, rfl, retraces⟩ := replay_recorded orderly
      (solid_of_reconcile orderly.sound soundFresh made) empty replayed
    -- Ids above the supply are not those of the fresh model, so no entry brings one.
    have created : ∀ {node n}, Entry.create node ∈ changes.entries → s.supply < n →
        node.id ≠ freshId n := by
      intro node n inside later
      obtain ⟨k, held, -, id, -⟩ :=
        (tells_of_reconcile orderly.sound soundFresh made).exists_created inside
      exact id ▸ handed held later
    refine ⟨fun {k n} held later => ?_, List.forall_mem_cons.2 ⟨fun node inside n later => ?_,
      fun a among node inside n later => ?_⟩⟩
    · rcases retraces.doesAll.id_of_holds orderly.sound held with ⟨j, heldJ, id⟩ | ⟨node, inside, id⟩
      · exact id ▸ unspent.live heldJ (stirred.supply.trans_lt later)
      · exact id ▸ created inside (stirred.supply.trans_lt later)
    · rcases retraces.id_of_back orderly.sound inside with ⟨j, heldJ, id⟩ | ⟨made, inside, id⟩
      · exact id ▸ unspent.live heldJ (stirred.supply.trans_lt later)
      · exact id ▸ created inside (stirred.supply.trans_lt later)
    · exact unspent.history a among node inside (stirred.supply.trans_lt later)

/-- A replay toward a fresh parse goes on record if it has anything to do. -/
theorem reverts_replayToward (orderly : s.Orderly) (document : s.live.IsDocument)
    (reverts : s.live.Reverts s.history past) (soundFresh : fresh.Sound) (shaped : fresh.IsDocument)
    (ran : replayToward fresh s = .ok changes s')
    (carried : CarriedOver s'.live fresh changes.carry image) :
    s'.live.Reverts s'.history (if changes.isEmpty then past else s.live :: past) := by
  obtain ⟨made, replayed⟩ := replayToward_eq_ok_iff.1 ran
  cases empty : changes.isEmpty with
  | true =>
    cases replayed.symm.trans (replay_of_isEmpty empty)
    exact reverts
  | false =>
    obtain ⟨applied, s₁, -, rfl, retraces⟩ := replay_recorded orderly
      (solid_of_reconcile orderly.sound soundFresh made) empty replayed
    -- The replay goes on record with the live model before it, which was a document.
    have soundLive := retraces.sound orderly.sound
    obtain ⟨top, shapedLive, notPair⟩ := document
    obtain ⟨top', shapedFresh, -⟩ := shaped
    have brings := bringsFramed_of_reconcile orderly.sound soundFresh made shapedFresh.toFramed
    refine .cons retraces (Copied.refl _).toCarriedOver orderly.sound ⟨top, shapedLive, notPair⟩
      (retraces.framed orderly.sound shapedLive.toFramed brings).2 (fun same => ?_) reverts
    -- Had the shapes been the same, there would have been nothing to do.
    obtain ⟨indent, given⟩ := exists_givenSnapshotIndent made
    obtain ⟨c, made', nothing⟩ := exists_reconcile_of_shapes orderly.sound soundFresh shapedLive.single
      shapedFresh.single given (same.trans (carried.shapes soundLive soundFresh shapedFresh.single))
    cases made.symm.trans made'
    rw [nothing] at empty
    cases empty

/-- A text that was carried over keeps the session on its way; the live model before is what the pass is
taken back to. -/
theorem following_followText {text : String} {result : PassResult} (following : s.Following past)
    (ran : followText text s = .ok result s') (kept : result.status ≠ .unsynchronized) :
    s'.config = s.config ∧
      s'.Following (if result.status = .synced then s.live :: past else past) := by
  have ends := followsText s text
  rw [ran] at ends
  cases ends with
  | unreadable => exact absurd rfl kept
  | @carried fresh count changes s₁ built replayed =>
    have soundFresh := sound_of_build built
    have later : s.supply ≤ count := Build.supply_le built
    have entered : Orderly { s with supply := count } := following.orderly.same rfl rfl rfl
    obtain ⟨after, config, -, image, carried⟩ := replayToward_spec entered soundFresh
      (following.unspent.apart (Nat.le_refl _) built) replayed
    -- The ids of the parse have been handed out by now.
    have unspent := unspent_replayToward entered (following.unspent.later later) soundFresh
      (fun {k n} held bound same => by
        obtain ⟨n', _, below, id⟩ := Build.handed_of_build built held
        obtain rfl := Build.freshId_injective (id.symm.trans same)
        exact absurd below (Nat.not_le_of_lt bound)) replayed
    have reverts := reverts_replayToward entered following.isDocument following.reverts soundFresh
      (documentShaped_of_build built) replayed carried
    have taken := following_taken after unspent (config ▸ built) carried reverts
    refine ⟨config, ?_⟩
    cases empty : changes.isEmpty with
    | true =>
      rw [empty] at taken
      exact taken
    | false =>
      rw [empty] at taken
      exact taken

/-! ### Passes taken back -/

/-- Entries that nothing stands in the way of are replayed under guard. -/
theorem exists_guarded (calm : s.Calm) (sound : s.live.Sound) (count : Nat)
    (does : DoesAll s.live entries m) : ∃ applied s',
      guarded count (quietHost.applyEntries entries) s = .ok applied s' ∧ s'.live = m := by
  obtain ⟨backs, retraces⟩ := does.exists_retraces
  have entered : (calmHost.model { s with guard := s.guard.enter count }).Sound := sound
  obtain ⟨s₁, ran, last⟩ := Host.Gives.applyEntries_of_retraces quiet_calmHost entered retraces
  rw [← (applyEntries_eq (s := { s with guard := s.guard.enter count }) calm entries).1] at ran
  exact ⟨_, _, guarded_eq_ok_iff.2 ⟨s₁, ran, rfl⟩, last⟩

/-- The latest replay can be taken back, and a pass follows from a model with the ids, kinds, fields and
links of the one before it. -/
theorem exists_takenBack (following : s.Following (m :: past)) : ∃ s₁ image,
    undo s = syncFromModel s₁ ∧ Stirred { s with history := s.history.tail } s₁ ∧ s₁.Orderly ∧
      s₁.Unspent ∧ s₁.live.IsDocument ∧ CarriedOver s₁.live m id image := by
  have orderly := following.orderly
  obtain ⟨top, shapedLive, -⟩ := following.isDocument
  obtain ⟨applied, entries, m', image, known, retraces, carried, brings, sound, ⟨r, shaped, notPair⟩,
    -, -⟩ := following.reverts.latest
  -- The way back can be gone from any model that shows what the replay had led to.
  obtain ⟨m₀, image₀, does, sound₀, carried₀, -⟩ := retraces.exists_back sound orderly.sound carried
  obtain ⟨back, s₁, ran, rfl⟩ := exists_guarded (s := { s with history := s.history.tail })
    orderly.calm orderly.sound applied.inverses.length does
  obtain ⟨after, unspent, stirred, -⟩ := takenBack_spec orderly following.unspent known ran
  -- What was there has frames that fit, and so has what was brought back.
  have framed := does.framed orderly.sound shapedLive.toFramed fun entry inside =>
    brings entry (List.mem_reverse.1 inside)
  have margins := does.margins
  refine ⟨s₁, image₀, ?_, stirred, after, unspent, ⟨image₀ r, ?_, ?_⟩, carried₀⟩
  · rw [undo_eq known]
    exact EStateM.bind_of_ok (EStateM.discard_eq_ok_iff.2 ⟨back, ran⟩) _
  · exact carried₀.documentShaped sound₀ sound shaped framed (margins.leading ▸ shapedLive.leading)
      (margins.trailing ▸ shapedLive.trailing) (margins.strays ▸ shapedLive.plain)
  · rw [carried₀.kind (sound.holds_root (by simp [shaped.single]))]
    exact notPair

/-- The undoing of the latest pass on record, unless the models cannot be compared, leads to the live model
before it, and the session goes on from there. -/
theorem undo_of_following (following : s.Following (m :: past)) (config : s.config.Plain) :
    (∃ e s₁, undo s = .error e s₁ ∧ ((∃ id limit, e = .collision id limit) ∨
      10 ^ Text.maxDigits ≤ labelRoom s.config s₁.read s₁.live)) ∨
    ∃ result s', undo s = .ok result s' ∧ result.status = .synced ∧ s'.config = s.config ∧
      s'.Following past ∧ ∃ image, CarriedOver s'.live m id image := by
  obtain ⟨s₁, image, undone, stirred, orderly, unspent, document, carried⟩ := exists_takenBack following
  obtain ⟨top, shaped, notPair⟩ := document
  obtain ⟨supply, count, built⟩ := following.reads
  have soundRead := sound_of_build built
  have sameConfig : s₁.config = s.config := stirred.config
  have sameRead : s₁.read = s.read := stirred.read
  have sameText : s₁.text = s.text := stirred.text
  have reads : s₁.Reads := ⟨supply, count, by rw [sameText, sameConfig, sameRead]; exact built⟩
  rw [undone]
  have ends := followsDocument reads orderly.sound shaped notPair (sameConfig ▸ config)
  obtain ⟨_, _, _, _, _, _, _, _, sound, ⟨r, before, -⟩, differ, rest⟩ := following.reverts.latest
  have single := before.single
  generalize syncFromModel s₁ = outcome at ends
  cases ends with
  | incomparable _ why => exact .inl ⟨_, _, rfl, sameConfig ▸ why⟩
  | idle made idle =>
    -- The text shows what the pass had led to, and that is not what the live model shows now.
    obtain ⟨carry, image', copied⟩ := following.copied
    obtain ⟨top', shapedRead, -⟩ := documentShaped_of_build built
    have shapes :=
      shapes_eq_of_isEmpty (sameRead ▸ soundRead) orderly.sound shaped.single made idle.1
    rw [sameRead] at shapes
    refine absurd ?_ differ
    calc m.shapes = s₁.live.shapes := (carried.shapes orderly.sound sound single).symm
      _ = s.read.shapes := shapes.symm
      _ = s.live.shapes :=
        (copied.toCarriedOver.shapes following.orderly.sound soundRead shapedRead.single).symm
  | @carried changes patch fresh count echo _ _ parsed compared empty =>
    -- The parse of the patched text shows the live model, and is taken over without a replay.
    have soundFresh := sound_of_build parsed
    obtain ⟨image', shown, -⟩ := (tells_of_reconcile orderly.sound soundFresh
      compared).carriedOver_of_isEmpty empty orderly.sound soundFresh
    have adopted := carriedOver_adopt shown orderly.sound (fun _ => rfl) soundFresh
    have unspent' := unspent.later (Build.supply_le parsed)
    have kept : s₁.history = s.history.tail := stirred.history
    have back : s₁.live.Reverts s₁.history past :=
      kept ▸ rest.of_carriedOver carried orderly.sound sound single
    refine .inr ⟨_, _, rfl, rfl, sameConfig, ?_, image, carried.trans adopted⟩
    exact following_taken (s := { s₁ with supply := count, dirty := false })
      (orderly.same rfl rfl rfl) ⟨unspent'.live, unspent'.history⟩ parsed shown back

/-! ### Runs without edits -/

/-- What a session comes to when texts are carried over, one after the other, and passes are taken back,
while nobody edits the live model and nobody asks for passes besides. Along with it go the live models
before each pass that changed something and has not been taken back, the latest first. -/
inductive Followed (config : Config) : Session → List Model → Prop
  | opened {text : String} {autoSync : Bool} {s : Session} :
    create config text autoSync = .ok s → Followed config s []
  | attended {s : Session} {past : List Model} (observers : List Observer) :
    (∀ number, Observer.eager number ∉ observers) → Followed config s past →
    Followed config { s with observers := observers } past
  | synced {s s' : Session} {past : List Model} {text : String} {result : PassResult} :
    Followed config s past → syncFromText text s = .ok result s' → result.status = .synced →
    Followed config s' (s.live :: past)
  | unchanged {s s' : Session} {past : List Model} {text : String} {result : PassResult} :
    Followed config s past → syncFromText text s = .ok result s' → result.status = .unchanged →
    Followed config s' past
  | undone {s s' : Session} {m : Model} {past : List Model} {result : PassResult} :
    Followed config s (m :: past) → undo s = .ok result s' → Followed config s' past

/-- A text that is carried over is followed, or it is the text that was last carried over. -/
theorem following_syncFromText {text : String} {result : PassResult} (following : s.Following past)
    (ran : syncFromText text s = .ok result s') (kept : result.status ≠ .unsynchronized) :
    s'.config = s.config ∧
      s'.Following (if result.status = .synced then s.live :: past else past) := by
  rw [syncFromText_eq] at ran
  split at ran
  · cases ran
    exact ⟨rfl, following⟩
  · exact following_followText following ran kept

/-- A session that was opened is on its way. -/
theorem following_of_create {config : Config} {text : String} {autoSync : Bool}
    (created : create config text autoSync = .ok s) : s.config = config ∧ s.Following [] := by
  obtain ⟨count, builtRead, builtLive, same⟩ := built_of_create created
  have sameText : s.text = text := congrArg Session.text same
  have sameConfig : s.config = config := congrArg Session.config same
  -- Both models are parses of one text, and nothing has been replayed.
  obtain ⟨tree, parsed, spelled⟩ := Build.spelled_of_build builtRead
  obtain ⟨tree', parsed', spelled'⟩ := Build.spelled_of_build builtLive
  cases parsed.symm.trans parsed'
  obtain ⟨carry, image, copied, -, margins⟩ := spelled'.exists_copied spelled
  have none_ : s.history = [] := congrArg Session.history same
  refine ⟨sameConfig, (Ran.opened created).orderly, unspent_of_create created,
    ⟨0, count, by rw [sameText, sameConfig]; exact builtRead⟩, ⟨carry, image, copied⟩, margins, ?_⟩
  rw [none_]
  exact .nil s.live

theorem Followed.following {config : Config} (followed : Followed config s past) (plain : config.Plain) :
    s.config = config ∧ s.Following past := by
  -- Each step of the history keeps what the next undo needs.
  induction followed with
  | opened created => exact following_of_create created
  | attended observers calm _ ih =>
    obtain ⟨same, following⟩ := ih
    exact ⟨same, ⟨following.orderly.sound, calm, following.orderly.solid⟩,
      ⟨following.unspent.live, following.unspent.history⟩, following.reads, following.copied,
      following.margins, following.reverts⟩
  | synced _ ran status ih =>
    obtain ⟨same, following⟩ := ih
    obtain ⟨kept, after⟩ := following_syncFromText following ran (by rw [status]; decide)
    rw [if_pos status] at after
    exact ⟨kept.trans same, after⟩
  | unchanged _ ran status ih =>
    obtain ⟨same, following⟩ := ih
    obtain ⟨kept, after⟩ := following_syncFromText following ran (by rw [status]; decide)
    rw [status, if_neg (by decide)] at after
    exact ⟨kept.trans same, after⟩
  | undone _ ran ih =>
    obtain ⟨same, following⟩ := ih
    rcases undo_of_following following (same ▸ plain) with ⟨e, s₁, failed, -⟩ | ⟨r, s₁, done, -, kept, after, -⟩
    · cases failed.symm.trans ran
    · cases done.symm.trans ran
      exact ⟨kept.trans same, after⟩

end Session

/-- Passes from the text can be taken back one after the other, as long as nobody edits the live model.
There is one replay on record for each pass that has changed something. Taking the latest one back fails
only if the search for a new label is given up, as long as the numbers of the lines have no more digits
than a numeral may have. If it does not fail, it says that it has carried a change across; the live model
has the nodes of the live model before that pass, with their ids, kinds, fields and links, and the same
top level; the text is that of this document; and the record is shorter by this one replay, with the one
before to be taken back next. -/
theorem undo_of_followed {config : Config} (followed : s.Followed config past) (plain : config.Plain) :
    s.history.length = past.length ∧ ∀ m earlier, past = m :: earlier →
      (∀ e s', Session.undo s = .error e s' → (∃ id limit, e = .collision id limit) ∨
        10 ^ Text.maxDigits ≤ labelRoom config s'.read s'.live) ∧
      ∀ result s', Session.undo s = .ok result s' → result.status = .synced ∧
        (∃ image, CarriedOver s'.live m id image ∧ s'.live.roots = m.roots.map image) ∧
        s'.InStep ∧ s'.history.length + 1 = s.history.length ∧ s'.Followed config earlier := by
  obtain ⟨rfl, following⟩ := followed.following plain
  refine ⟨following.reverts.length_eq, ?_⟩
  rintro m earlier rfl
  obtain ⟨_, _, _, _, known, _, _, _, sound, ⟨r, shaped, -⟩, -, -⟩ := following.reverts.latest
  rcases Session.undo_of_following following plain with
    ⟨e, s₁, failed, why⟩ | ⟨result, s₁, done, synced, -, after, image, carried⟩
  · refine ⟨fun e' s' ran => ?_, fun result s' ran => ?_⟩
    · cases failed.symm.trans ran
      exact why
    · cases failed.symm.trans ran
  · refine ⟨fun e' s' ran => ?_, fun result' s' ran => ?_⟩
    · cases done.symm.trans ran
    · cases done.symm.trans ran
      have listed := carried.roots after.orderly.sound sound shaped.single
      have shorter := after.reverts.length_eq
      have before := following.reverts.length_eq
      rw [List.length_cons] at before
      refine ⟨synced, ⟨image, carried, ?_⟩,
        Session.inStep_of_undo following.orderly following.unspent done synced, ?_, .undone followed done⟩
      · rw [listed, shaped.single]
        rfl
      · rw [shorter, before]

/-- A text of an array with one item, after two more texts were carried over. -/
def followedSession : Session :=
  endOf (Session.syncFromText "[3]") (endOf (Session.syncFromText "[1, 2]") (Session.openedOn "[1]"))

theorem undo_of_followed_twice : ∃ m first result s', followedSession.Followed {} [m, first] ∧
    Session.undo followedSession = .ok result s' ∧ result.status = .synced ∧ s'.text = "[1, 2]" ∧
      s'.Followed {} [first] ∧ s'.InStep ∧ ∃ image, CarriedOver s'.live m id image := by
  have ready : (Session.create {} "[1]" false).toOption.isSome = true ∧
      (Session.syncFromText "[1, 2]").comesTo (Session.openedOn "[1]")
        (fun result _ => decide (result.status = .synced)) = true ∧
      (Session.syncFromText "[3]").comesTo
        (endOf (Session.syncFromText "[1, 2]") (Session.openedOn "[1]"))
        (fun result _ => decide (result.status = .synced)) = true ∧
      Session.undo.comesTo followedSession (fun _ s' => decide (s'.text = "[1, 2]")) = true := by
    decide +kernel
  obtain ⟨parses, first, second, back⟩ := ready
  obtain ⟨s, created⟩ := Except.exists_ok parses
  have opened : (Session.openedOn "[1]").Followed {} [] := by
    rw [Session.openedOn, created]
    exact .opened created
  -- Each of the two texts is followed by a replay.
  have follow : ∀ {s : Session} {past : List Model} {text : String}, s.Followed {} past →
      (Session.syncFromText text).comesTo s (fun result _ => decide (result.status = .synced)) = true →
        (endOf (Session.syncFromText text) s).Followed {} (s.live :: past) := by
    intro s past text followed comes
    obtain ⟨result, s', ran, synced⟩ := EStateM.exists_ok comes
    rw [endOf, ran]
    exact .synced followed ran (of_decide_eq_true synced)
  have followed := follow (follow opened first) second
  obtain ⟨result, s', ran, text⟩ := EStateM.exists_ok back
  obtain ⟨synced, ⟨image, carried, -⟩, inStep, -, rest⟩ :=
    ((undo_of_followed followed ⟨rfl, blank_default, rfl⟩).2 _ _ rfl).2 result s' ran
  exact ⟨_, _, result, s', followed, ran, synced, of_decide_eq_true text, rest, inStep, image, carried⟩

end DocSync
