import DocSync.Proofs.Change.Unchanged
import DocSync.Proofs.Session.InStep

/-!
Passes that find nothing to do. Whatever happens to a session, the model that it keeps of its text is a
parse of the text that was last carried over, and as long as the session takes itself to be synchronized
this is the text that it has. So a pass that compares a model and finds no difference has found that
this model shows the text.
-/

namespace DocSync

open Model

variable {s s' : Session} {m fresh : Model} {changes : ChangeSet} {entries : List Entry}
  {text : String} {file : Json}

/-- A text is that of a document, whatever ids are handed out for it, and a model has the snapshot of
this document. -/
def Model.ShowsText (m : Model) (text : String) (file : Json) : Prop :=
  ∀ supply, ∃ fresh count, Model.build text file supply = .ok (fresh, count) ∧
    ∀ indent, m.snapshot.text indent = fresh.snapshot.text indent

/-- What has the snapshot of one parse of a text shows the text. -/
theorem Model.ShowsText.of_build {supply count : Nat}
    (built : Model.build text file supply = .ok (fresh, count))
    (same : ∀ indent, m.snapshot.text indent = fresh.snapshot.text indent) : m.ShowsText text file := by
  intro supply'
  -- The parses of one text differ in ids alone, and a snapshot shows none.
  obtain ⟨tree, parsed, spelled⟩ := Build.spelled_of_build built
  obtain ⟨fresh', count', built', spelled'⟩ := Build.build_eq parsed supply'
  obtain ⟨carry, image, copied, -⟩ := spelled.exists_copied spelled'
  obtain ⟨r, single, -⟩ := spelled'.single
  refine ⟨fresh', count', built', fun indent => ?_⟩
  rw [same, copied.text_eq spelled.sound spelled'.sound single]

namespace Session

/-! ### What the text is known to be -/

/-- The model that is kept of the text is a parse of a text, and while the session takes itself to be
synchronized it is a parse of the session's own text. -/
def Grounded (s : Session) : Prop :=
  ∃ text supply count, Model.build text s.config.sourceFile supply = .ok (s.read, count) ∧
    (s.synchronized = true → s.text = text)

/-- The same text is kept, and the same model of it. -/
structure Anchored (s s' : Session) : Prop where
  config : s'.config = s.config
  text : s'.text = s.text
  read : s'.read = s.read
  synchronized : s'.synchronized = s.synchronized

namespace Anchored

variable {s'' : Session}

theorem refl (s : Session) : Anchored s s := ⟨rfl, rfl, rfl, rfl⟩

theorem trans (first : Anchored s s') (second : Anchored s' s'') : Anchored s s'' where
  config := second.config.trans first.config
  text := second.text.trans first.text
  read := second.read.trans first.read
  synchronized := second.synchronized.trans first.synchronized

theorem grounded (anchored : Anchored s s') (grounded : s.Grounded) : s'.Grounded := by
  obtain ⟨text, supply, count, built, same⟩ := grounded
  refine ⟨text, supply, count, ?_, fun synchronized => ?_⟩
  · rw [anchored.config, anchored.read]
    exact built
  · rw [anchored.text]
    exact same (anchored.synchronized ▸ synchronized)

end Anchored

theorem Stirred.anchored (stirred : Stirred s s') : Anchored s s' :=
  ⟨stirred.config, stirred.text, stirred.read, stirred.synchronized⟩

/-- Whoever listens in a pass, a replay keeps the text. -/
theorem hears_anchored (s₀ : Session) : quietHost.Hears notifyInPass (Anchored s₀) where
  withModel _ here := here.trans ⟨rfl, rfl, rfl, rfl⟩
  withSupply here := here.trans ⟨rfl, rfl, rfl, rfl⟩
  notify event := by
    refine Agree.bind (.of_ends fun _ here => here) fun s => Agree.forM fun observer _ => ?_
    cases observer with
    | keeper => exact .of_ends fun s here => here.trans (stirred_heed event .keeper s).anchored
    | journal => exact .of_ends fun _ here => here.trans ⟨rfl, rfl, rfl, rfl⟩
    | eager number => exact .throw _

theorem anchored_guarded (s : Session) (count : Nat) (entries : List Entry) :
    Anchored s (endOf (guarded count (quietHost.applyEntries entries)) s) := by
  obtain ⟨-, anchored⟩ := (hears_anchored s).applyEntries entries
    { s with guard := s.guard.enter count } ⟨rfl, rfl, rfl, rfl⟩
  rw [endOf_guarded]
  exact anchored.trans ⟨rfl, rfl, rfl, rfl⟩

theorem anchored_replay (changes : ChangeSet) (s : Session) : Anchored s (endOf (replay changes) s) := by
  unfold replay
  cases changes.isEmpty with
  | true => exact .refl s
  | false =>
    change Anchored s (endOf (guarded changes.size (quietHost.applyEntries changes.entries) >>=
      fun applied => modify fun s => { s with history := applied :: s.history }) s)
    have anchored := anchored_guarded s changes.size changes.entries
    rw [endOf] at anchored
    rw [endOf_bind]
    cases replayed : guarded changes.size (quietHost.applyEntries changes.entries) s with
    | error e s₁ =>
      rw [replayed] at anchored
      exact anchored
    | ok applied s₁ =>
      rw [replayed] at anchored
      exact anchored.trans ⟨rfl, rfl, rfl, rfl⟩

theorem anchored_replayToward (fresh : Model) (s : Session) :
    Anchored s (endOf (replayToward fresh) s) := by
  change Anchored s (endOf (lift (reconcile s.config s.live fresh) >>= fun changes =>
    replay changes >>= fun _ => pure changes) s)
  rw [endOf_bind]
  cases reconcile s.config s.live fresh with
  | error e => exact .refl s
  | ok changes =>
    change Anchored s (endOf (replay changes >>= fun _ => pure changes) s)
    rw [endOf_bind_pure]
    exact anchored_replay changes s

/-! ### Passes keep it known -/

theorem grounded_followText (text : String) : Agree Grounded (followText text) (followText text) := by
  refine .of_ends fun s grounded => ?_
  have ends := followsText s text
  unfold endOf
  generalize followText text s = result at ends
  -- The text that was built last is the one that is known, or the session counts as out of step.
  cases ends with
  | unreadable =>
    obtain ⟨text', supply, count, built, -⟩ := grounded
    exact ⟨text', supply, count, built, fun synchronized => absurd synchronized Bool.false_ne_true⟩
  | @broken fresh count e s₁ _ replayed =>
    have anchored := anchored_replayToward fresh { s with supply := count }
    rw [endOf, replayed] at anchored
    obtain ⟨text', supply, count, built, same⟩ := anchored.grounded grounded
    cases e.isFailure with
    | true => exact ⟨text', supply, count, built, fun synchronized => absurd synchronized Bool.false_ne_true⟩
    | false => exact ⟨text', supply, count, built, same⟩
  | @carried fresh count changes s₁ built replayed =>
    have anchored := anchored_replayToward fresh { s with supply := count }
    rw [endOf, replayed] at anchored
    exact ⟨text, s.supply, count, anchored.config ▸ built, fun _ => rfl⟩

theorem grounded_syncFromText (text : String) :
    Agree Grounded (syncFromText text) (syncFromText text) := by
  refine .of_ends fun s grounded => ?_
  have followed := (grounded_followText text s grounded).2
  unfold endOf at followed ⊢
  have passed := syncFromText_eq text s
  by_cases settled : text = s.text ∧ s.synchronized = true
  · rw [if_pos settled] at passed
    rw [passed]
    exact grounded
  · rw [if_neg settled] at passed
    rw [passed]
    exact followed

theorem grounded_syncFromModel : Agree Grounded syncFromModel syncFromModel := by
  refine .of_ends fun s grounded => ?_
  have ends := followsModel s
  unfold endOf
  generalize syncFromModel s = result at ends
  -- A pass that gets as far as the replay has built the text it shows.
  cases ends with
  | incomparable | unpatchable | idle => exact grounded
  | unrendered | unreadable =>
    obtain ⟨text, supply, count, built, -⟩ := grounded
    exact ⟨text, supply, count, built, fun synchronized => absurd synchronized Bool.false_ne_true⟩
  | @broken changes patch fresh count e s₁ _ _ _ _ replayed =>
    have anchored := anchored_replayToward fresh { s with supply := count }
    rw [endOf, replayed] at anchored
    exact anchored.grounded grounded
  | @carried changes patch fresh count echo s₁ _ _ _ built replayed =>
    have anchored := anchored_replayToward fresh { s with supply := count }
    rw [endOf, replayed] at anchored
    exact ⟨patch.text, s.supply, count, anchored.config ▸ built, fun _ => rfl⟩

theorem grounded_undo : Agree Grounded undo undo := by
  refine Agree.bind_of_ok (.of_ends fun _ grounded => grounded) fun s got => ?_
  obtain ⟨_, _, grounded, same⟩ := got
  cases same
  cases s.history with
  | nil => exact .pure _
  | cons applied earlier =>
    have popped : Agree Grounded (set { s with history := earlier } : SessionStep PUnit)
        (set { s with history := earlier }) := .of_ends fun _ _ => grounded
    refine popped.bind fun _ => Agree.bind (.discard ?_) fun _ => grounded_syncFromModel
    exact .of_ends fun s grounded =>
      (anchored_guarded s applied.inverses.length applied.inverses.reverse).grounded grounded

theorem grounded_pass (pass : Pass) : Agree Grounded pass.run pass.run := by
  cases pass with
  | fromText text => exact grounded_syncFromText text
  | fromModel => exact grounded_syncFromModel
  | undo => exact grounded_undo

/-! ### Runs with whatever listeners -/

/-- What a session can come to, whoever listens. It is opened on a text; its live model is changed, from
outside or by the steps of an edit, and ids are handed out; listeners take notice of events; passes are
made, also between the steps of an edit; and listeners come and go. -/
inductive Came : Session → Prop
  | opened {config : Config} {text : String} {autoSync : Bool} {s : Session} :
    create config text autoSync = .ok s → Came s
  | changed {s : Session} (live : Model) (supply : Nat) : Came s →
    Came { s with live := live, supply := supply }
  | heeded {s : Session} (event : Event) (observer : Observer) : Came s →
    Came (endOf (heed event observer) s)
  | passed {s : Session} (pass : Pass) : Came s → Came (endOf pass.run s)
  | switched {s : Session} (on : Bool) : Came s → Came { s with autoSync := on }
  | attended {s : Session} (observers : List Observer) : Came s → Came { s with observers := observers }

namespace Came

theorem grounded (came : Came s) : s.Grounded := by
  -- Only passes touch the text and its model.
  induction came with
  | opened created =>
    obtain ⟨count, built, -, same⟩ := built_of_create created
    rw [same]
    exact ⟨_, 0, count, built, fun _ => rfl⟩
  | changed | switched | attended => assumption
  | heeded event observer _ grounded => exact (stirred_heed event observer _).anchored.grounded grounded
  | passed pass _ grounded => exact (grounded_pass pass _ grounded).2

/-- The listeners at an edit make no step of their own. -/
theorem hears : host.Hears notifyOfEdit Came where
  withModel m came := came.changed m _
  withSupply came := came.changed _ _
  notify event := by
    refine Agree.bind (.of_ends fun _ came => came) fun s => Agree.forM fun observer _ => ?_
    have synced : Agree Came (discard syncFromModel) (discard syncFromModel) :=
      Agree.discard (.of_ends fun _ came => came.passed .fromModel)
    cases observer with
    | keeper =>
      have kept : Agree Came keep keep := .of_ends fun s came => by
        have heeded := came.heeded event .keeper
        change Came (endOf (discard keep) s) at heeded
        rwa [endOf_discard] at heeded
      exact kept.bind fun _ => Agree.bind (.of_ends fun _ came => came) fun _ => .ite synced (.pure _)
    | journal => exact .of_ends fun _ came => came.heeded event .journal
    | eager number => exact synced

/-- A call is made of such steps. -/
theorem call (came : Came s) (call : Call) : Came (endOf (call.run host) s) :=
  (hears.call call s came).2

end Came

theorem Ran.came (ran : Ran s) : Came s := by
  induction ran with
  | opened created => exact .opened created
  | edited call _ _ came => exact came.call call
  | passed pass _ came => exact came.passed pass
  | switched on _ came => exact came.switched on
  | attended observers _ _ came => exact came.attended observers

/-! ### Passes that find nothing to do -/

section Unchanged

variable (grounded : s.Grounded) {r : PassResult}
include grounded

/-- While a session takes itself to be synchronized, the model that it keeps shows its text. -/
theorem Grounded.showsText (synchronized : s.synchronized = true) :
    s.read.ShowsText s.text s.config.sourceFile := by
  -- The model that is kept is a parse of this very text.
  obtain ⟨text, supply, count, built, same⟩ := grounded
  rw [same synchronized]
  exact .of_build built fun _ => rfl

omit grounded in
/-- A text that was followed without any change is shown by the live model. -/
theorem showsText_of_followText (sound : s.live.Sound) (ran : followText text s = .ok r s')
    (unchanged : r.status = .unchanged) : s'.text = text ∧ s'.synchronized = true ∧
      s'.read.ShowsText text s'.config.sourceFile ∧ s'.live.ShowsText text s'.config.sourceFile := by
  have ends := followsText s text
  rw [ran] at ends
  cases ends with
  | unreadable => cases unchanged
  | @carried fresh count changes s₁ built replayed =>
    have empty : changes.isEmpty = true := by
      by_contra differ
      rw [if_neg differ] at unchanged
      cases unchanged
    -- Nothing was replayed, and the parse has only been taken over.
    obtain ⟨made, kept⟩ := replayToward_eq_ok_iff.1 replayed
    cases kept.symm.trans (replay_of_isEmpty empty)
    have soundFresh := sound_of_build built
    obtain ⟨tree, parsed, spelled⟩ := Build.spelled_of_build built
    obtain ⟨root, single, -⟩ := spelled.single
    obtain ⟨image, carried, -⟩ :=
      (tells_of_reconcile sound soundFresh made).carriedOver_of_isEmpty empty sound soundFresh
    have copied := carried.copied_adopt sound (fun _ => rfl) soundFresh
    have soundLive := (sameForest_adopt fresh changes.idMap s.live).sound sound
    exact ⟨rfl, rfl, .of_build built fun _ => rfl,
      .of_build built (copied.text_eq soundLive soundFresh single)⟩

/-- A live model without any difference from the model that is kept of the text shows the text, if the
session takes itself to be synchronized. -/
theorem showsText_of_syncFromModel (sound : s.live.Sound) (synchronized : s.synchronized = true)
    (ran : syncFromModel s = .ok r s') (unchanged : r.status = .unchanged) :
    s' = { s with dirty := false } ∧ s'.live.ShowsText s'.text s'.config.sourceFile := by
  have ends := followsModel s
  rw [ran] at ends
  cases ends with
  | unrendered | unreadable | carried => cases unchanged
  | @idle changes made idle =>
    refine ⟨rfl, ?_⟩
    obtain ⟨text, supply, count, built, same⟩ := grounded
    -- No change between two models means that their snapshots agree, record by record.
    have records := records_eq_of_isEmpty (sound_of_build built) sound made idle.1
    change s.live.ShowsText s.text s.config.sourceFile
    rw [same synchronized]
    refine .of_build built fun indent => ?_
    rw [Snapshot.text, Snapshot.lines, ← records]
    rfl

end Unchanged

end Session

/-- Whoever listens to a session and whatever has happened to it, a pass that finds nothing to do has
compared what it says it has. A pass from a text has found that this is the text of a document; either
it is the text that was last carried over, and then it is not followed again and the live model is not
looked at, or the live model shows it. A pass from the model has found that the live model shows the
session's text, unless the last pass had been given up. -/
theorem showsText_of_unchanged (came : s.Came) (sound : s.live.Sound) {r : PassResult} :
    (∀ text, Session.syncFromText text s = .ok r s' → r.status = .unchanged →
      s'.text = text ∧ s'.synchronized = true ∧ s'.read.ShowsText text s'.config.sourceFile ∧
        if text = s.text ∧ s.synchronized = true then s' = s
        else s'.live.ShowsText text s'.config.sourceFile) ∧
    (Session.syncFromModel s = .ok r s' → r.status = .unchanged → s.synchronized = true →
      s' = { s with dirty := false } ∧ s'.live.ShowsText s'.text s'.config.sourceFile) := by
  refine ⟨fun text ran unchanged => ?_, fun ran unchanged synchronized =>
    Session.showsText_of_syncFromModel came.grounded sound synchronized ran unchanged⟩
  rw [Session.syncFromText_eq] at ran
  by_cases settled : text = s.text ∧ s.synchronized = true
  · rw [if_pos settled] at ran
    cases ran
    rw [if_pos settled]
    obtain ⟨rfl, synchronized⟩ := settled
    exact ⟨rfl, synchronized, came.grounded.showsText synchronized, rfl⟩
  · rw [if_neg settled] at ran ⊢
    exact Session.showsText_of_followText sound ran unchanged

theorem showsText_of_unchanged_opened :
    (∃ r s', Session.syncFromText "[ 1]" (Session.openedOn "[1]") = .ok r s' ∧ r.status = .unchanged ∧
      s'.live.ShowsText "[ 1]" s'.config.sourceFile) ∧
    ∃ r s', Session.syncFromModel (Session.openedOn "[1]") = .ok r s' ∧ r.status = .unchanged ∧
      s'.live.ShowsText s'.text s'.config.sourceFile := by
  have ran : (Session.openedOn "[1]").Ran := Session.ran_openedOn (by decide +kernel) []
  constructor
  · obtain ⟨r, s', passed, done⟩ := EStateM.exists_ok (s := Session.openedOn "[1]")
      (x := Session.syncFromText "[ 1]") (p := fun r _ => decide (r.status = .unchanged))
      (by decide +kernel)
    have unchanged := of_decide_eq_true done
    obtain ⟨-, -, -, shows_⟩ :=
      (showsText_of_unchanged ran.came ran.orderly.sound).1 "[ 1]" passed unchanged
    rw [if_neg (by decide +kernel)] at shows_
    exact ⟨r, s', passed, unchanged, shows_⟩
  · obtain ⟨r, s', passed, done⟩ := EStateM.exists_ok (s := Session.openedOn "[1]")
      (x := Session.syncFromModel) (p := fun r _ => decide (r.status = .unchanged)) (by decide +kernel)
    have unchanged := of_decide_eq_true done
    exact ⟨r, s', passed, unchanged,
      ((showsText_of_unchanged ran.came ran.orderly.sound).2 passed unchanged (by decide +kernel)).2⟩

/-- The one item of an array was given another value, and no pass has followed. -/
def editedSession : Session :=
  (Session.openedOn "[1]").editedBy [.setField "n4" valueName (some "2")]

/-- The text that was last carried over is not compared with a live model that was edited since. -/
theorem not_showsText_of_unchanged : editedSession.Ran ∧
    ∃ r s', Session.syncFromText "[1]" editedSession = .ok r s' ∧ r.status = .unchanged ∧
      ¬ s'.live.ShowsText s'.text s'.config.sourceFile := by
  refine ⟨Session.ran_openedOn (by decide +kernel) _, ?_⟩
  obtain ⟨r, s', passed, done⟩ := EStateM.exists_ok (s := editedSession)
    (x := Session.syncFromText "[1]") (p := fun r s' => decide (r.status = .unchanged ∧
      (Model.build s'.text s'.config.sourceFile 0).toOption.map (fun built =>
        built.1.snapshot.text none) ≠ some (s'.live.snapshot.text none))) (by decide +kernel)
  obtain ⟨unchanged, differ⟩ := of_decide_eq_true done
  refine ⟨r, s', passed, unchanged, fun shows_ => differ ?_⟩
  obtain ⟨fresh, count, built, same⟩ := shows_ 0
  rw [built, same]
  rfl

end DocSync
