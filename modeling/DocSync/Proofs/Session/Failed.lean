import DocSync.Proofs.Session.InStep

/-!
Passes that fail or are given up. Whatever has stopped such a pass, it has stopped it before the first
edit of the live model: a text that is none of a document is not compared, change sets are checked as a
whole before they are replayed, and what was parsed is taken over in the end only.
-/

namespace DocSync

open Model

variable {s s' : Session} {fresh : Model} {changes : ChangeSet} {entries : List Entry} {e : Error}

namespace Session

/-! ### Replays that fail -/

section Replay

variable (calm : s.Calm) (sound : s.live.Sound)
include calm sound

/-- A replay under guard that fails leaves the session as it was, the guard included. -/
theorem eq_of_guarded_error {count : Nat}
    (solid : ∀ node, Entry.create node ∈ entries → node.id.isVoid = false)
    (failed : guarded count (quietHost.applyEntries entries) s = .error e s') : s' = s := by
  have entered : (calmHost.model { s with guard := s.guard.enter count }).Sound := sound
  unfold guarded at failed
  rw [(applyEntries_eq (s := { s with guard := s.guard.enter count }) calm entries).1] at failed
  -- A change set is checked as a whole, so one that fails has not been begun.
  cases ran : calmHost.applyEntries entries { s with guard := s.guard.enter count } with
  | ok applied s₁ =>
    rw [ran] at failed
    cases failed
  | error e₁ s₁ =>
    rw [ran] at failed
    cases failed
    obtain rfl := Host.eq_of_applyEntries_error quiet_calmHost entered solid ran
    -- The guard that was entered is left again.
    rfl

theorem eq_of_replay_error
    (solid : ∀ node, Entry.create node ∈ changes.entries → node.id.isVoid = false)
    (failed : replay changes s = .error e s') : s' = s := by
  unfold replay at failed
  cases empty : changes.isEmpty with
  | true =>
    rw [empty] at failed
    cases failed
  | false =>
    rw [empty] at failed
    -- What is put on record afterwards cannot fail.
    rcases EStateM.bind_eq_error_iff.1 failed with failed | ⟨applied, s₁, -, kept⟩
    · exact eq_of_guarded_error calm sound solid failed
    · cases kept

/-- If the live model cannot be led to a fresh parse, it stays where it was. -/
theorem eq_of_replayToward_error (soundFresh : fresh.Sound)
    (failed : replayToward fresh s = .error e s') : s' = s := by
  unfold replayToward at failed
  rw [EStateM.bind_get] at failed
  cases made : reconcile s.config s.live fresh with
  | error e₁ =>
    rw [made] at failed
    cases failed
    rfl
  | ok c =>
    rw [made] at failed
    change (replay c >>= fun _ => pure c) s = .error e s' at failed
    obtain failed | ⟨_, _, -, done⟩ := EStateM.bind_eq_error_iff.1 failed
    · exact eq_of_replay_error calm sound (solid_of_reconcile sound soundFresh made) failed
    · cases done

end Replay

/-! ### Passes that fail -/

/-- A pass failed, or was given up. -/
def NotThrough : EStateM.Result Error Session PassResult → Prop
  | .ok r _ => r.status = .unsynchronized
  | .error _ _ => True

instance : DecidablePred NotThrough
  | .ok r _ => inferInstanceAs (Decidable (r.status = .unsynchronized))
  | .error _ _ => inferInstanceAs (Decidable True)

/-- A session has stayed as it was, but for its text, for the ids it has handed out, and for whether it
takes itself to be synchronized. -/
def Untouched (s s' : Session) : Prop :=
  s' = { s with text := s'.text, supply := s'.supply, synchronized := s'.synchronized }

/-- Where the text is another one, or the last pass did not go through, the whole pass is run. -/
theorem syncFromText_eq_followText {text : String}
    (unlike : text = s.text → s.synchronized = false) :
    syncFromText text s = followText text s := by
  rw [syncFromText_eq, if_neg]
  rintro ⟨same, synchronized⟩
  rw [unlike same] at synchronized
  cases synchronized

section Passes

variable (calm : s.Calm) (sound : s.live.Sound)
include calm sound

/-- A text that could not be followed has changed nothing; the session has it just if it is none of a
document. The next time it is followed from the start. -/
theorem untouched_of_syncFromText {text : String} (failed : NotThrough (syncFromText text s)) :
    Untouched s (endOf (syncFromText text) s) ∧
      (endOf (syncFromText text) s).text =
        (match Model.build text s.config.sourceFile s.supply with
          | .ok _ => s.text
          | .error _ => text) ∧
      syncFromText text (endOf (syncFromText text) s) =
        followText text (endOf (syncFromText text) s) := by
  -- The text is another one, or the session has been out of step before.
  have before : text = s.text → s.synchronized = false := by
    intro same
    rw [syncFromText_eq] at failed
    split at failed
    · cases failed
    next unlike => simpa [same] using unlike
  have anew := syncFromText_eq_followText before
  have same : endOf (syncFromText text) s = endOf (followText text) s := by
    rw [endOf, endOf, anew]
  rw [anew] at failed
  rw [same]
  -- Each way in which a pass can end is looked at.
  have ends := followsText s text
  unfold endOf
  generalize followText text s = result at ends failed
  cases ends with
  | unreadable built =>
    rw [built]
    exact ⟨rfl, rfl, syncFromText_eq_followText fun _ => rfl⟩
  | @broken fresh count e s₁ built replayed =>
    rw [built]
    obtain rfl := eq_of_replayToward_error (s := { s with supply := count }) calm sound
      (sound_of_build built) replayed
    cases e.isFailure with
    | true => exact ⟨rfl, rfl, syncFromText_eq_followText fun _ => rfl⟩
    | false => exact ⟨rfl, rfl, syncFromText_eq_followText before⟩
  | @carried fresh count changes =>
    -- A pass that went through is neither failed nor given up.
    cases empty : changes.isEmpty <;> simp [NotThrough, empty] at failed

/-- A model that could not be followed has changed nothing. -/
theorem untouched_of_syncFromModel (failed : NotThrough (syncFromModel s)) :
    Untouched s (endOf syncFromModel s) ∧ (endOf syncFromModel s).text = s.text := by
  -- All that can fail comes before anything is taken over.
  have ends := followsModel s
  unfold endOf
  generalize syncFromModel s = result at ends failed
  cases ends with
  | incomparable | unpatchable | unrendered | unreadable => exact ⟨rfl, rfl⟩
  | idle | carried => cases failed
  | @broken changes patch fresh count e s₁ _ _ _ built replayed =>
    obtain rfl := eq_of_replayToward_error (s := { s with supply := count }) calm sound
      (sound_of_build built) replayed
    exact ⟨rfl, rfl⟩

end Passes

end Session

/-! ### All or nothing -/

/-- A pass in either direction that fails or is given up leaves the live model, the model read from the
text, the history, the guard and whatever else a session has as they were. It leaves the text, too,
unless it was asked to follow one that is none of a document. And a text that could not be followed is
followed again from the start when it comes a second time. -/
theorem untouched_of_notThrough (calm : s.Calm) (sound : s.live.Sound) :
    (∀ text, Session.NotThrough (Session.syncFromText text s) →
      s.Untouched (endOf (Session.syncFromText text) s) ∧
      (endOf (Session.syncFromText text) s).text =
        (match Model.build text s.config.sourceFile s.supply with
          | .ok _ => s.text
          | .error _ => text) ∧
      Session.syncFromText text (endOf (Session.syncFromText text) s) =
        Session.followText text (endOf (Session.syncFromText text) s)) ∧
    (Session.NotThrough (Session.syncFromModel s) →
      s.Untouched (endOf Session.syncFromModel s) ∧ (endOf Session.syncFromModel s).text = s.text) :=
  ⟨fun _ failed => Session.untouched_of_syncFromText calm sound failed,
    fun failed => Session.untouched_of_syncFromModel calm sound failed⟩

/-- The one item of an array was given a value that is none. -/
def spoiledSession : Session :=
  (Session.openedOn "[1]").editedBy [.setField "n4" valueName (some "x")]

theorem untouched_of_notThrough_spoiled :
    spoiledSession.Untouched (endOf (Session.syncFromText "[1") spoiledSession) ∧
      (endOf (Session.syncFromText "[1") spoiledSession).text = "[1" ∧
      spoiledSession.Untouched (endOf Session.syncFromModel spoiledSession) := by
  have ran : spoiledSession.Ran := Session.ran_openedOn (by decide +kernel) _
  obtain ⟨fromText, fromModel⟩ := untouched_of_notThrough (s := spoiledSession) ran.orderly.calm
    ran.orderly.sound
  refine ⟨(fromText "[1" (by decide +kernel)).1, by decide +kernel, (fromModel (by decide +kernel)).1⟩

/-- Where an edit has linked a node that a pass between its steps had destroyed, a pass from the text
fails after it has cut that link. -/
theorem not_untouched_of_notThrough : laidSession.Ran ∧ looseSession.Calm ∧
    Session.NotThrough (Session.syncFromText "[2]" looseSession) ∧
    (endOf (Session.syncFromText "[2]") looseSession).live ≠ looseSession.live := by
  obtain ⟨own, failed, changed⟩ : looseSession.observers = [.keeper, .journal] ∧
      Session.NotThrough (Session.syncFromText "[2]" looseSession) ∧
      (endOf (Session.syncFromText "[2]") looseSession).live ≠ looseSession.live := by
    decide +kernel
  refine ⟨.switched true (Session.ran_openedOn (by decide +kernel) _), fun number inside => ?_, failed,
    changed⟩
  rw [own] at inside
  simp at inside

end DocSync
