import DocSync.Proofs.Session.Failed
import DocSync.Proofs.Session.Undone

/-!
Undos that fail. The replay to be taken back leaves the record before anything else is done, so an undo
that fails has used it up: the text and what was read from it are as they were, and so is the live model
if the way back was refused, but the next undo is about the replay before.
-/

namespace DocSync

open Model

variable {s s' : Session} {e : Error}

namespace Session

/-! ### Replays that anyone may hear of -/

/-- Whoever hears of an event during a pass, and though it may stop the pass, it touches little. -/
theorem hears_asIs (s : Session) : quietHost.Hears notifyInPass (Stirred s) where
  withModel _ here := here.trans ⟨rfl, rfl, rfl, rfl, rfl, rfl, rfl, Nat.le_refl _⟩
  withSupply here := here.trans ⟨rfl, rfl, rfl, rfl, rfl, rfl, rfl, Nat.le_succ _⟩
  notify event := by
    refine (Agree.of_ends fun _ here => here).bind fun s₁ => Agree.forM fun observer _ => ?_
    cases observer with
    | keeper => exact .of_ends fun s₂ here => here.trans (stirred_heed event .keeper s₂)
    | journal => exact .of_ends fun s₂ here => here.trans (stirred_heed event .journal s₂)
    | eager number => exact .throw _

/-- However a replay under guard ends, and whoever hears of it, little else is touched. -/
theorem stirred_guarded (count : Nat) (entries : List Entry) (s : Session) :
    Stirred s (endOf (guarded count (quietHost.applyEntries entries)) s) := by
  have entered : Stirred s { s with guard := s.guard.enter count } :=
    ⟨rfl, rfl, rfl, rfl, rfl, rfl, rfl, Nat.le_refl _⟩
  rw [endOf_guarded]
  exact (((hears_asIs s).applyEntries entries _ entered).2).trans
    ⟨rfl, rfl, rfl, rfl, rfl, rfl, rfl, Nat.le_refl _⟩

theorem stirred_takenBack (applied : Applied) (s : Session) :
    Stirred s (endOf (guarded applied.inverses.length (quietHost.undo applied)) s) :=
  stirred_guarded applied.inverses.length applied.inverses.reverse s

/-- A way to a fresh parse that could not be gone has not gone on record. -/
theorem stirred_of_replayToward_error {fresh : Model} (failed : replayToward fresh s = .error e s') :
    Stirred s s' := by
  unfold replayToward at failed
  rw [EStateM.bind_get] at failed
  cases made : reconcile s.config s.live fresh with
  | error e₁ =>
    -- The models could not be compared, and nothing has been begun.
    rw [made] at failed
    cases failed
    exact .refl s
  | ok changes =>
    rw [made] at failed
    change (replay changes >>= fun _ => pure changes) s = .error e s' at failed
    obtain failed | ⟨_, _, -, done⟩ := EStateM.bind_eq_error_iff.1 failed
    · unfold replay at failed
      cases empty : changes.isEmpty with
      | true =>
        -- Where there is nothing to do, nothing fails.
        rw [empty] at failed
        cases failed
      | false =>
        rw [empty] at failed
        -- The replay itself has failed: once it is done, it is put on record, and that does not fail.
        obtain failed | ⟨_, _, -, kept⟩ := EStateM.bind_eq_error_iff.1 failed
        · have stirred := stirred_guarded changes.size changes.entries s
          rwa [endOf, failed] at stirred
        · cases kept
    · cases done

/-- A pass from the model that fails leaves the text, what was read from it, and the record alone. -/
theorem kept_of_syncFromModel_error (failed : syncFromModel s = .error e s') :
    s'.text = s.text ∧ s'.read = s.read ∧ s'.history = s.history := by
  have ends := followsModel s
  rw [failed] at ends
  cases ends with
  | incomparable | unpatchable => exact ⟨rfl, rfl, rfl⟩
  | @broken _ _ _ count _ _ _ _ _ _ replayed =>
    have stirred := stirred_of_replayToward_error replayed
    exact ⟨stirred.text, stirred.read, stirred.history⟩

/-! ### How an undo fails -/

/-- How an undo fails. -/
inductive UndoFails (s : Session) (e : Error) (s' : Session) : Prop
  /-- The latest replay cannot be taken back. -/
  | refused (applied : Applied) (earlier : List Applied) : s.history = applied :: earlier →
    guarded applied.inverses.length (quietHost.undo applied) { s with history := earlier } = .error e s' →
    UndoFails s e s'
  /-- It is taken back, and then the live model cannot be followed. -/
  | unfollowed (applied back : Applied) (earlier : List Applied) (s₁ : Session) :
    s.history = applied :: earlier →
    guarded applied.inverses.length (quietHost.undo applied) { s with history := earlier } = .ok back s₁ →
    syncFromModel s₁ = .error e s' → UndoFails s e s'

theorem undoFails (failed : undo s = .error e s') : UndoFails s e s' := by
  cases history : s.history with
  | nil =>
    -- With nothing on record an undo does not fail.
    unfold undo at failed
    rw [EStateM.bind_get] at failed
    simp only [history] at failed
    cases failed
  | cons applied earlier =>
    -- The record is cut first; what fails is the way back, or the pass behind it.
    rw [undo_eq history, EStateM.discard_eq_bind] at failed
    obtain failed | ⟨_, s₁, taken, failed⟩ := EStateM.bind_eq_error_iff.1 failed
    · obtain failed | ⟨_, _, -, done⟩ := EStateM.bind_eq_error_iff.1 failed
      · exact .refused applied earlier history failed
      · cases done
    · obtain ⟨back, _, taken, done⟩ := EStateM.bind_eq_ok_iff.1 taken
      cases done
      exact .unfollowed applied back earlier s₁ history taken failed

/-- Edits leave the record alone where passes have to be asked for. -/
theorem history_editedBy (orderly : s.Orderly) (manual : s.autoSync = false) (calls : List Call) :
    (s.editedBy calls).history = s.history := by
  induction calls generalizing s with
  | nil => rfl
  | cons call rest ih =>
    -- An edit starts no pass of its own, and only passes and undos write the record.
    have stirred := (call_eq orderly call manual).2
    exact (ih (orderly_edited orderly call (.inl manual)) (stirred.autoSync.trans manual)).trans
      stirred.history

end Session

/-- An undo that fails leaves the text and the model read from it as they were, whatever state the session
is in and whoever hears of events, but the replay that was to be taken back is no longer on record. In a
session in order, nothing else is touched if that replay could not be taken back from the live model; if
it could, the live model is left without it. And when nothing else was on record, no repair of the live
model makes it possible to take the replay back: the next undo finds nothing to do. -/
theorem spent_of_undo (failed : Session.undo s = .error e s') :
    ∃ applied, s.history = applied :: s'.history ∧ s'.text = s.text ∧ s'.read = s.read ∧
      (s.Orderly →
        ((∀ m, ¬ DoesAll s.live applied.inverses.reverse m) → s' = { s with history := s'.history }) ∧
        (∀ m, DoesAll s.live applied.inverses.reverse m → s'.live = m) ∧
        (s'.history = [] → s'.autoSync = false → ∀ calls,
          Session.undo (s'.editedBy calls) = .ok { status := .unchanged } (s'.editedBy calls))) := by
  have after : s.Orderly → s'.Orderly := fun orderly => by
    have orderly' := (Session.orderly_undo s orderly).2
    rwa [endOf, failed] at orderly'
  have finished : s.Orderly → s'.history = [] → s'.autoSync = false → ∀ calls,
      Session.undo (s'.editedBy calls) = .ok { status := .unchanged } (s'.editedBy calls) := by
    intro orderly none_ manual calls
    have still : (s'.editedBy calls).history = [] :=
      (Session.history_editedBy (after orderly) manual calls).trans none_
    unfold Session.undo
    rw [EStateM.bind_get]
    simp only [still]
    rfl
  cases Session.undoFails failed with
  | refused applied earlier history refused =>
    have stirred := Session.stirred_takenBack applied { s with history := earlier }
    rw [endOf, refused] at stirred
    have kept : s'.history = earlier := stirred.history
    refine ⟨applied, kept ▸ history, stirred.text, stirred.read, fun orderly => ?_⟩
    have popped := orderly.popped history
    -- The way back is checked as a whole before it is gone, so nothing of it has been done.
    obtain rfl := Session.eq_of_guarded_error popped.calm popped.sound
      (fun node inside => orderly.solid applied (history ▸ List.mem_cons_self) node
        (List.mem_reverse.1 inside)) refused
    -- Nor can it have been a way that the live model allows: that one would have been gone.
    refine ⟨fun _ => rfl, fun m does => ?_, finished orderly⟩
    obtain ⟨_, _, taken, -⟩ := Session.exists_guarded popped.calm popped.sound applied.inverses.length does
    cases refused.symm.trans taken
  | unfollowed applied back earlier s₁ history taken unfollowed =>
    have stirred := Session.stirred_takenBack applied { s with history := earlier }
    rw [endOf, taken] at stirred
    obtain ⟨text, read, record⟩ := Session.kept_of_syncFromModel_error unfollowed
    have kept : s'.history = earlier := record.trans stirred.history
    refine ⟨applied, kept ▸ history, text.trans stirred.text, read.trans stirred.read, fun orderly => ?_⟩
    -- The pass that follows fails before it changes the live model once more.
    have does := Session.doesAll_of_takenBack orderly history taken
    have calm : s₁.Calm := fun number => stirred.observers ▸ orderly.calm number
    obtain ⟨untouched, -⟩ := Session.untouched_of_syncFromModel calm (does.sound orderly.sound)
      (by rw [unfollowed]; trivial)
    rw [endOf, unfollowed] at untouched
    have same : s' = { s₁ with text := s'.text, supply := s'.supply, synchronized := s'.synchronized } :=
      untouched
    have live : s'.live = s₁.live := by rw [same]
    exact ⟨fun none_ => absurd does (none_ _),
      fun m does' => live.trans (does.unique orderly.sound does'), finished orderly⟩

/-- A second item was carried over to the array, and then the editor has cut it off. -/
def cutSession : Session :=
  (endOf (Session.syncFromText "[1, 2]") (Session.openedOn "[1]")).editedBy [.detach "n7"]

theorem ran_cutSession : cutSession.Ran :=
  .editedBy (.passed (.fromText "[1, 2]") (Session.ran_openedOn (by decide +kernel) []))
    (by decide +kernel) _

/-- What has been cut off cannot be taken out of the array, and afterwards there is nothing to undo. -/
theorem spent_of_undo_cut : cutSession.Ran ∧ ∃ e s', Session.undo cutSession = .error e s' ∧
    s'.text = cutSession.text ∧ s'.read = cutSession.read ∧
    (∃ applied, cutSession.history = [applied]) ∧
    Session.undo (s'.editedBy [.link "n4" nextName "n7"]) =
      .ok { status := .unchanged } (s'.editedBy [.link "n4" nextName "n7"]) := by
  have fails : Session.undo.breaksAt cutSession (fun _ s' =>
      decide (s'.history = [] ∧ s'.autoSync = false)) = true := by decide +kernel
  obtain ⟨e, s', failed, nothing⟩ := EStateM.exists_error fails
  obtain ⟨none_, manual⟩ := of_decide_eq_true nothing
  obtain ⟨applied, record, text, read, rest⟩ := spent_of_undo failed
  obtain ⟨-, -, finished⟩ := rest ran_cutSession.orderly
  exact ⟨ran_cutSession, e, s', failed, text, read, ⟨applied, none_ ▸ record⟩, finished none_ manual _⟩

/-- If the cut is mended, the replay can be taken back; but not once an undo has failed in between. -/
theorem not_kept_of_undo : cutSession.Ran ∧
    (∃ r s', Session.undo (cutSession.editedBy [.link "n4" nextName "n7"]) = .ok r s' ∧
      r.status = .synced ∧ s'.text = "[1]") ∧
    ∃ e s', Session.undo cutSession = .error e s' ∧ s'.history ≠ cutSession.history ∧
      ∃ r s'', Session.undo (s'.editedBy [.link "n4" nextName "n7"]) = .ok r s'' ∧
        r.status = .unchanged ∧ s''.text = "[1, 2]" := by
  -- The same edit mends the cut before and after the failed undo.
  have mended : Session.undo.comesTo (cutSession.editedBy [.link "n4" nextName "n7"]) (fun r s' =>
      decide (r.status = .synced ∧ s'.text = "[1]")) = true := by decide +kernel
  have fails : Session.undo.breaksAt cutSession (fun _ s' => decide (s'.history ≠ cutSession.history) &&
      Session.undo.comesTo (s'.editedBy [.link "n4" nextName "n7"]) (fun r s'' =>
        decide (r.status = .unchanged ∧ s''.text = "[1, 2]"))) = true := by decide +kernel
  obtain ⟨r, s', undone, shown⟩ := EStateM.exists_ok mended
  obtain ⟨e, s₁, failed, both⟩ := EStateM.exists_error fails
  obtain ⟨other, again⟩ := (Bool.and_eq_true _ _).mp both
  obtain ⟨r', s₂, idle, same⟩ := EStateM.exists_ok again
  exact ⟨ran_cutSession, ⟨r, s', undone, of_decide_eq_true shown⟩, e, s₁, failed,
    of_decide_eq_true other, r', s₂, idle, of_decide_eq_true same⟩

end DocSync
