import DocSync.Proofs.Change.Adoption
import DocSync.Proofs.Change.Idle
import DocSync.Proofs.Change.Undo
import DocSync.Proofs.Model.Built
import DocSync.Proofs.Session.Hosts

/-!
What the parts of a pass do to a session that nobody interferes with: the replay under guard, the way
from the live model to a fresh parse, and the taking over of what was parsed.
-/

namespace DocSync

open Model

variable {s s' : Session} {fresh : Model} {changes : ChangeSet} {entries : List Entry}

namespace Session

/-! ### Replays under guard -/

section Guarded

variable {α : Type} {replay : SessionStep α} {count : Nat}

theorem guarded_eq_ok_iff {a : α} : guarded count replay s = .ok a s' ↔
    ∃ s₁, replay { s with guard := s.guard.enter count } = .ok a s₁ ∧
      s' = { s₁ with guard := s₁.guard.leave } := by
  unfold guarded
  cases replay { s with guard := s.guard.enter count } with
  | ok b s₁ => simp [eq_comm]
  | error e s₁ => simp

/-- A guard is left as soon as the replay has ended, in whatever way. -/
theorem endOf_guarded : endOf (guarded count replay) s =
    { endOf replay { s with guard := s.guard.enter count } with
      guard := (endOf replay { s with guard := s.guard.enter count }).guard.leave } := by
  unfold endOf guarded
  cases replay { s with guard := s.guard.enter count } <;> rfl

end Guarded

section Calm

variable (calm : s.Calm) (sound : s.live.Sound)
include calm

/-- A replay in a pass is one before calm listeners. -/
theorem applyEntries_eq (entries : List Entry) :
    quietHost.applyEntries entries s = calmHost.applyEntries entries s ∧
      Stirred s (endOf (quietHost.applyEntries entries) s) := by
  obtain ⟨same, stirred⟩ := (hears_inPass calm).applyEntries entries s (.refl s)
  refine ⟨same, ?_⟩
  rw [endOf] at stirred ⊢
  exact same ▸ stirred

include sound

/-- However a replay under guard ends, it leaves a sound live model, and little else is touched. -/
theorem kept_guarded (count : Nat) (entries : List Entry) :
    (endOf (guarded count (quietHost.applyEntries entries)) s).live.Sound ∧
      Stirred s (endOf (guarded count (quietHost.applyEntries entries)) s) := by
  have entered : Stirred s { s with guard := s.guard.enter count } :=
    ⟨rfl, rfl, rfl, rfl, rfl, rfl, rfl, Nat.le_refl _⟩
  -- The guard is entered and left around the replay, which only counts echoes.
  obtain ⟨same, stirred⟩ := applyEntries_eq (s := { s with guard := s.guard.enter count }) calm entries
  have runs := (Host.Runs.applyEntries quiet_calmHost entries).sound_endOf
    (s := { s with guard := s.guard.enter count }) sound
  rw [endOf, ← same] at runs
  rw [endOf_guarded]
  exact ⟨runs, (entered.trans stirred).trans ⟨rfl, rfl, rfl, rfl, rfl, rfl, rfl, Nat.le_refl _⟩⟩

/-- What was replayed under guard had nothing in its way. -/
theorem retraces_of_guarded {count : Nat} {applied : Applied}
    (solid : ∀ node, Entry.create node ∈ entries → node.id.isVoid = false)
    (ran : guarded count (quietHost.applyEntries entries) s = .ok applied s') :
    Retraces s.live entries applied.inverses s'.live := by
  obtain ⟨s₁, applies, rfl⟩ := guarded_eq_ok_iff.1 ran
  rw [(applyEntries_eq (s := { s with guard := s.guard.enter count }) calm entries).1] at applies
  have entered : (calmHost.model { s with guard := s.guard.enter count }).Sound := sound
  exact (Host.retraces_of_applyEntries quiet_calmHost entered solid applies).2

end Calm

/-! ### Sessions in order -/

/-- A session that passes can rely on: its live model is sound, nobody asks for a pass after an event,
and what would be brought back when a replay is taken back has ids to be brought back under. -/
structure Orderly (s : Session) : Prop where
  sound : s.live.Sound
  calm : s.Calm
  solid : ∀ applied ∈ s.history, ∀ node, Entry.create node ∈ applied.inverses → node.id.isVoid = false

/-- Order is a matter of the live model, of the listeners and of the history. -/
theorem Orderly.stirred (orderly : s.Orderly) (stirred : Stirred s s') (sound : s'.live.Sound) :
    s'.Orderly where
  sound := sound
  calm number := stirred.observers ▸ orderly.calm number
  solid := stirred.history ▸ orderly.solid

/-- A replay may leave the record. -/
theorem Orderly.popped (orderly : s.Orderly) {applied : Applied} {earlier : List Applied}
    (history : s.history = applied :: earlier) : Orderly { s with history := earlier } :=
  ⟨orderly.sound, orderly.calm, fun a inside =>
    orderly.solid a (history ▸ List.mem_cons_of_mem _ inside)⟩

section Replay

variable (orderly : s.Orderly)
  (solid : ∀ node, Entry.create node ∈ changes.entries → node.id.isVoid = false)
include orderly solid

/-- A replay leaves the session in order, whether it succeeds or fails. -/
theorem orderly_replay : (endOf (replay changes) s).Orderly := by
  unfold replay
  cases changes.isEmpty with
  | true => exact orderly
  | false =>
    obtain ⟨sound, stirred⟩ := kept_guarded orderly.calm orderly.sound changes.size changes.entries
    change (endOf (guarded changes.size (quietHost.applyEntries changes.entries) >>= fun applied =>
      modify fun s => { s with history := applied :: s.history }) s).Orderly
    rw [endOf] at sound stirred
    rw [endOf_bind]
    -- The history is only added to when the replay is over.
    cases replayed : guarded changes.size (quietHost.applyEntries changes.entries) s with
    | error e s₁ =>
      rw [replayed] at sound stirred
      exact orderly.stirred stirred sound
    | ok applied s₁ =>
      rw [replayed] at sound stirred
      have before := orderly.stirred stirred sound
      have retraces := retraces_of_guarded orderly.calm orderly.sound solid replayed
      exact ⟨sound, before.calm,
        List.forall_mem_cons.2 ⟨retraces.solid orderly.sound, before.solid⟩⟩

omit orderly solid in
/-- Without entries there is nothing to replay. -/
theorem replay_of_isEmpty (empty : changes.isEmpty = true) : replay changes s = .ok () s := by
  unfold replay
  rw [empty]
  rfl

/-- A replay goes on record, with what it takes to take it back. -/
theorem replay_recorded (some_ : changes.isEmpty = false) (ran : replay changes s = .ok () s') :
    ∃ applied s₁, Stirred s s₁ ∧ s' = { s₁ with history := applied :: s.history } ∧
      Retraces s.live changes.entries applied.inverses s₁.live := by
  unfold replay at ran
  rw [some_] at ran
  obtain ⟨applied, s₁, replayed, kept⟩ := EStateM.bind_eq_ok_iff.1 ran
  obtain ⟨-, stirred⟩ := kept_guarded orderly.calm orderly.sound changes.size changes.entries
  rw [endOf, replayed] at stirred
  cases kept
  refine ⟨applied, s₁, stirred, ?_, retraces_of_guarded orderly.calm orderly.sound solid replayed⟩
  rw [← stirred.history]

/-- A change set that was replayed had nothing in its way. -/
theorem replay_spec (ran : replay changes s = .ok () s') : s'.Orderly ∧ s'.config = s.config ∧
    DoesAll s.live changes.entries s'.live := by
  have after := orderly_replay orderly solid
  rw [endOf, ran] at after
  refine ⟨after, ?_⟩
  cases empty : changes.isEmpty with
  | true =>
    cases ran.symm.trans (replay_of_isEmpty empty)
    rw [List.isEmpty_iff.1 empty]
    exact ⟨rfl, .nil _⟩
  | false =>
    obtain ⟨applied, s₁, stirred, rfl, retraces⟩ := replay_recorded orderly solid empty ran
    exact ⟨stirred.config, retraces.doesAll⟩

end Replay

/-! ### From the live model to a fresh parse -/

/-- What a reconciliation creates has the ids of nodes of the fresh model. -/
theorem solid_of_reconcile {config : Config} {old : Model} (soundOld : old.Sound)
    (soundFresh : fresh.Sound) (made : reconcile config old fresh = .ok changes) :
    ∀ node, Entry.create node ∈ changes.entries → node.id.isVoid = false := by
  intro node inside
  obtain ⟨k, held, -, id, -⟩ :=
    (tells_of_reconcile soundOld soundFresh made).exists_created inside
  exact id ▸ soundFresh.solid held

/-- The way to a fresh parse is the replay of a reconciliation with it. -/
theorem replayToward_eq_ok_iff : replayToward fresh s = .ok changes s' ↔
    reconcile s.config s.live fresh = .ok changes ∧ replay changes s = .ok () s' := by
  unfold replayToward
  rw [EStateM.bind_get]
  -- Nothing is replayed unless the two models could be compared.
  cases made : reconcile s.config s.live fresh with
  | error e =>
    refine ⟨fun ran => ?_, fun both => nomatch both.1⟩
    obtain ⟨_, _, lifted, _⟩ := EStateM.bind_eq_ok_iff.1 ran
    cases lifted
  | ok c =>
    show (replay c >>= fun _ => pure c) s = _ ↔ _
    rw [EStateM.bind_eq_ok_iff]
    constructor
    · rintro ⟨_, _, ran, done⟩
      cases done
      exact ⟨rfl, ran⟩
    · rintro ⟨same, ran⟩
      obtain rfl := Except.ok.inj same
      exact ⟨(), s', ran, rfl⟩

section Toward

variable (orderly : s.Orderly) (soundFresh : fresh.Sound)
include orderly soundFresh

theorem orderly_replayToward : (endOf (replayToward fresh) s).Orderly := by
  change (endOf (lift (reconcile s.config s.live fresh) >>= fun changes => replay changes >>= fun _ =>
    pure changes) s).Orderly
  rw [endOf_bind]
  cases made : reconcile s.config s.live fresh with
  | error e => exact orderly
  | ok changes =>
    change (endOf (replay changes >>= fun _ => pure changes) s).Orderly
    rw [endOf_bind_pure]
    exact orderly_replay orderly (solid_of_reconcile orderly.sound soundFresh made)

/-- Once the change set to a fresh parse was replayed, the live model is the fresh one carried over, as
long as the two have no ids in common beforehand. -/
theorem replayToward_spec
    (apart : ∀ {a b}, s.live.Holds a → fresh.Holds b → s.live.nameOf a ≠ fresh.nameOf b)
    (ran : replayToward fresh s = .ok changes s') : s'.Orderly ∧ s'.config = s.config ∧
      (∃ indent, s.config.givenSnapshotIndent = .ok indent) ∧
      ∃ image, CarriedOver s'.live fresh changes.carry image := by
  obtain ⟨made, replayed⟩ := replayToward_eq_ok_iff.1 ran
  -- The replay is the one that the change set describes, so it ends where that one does.
  have tells := tells_of_reconcile orderly.sound soundFresh made
  obtain ⟨after, config, does⟩ :=
    replay_spec orderly (solid_of_reconcile orderly.sound soundFresh made) replayed
  obtain ⟨m, image, does', -, carried, -⟩ := tells.exists_replayed orderly.sound soundFresh apart
  obtain rfl := does.unique orderly.sound does'
  exact ⟨after, config, exists_givenSnapshotIndent made, image, carried⟩

end Toward

end Session

end DocSync
