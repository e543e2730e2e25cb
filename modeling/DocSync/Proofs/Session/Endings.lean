import DocSync.Proofs.Session.Runs

/-!
The ways in which a pass can end. Each of them is told with all that has led to it and with the state
that it leaves behind, so that what is true of every pass can be read off case by case.
-/

namespace DocSync

open Model

variable {s s' : Session} {fresh : Model} {changes : ChangeSet} {text : String}

namespace Session

/-- The session that has taken a text and a fresh parse of it over. -/
def taken (s : Session) (text : String) (fresh : Model) (idMap : List (NodeId × NodeId)) : Session :=
  { s with
    live := (s.live.adopt fresh idMap).1, text := text, read := fresh, synchronized := true }

/-! ### Passes from the text -/

/-- A pass from the text without the question whether the text is the one that was last carried over. -/
def followText (text : String) : SessionStep PassResult := do
  match ← buildModel text with
  | .error e =>
    modify fun s => { s with text := text }
    abandon e none
  | .ok fresh =>
    let changes ← tryCatch (replayToward fresh) fun e => do
      if e.isFailure then modify fun s => { s with synchronized := false }
      throw e
    takeOver text fresh changes.idMap
    return { status := if changes.isEmpty then .unchanged else .synced, changes := some changes }

/-- The text that was last carried over is not followed again. -/
theorem syncFromText_eq (text : String) (s : Session) : syncFromText text s =
    if text = s.text ∧ s.synchronized = true then .ok { status := .unchanged } s
    else followText text s := by
  show (if text = s.text ∧ s.synchronized = true then _ else followText text) s = _
  split <;> rfl

/-- How a text is followed. -/
inductive FollowsText (s : Session) (text : String) : EStateM.Result Error Session PassResult → Prop
  /-- The text is none of a document. -/
  | unreadable {e : Error} : Model.build text s.config.sourceFile s.supply = .error e →
    FollowsText s text (.ok { status := .unsynchronized, error := some e }
      { s with text := text, synchronized := false })
  /-- The change set cannot be had, or not be replayed. -/
  | broken {fresh : Model} {count : Nat} {e : Error} {s₁ : Session} :
    Model.build text s.config.sourceFile s.supply = .ok (fresh, count) →
    replayToward fresh { s with supply := count } = .error e s₁ →
    FollowsText s text (.error e (if e.isFailure then { s₁ with synchronized := false } else s₁))
  /-- The live model has come to show the text. -/
  | carried {fresh : Model} {count : Nat} {changes : ChangeSet} {s₁ : Session} :
    Model.build text s.config.sourceFile s.supply = .ok (fresh, count) →
    replayToward fresh { s with supply := count } = .ok changes s₁ →
    FollowsText s text (.ok
      { status := if changes.isEmpty then .unchanged else .synced, changes := some changes }
      (s₁.taken text fresh changes.idMap))

theorem followsText (s : Session) (text : String) : FollowsText s text (followText text s) := by
  unfold followText
  cases built : Model.build text s.config.sourceFile s.supply with
  | error e =>
    have read : buildModel text s = .ok (.error e) s := by rw [buildModel, built]
    rw [EStateM.bind_of_ok read]
    exact .unreadable built
  | ok made =>
    obtain ⟨fresh, count⟩ := made
    rw [EStateM.bind_of_ok (buildModel_eq_ok_iff.2 ⟨count, built, rfl⟩)]
    cases replayed : replayToward fresh { s with supply := count } with
    | ok changes s₁ =>
      show FollowsText s text ((tryCatch _ _ >>= _ : SessionStep PassResult) _)
      rw [EStateM.bind_of_ok (EStateM.tryCatch_of_ok replayed _)]
      exact .carried built replayed
    | error e s₁ =>
      have broken := FollowsText.broken built replayed
      show FollowsText s text ((tryCatch _ _ >>= _ : SessionStep PassResult) _)
      -- Only a failure of the session's own kind is put down.
      cases failure : e.isFailure with
      | true =>
        rw [failure] at broken
        rw [EStateM.bind_of_error ((EStateM.tryCatch_of_error replayed _).trans (by rw [failure]; rfl))]
        exact broken
      | false =>
        rw [failure] at broken
        rw [EStateM.bind_of_error ((EStateM.tryCatch_of_error replayed _).trans (by rw [failure]; rfl))]
        exact broken

/-! ### Passes from the model -/

/-- The live model has not been changed since its text was last read. -/
def Idle (s : Session) (changes : ChangeSet) : Prop :=
  changes.isEmpty = true ∧ s.live.givenLeading.alike s.read.givenLeading = true ∧
    s.live.givenTrailing.alike s.read.givenTrailing = true

instance (s : Session) (changes : ChangeSet) : Decidable (s.Idle changes) :=
  inferInstanceAs (Decidable (_ ∧ _ ∧ _))

/-- What the text is asked to take up. -/
def patchTask (s : Session) (changes : ChangeSet) : PatchTask :=
  ⟨s.config, s.text, s.read, s.live, changes⟩

/-- How the live model is followed. -/
inductive FollowsModel (s : Session) : EStateM.Result Error Session PassResult → Prop
  /-- The change set cannot be had. -/
  | incomparable {e : Error} : reconcile s.config s.read s.live = .error e →
    FollowsModel s (.error e s)
  /-- There is nothing to do. -/
  | idle {changes : ChangeSet} : reconcile s.config s.read s.live = .ok changes → s.Idle changes →
    FollowsModel s (.ok { status := .unchanged, changes := some changes } { s with dirty := false })
  /-- The text cannot take the changes up. -/
  | unpatchable {changes : ChangeSet} {e : Error} : reconcile s.config s.read s.live = .ok changes →
    ¬ s.Idle changes → (s.patchTask changes).patch = .error e → (∀ r, e ≠ .render r) →
    FollowsModel s (.error e s)
  /-- The changed part of the model cannot be rendered. -/
  | unrendered {changes : ChangeSet} {r : RenderError} : reconcile s.config s.read s.live = .ok changes →
    ¬ s.Idle changes → (s.patchTask changes).patch = .error (.render r) →
    FollowsModel s (.ok
      { status := .unsynchronized, changes := some changes, error := some (.render r) }
      { s with synchronized := false })
  /-- The patched text is none of a document. -/
  | unreadable {changes : ChangeSet} {patch : Patch} {e : Error} :
    reconcile s.config s.read s.live = .ok changes → ¬ s.Idle changes →
    (s.patchTask changes).patch = .ok patch →
    Model.build patch.text s.config.sourceFile s.supply = .error e →
    FollowsModel s (.ok { status := .unsynchronized, changes := some changes, error := some e }
      { s with synchronized := false })
  /-- The live model cannot be led to the parse of the patched text. -/
  | broken {changes : ChangeSet} {patch : Patch} {fresh : Model} {count : Nat} {e : Error}
    {s₁ : Session} : reconcile s.config s.read s.live = .ok changes → ¬ s.Idle changes →
    (s.patchTask changes).patch = .ok patch →
    Model.build patch.text s.config.sourceFile s.supply = .ok (fresh, count) →
    replayToward fresh { s with supply := count } = .error e s₁ → FollowsModel s (.error e s₁)
  /-- The text has come to show the live model. -/
  | carried {changes : ChangeSet} {patch : Patch} {fresh : Model} {count : Nat} {echo : ChangeSet}
    {s₁ : Session} : reconcile s.config s.read s.live = .ok changes → ¬ s.Idle changes →
    (s.patchTask changes).patch = .ok patch →
    Model.build patch.text s.config.sourceFile s.supply = .ok (fresh, count) →
    replayToward fresh { s with supply := count } = .ok echo s₁ →
    FollowsModel s (.ok { status := .synced, changes := some changes, patch := some patch }
      { s₁.taken patch.text fresh echo.idMap with dirty := false })

theorem followsModel (s : Session) : FollowsModel s (syncFromModel s) := by
  unfold syncFromModel
  rw [EStateM.bind_get]
  -- The pass goes on from step to step, and each failure is an ending of its own.
  cases compared : reconcile s.config s.read s.live with
  | error e => exact .incomparable compared
  | ok changes =>
    show FollowsModel s ((if s.Idle changes then _ else _ : SessionStep PassResult) s)
    by_cases idle : s.Idle changes
    · rw [if_pos idle]
      exact .idle compared idle
    rw [if_neg idle]
    cases planned : (s.patchTask changes).patch with
    | error e =>
      by_cases render : ∃ r, e = .render r
      · obtain ⟨r, rfl⟩ := render
        have unrendered : patched changes s = .ok (.error (.render r)) s := by
          rw [patched, EStateM.bind_get]
          simp only [show (⟨s.config, s.text, s.read, s.live, changes⟩ : PatchTask).patch = _ from planned]
          rfl
        rw [EStateM.bind_of_ok unrendered]
        exact .unrendered compared idle planned
      · have other : ∀ r, e ≠ .render r := fun r same => render ⟨r, same⟩
        have unpatchable : patched changes s = .error e s := by
          rw [patched, EStateM.bind_get]
          simp only [show (⟨s.config, s.text, s.read, s.live, changes⟩ : PatchTask).patch = _ from planned]
          cases e <;> first | exact absurd rfl (other _) | rfl
        rw [EStateM.bind_of_error unpatchable]
        exact .unpatchable compared idle planned other
    | ok patch =>
      have read : patched changes s = (do
          return (← buildModel patch.text).map fun fresh => (patch, fresh) : SessionStep _) s := by
        rw [patched, EStateM.bind_get]
        simp only [show (⟨s.config, s.text, s.read, s.live, changes⟩ : PatchTask).patch = _ from planned]
      cases built : Model.build patch.text s.config.sourceFile s.supply with
      | error e =>
        have unreadable : buildModel patch.text s = .ok (.error e) s := by rw [buildModel, built]
        rw [EStateM.bind_of_ok (read.trans (EStateM.bind_of_ok unreadable _))]
        exact .unreadable compared idle planned built
      | ok made =>
        obtain ⟨fresh, count⟩ := made
        have parsed := buildModel_eq_ok_iff.2 ⟨count, built, rfl⟩
        rw [EStateM.bind_of_ok (read.trans (EStateM.bind_of_ok parsed _))]
        cases replayed : replayToward fresh { s with supply := count } with
        | error e s₁ =>
          show FollowsModel s ((replayToward fresh >>= _ : SessionStep PassResult) _)
          rw [EStateM.bind_of_error replayed]
          exact .broken compared idle planned built replayed
        | ok echo s₁ =>
          show FollowsModel s ((replayToward fresh >>= _ : SessionStep PassResult) _)
          rw [EStateM.bind_of_ok replayed]
          exact .carried compared idle planned built replayed

end Session

end DocSync
