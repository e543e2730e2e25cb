import DocSync.Proofs.Change.Unchanged
import DocSync.Proofs.Patch.Shaped
import DocSync.Proofs.Session.InStep

/-!
Passes from a live model that stands for a document. Such a pass is not given up: the text takes the
model's changes up, and the parse of the patched text shows what the live model shows already. So nothing
is replayed, and the live model only takes over where its nodes stand.
-/

namespace DocSync

open Model

variable {s : Session} {r : Key}

/-- Settings that say nothing but what they have fields for, under which only blanks are added to
generated text, and a text that cannot take changes up is written anew. -/
structure Config.Plain (config : Config) : Prop where
  plain : config.strays = []
  blank : config.Blank
  fallback : config.allowFullRender = true

namespace Session

/-- The model that is kept of the text is a parse of it. -/
def Reads (s : Session) : Prop :=
  ∃ supply count, Model.build s.text s.config.sourceFile supply = .ok (s.read, count)

/-- How a live model that stands for a document is followed. -/
inductive FollowsDocument (s : Session) : EStateM.Result Error Session PassResult → Prop
  /-- The search for a new label was given up, or the number of a line has more digits than a numeral
  may have. -/
  | incomparable {e : Error} : reconcile s.config s.read s.live = .error e →
    (∃ id limit, e = .collision id limit) ∨ 10 ^ Text.maxDigits ≤ labelRoom s.config s.read s.live →
    FollowsDocument s (.error e s)
  /-- There is nothing to do. -/
  | idle {changes : ChangeSet} : reconcile s.config s.read s.live = .ok changes → s.Idle changes →
    FollowsDocument s (.ok { status := .unchanged, changes := some changes } { s with dirty := false })
  /-- The text has come to show the live model, and there is nothing to replay. -/
  | carried {changes : ChangeSet} {patch : Patch} {fresh : Model} {count : Nat} {echo : ChangeSet} :
    reconcile s.config s.read s.live = .ok changes → ¬ s.Idle changes →
    Model.build patch.text s.config.sourceFile s.supply = .ok (fresh, count) →
    reconcile s.config s.live fresh = .ok echo → echo.isEmpty = true →
    FollowsDocument s (.ok { status := .synced, changes := some changes, patch := some patch }
      { taken { s with supply := count } patch.text fresh echo.idMap with dirty := false })

/-- A live model that stands for a document is followed to its end, unless it cannot be compared. -/
theorem followsDocument (reads : s.Reads) (sound : s.live.Sound) (shaped : s.live.DocumentShaped r)
    (notPair : (s.live.node r).kind ≠ .pair) (config : s.config.Plain) :
    FollowsDocument s (syncFromModel s) := by
  obtain ⟨supply, count, built⟩ := reads
  obtain ⟨top, readFrom⟩ := exists_readFrom built
  obtain ⟨indent, given⟩ : ∃ indent, s.config.givenSnapshotIndent = .ok indent :=
    ⟨_, by simp [Config.givenSnapshotIndent, config.plain]; rfl⟩
  -- A comparison that was made lets the text be patched, and the patch says what the model is.
  have patched : ∀ {changes}, reconcile s.config s.read s.live = .ok changes →
      ∃ patch fresh count echo, (s.patchTask changes).patch = .ok patch ∧
        Model.build patch.text s.config.sourceFile s.supply = .ok (fresh, count) ∧
        reconcile s.config s.live fresh = .ok echo ∧ echo.isEmpty = true ∧
        replayToward fresh { s with supply := count } = .ok echo { s with supply := count } := by
    intro changes made
    have ready : PatchTask.Ready (s.patchTask changes) :=
      ⟨⟨⟨readFrom.sound, sound, tells_of_reconcile readFrom.sound sound made⟩, readFrom.seated⟩,
        shaped.toFurnished, config.blank.generates⟩
    obtain ⟨patch, shape, patched, readAs, shapes⟩ :=
      ready.exists_patch readFrom config.blank shaped notPair config.fallback
    obtain ⟨fresh, count, top', parsed, single, same⟩ :=
      readAs.exists_built s.config.sourceFile s.supply
    obtain ⟨echo, compared, empty⟩ := exists_reconcile_of_shapes sound (sound_of_build parsed)
      shaped.single single given (by
        rw [shapes_of_single shaped.single, shapes_of_single single, same]
        exact shapes)
    -- The way to the parse is no way at all.
    exact ⟨patch, fresh, count, echo, patched, parsed, compared, empty,
      replayToward_eq_ok_iff.2 ⟨compared, replay_of_isEmpty empty⟩⟩
  have ends := followsModel s
  generalize syncFromModel s = result at ends
  cases ends with
  | incomparable failed =>
    exact .incomparable failed (collision_of_reconcile readFrom.sound sound config.plain failed)
  | idle made idle => exact .idle made idle
  | unpatchable made _ failed =>
    obtain ⟨patch, _, _, _, patched, -⟩ := patched made
    cases failed.symm.trans patched
  | unrendered made _ failed =>
    obtain ⟨patch, _, _, _, patched, -⟩ := patched made
    cases failed.symm.trans patched
  | unreadable made _ planned failed =>
    obtain ⟨patch, fresh, count, _, patched, parsed, -⟩ := patched made
    cases planned.symm.trans patched
    cases failed.symm.trans parsed
  | broken made _ planned built replayed =>
    obtain ⟨patch, fresh, count, echo, patched, parsed, -, -, stays⟩ := patched made
    cases planned.symm.trans patched
    cases built.symm.trans parsed
    cases replayed.symm.trans stays
  | carried made idle planned built replayed =>
    obtain ⟨patch, fresh, count, echo, patched, parsed, compared, empty, stays⟩ := patched made
    cases planned.symm.trans patched
    cases built.symm.trans parsed
    cases replayed.symm.trans stays
    exact .carried made idle parsed compared empty

end Session

end DocSync
