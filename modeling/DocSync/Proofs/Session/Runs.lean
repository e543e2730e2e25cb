import DocSync.Proofs.Session.Passes

/-!
The runs of a session: it is opened on a text, edited, and taken through passes, of which some may be
given up or fail. As long as no pass comes between the steps of an edit the session stays in order.
-/

namespace DocSync

open Model

variable {s s' : Session} {fresh : Model} {changes : ChangeSet}

namespace Session

/-! ### Passes keep a session in order -/

/-- The model of a text, and the ids handed out for it. -/
theorem buildModel_eq_ok_iff {text : String} : buildModel text s = .ok (.ok fresh) s' ↔
    ∃ count, Model.build text s.config.sourceFile s.supply = .ok (fresh, count) ∧
      s' = { s with supply := count } := by
  unfold buildModel
  cases Model.build text s.config.sourceFile s.supply with
  | ok built =>
    obtain ⟨m, count⟩ := built
    simp only [EStateM.Result.ok.injEq, Except.ok.injEq, Prod.mk.injEq]
    constructor
    · rintro ⟨rfl, rfl⟩
      exact ⟨count, ⟨rfl, rfl⟩, rfl⟩
    · rintro ⟨_, ⟨rfl, rfl⟩, rfl⟩
      exact ⟨rfl, rfl⟩
  | error e => simp

/-- A patch that was made is parsed afresh. -/
theorem built_of_patched {patch : Patch} (made : patched changes s = .ok (.ok (patch, fresh)) s') :
    ∃ count, Model.build patch.text s.config.sourceFile s.supply = .ok (fresh, count) ∧
      s' = { s with supply := count } := by
  obtain ⟨_, _, got, rest⟩ := EStateM.bind_eq_ok_iff.1 made
  cases got
  cases planned : (⟨s.config, s.text, s.read, s.live, changes⟩ : PatchTask).patch with
  | error e =>
    simp only [planned] at rest
    cases e <;> cases rest
  | ok patch' =>
    simp only [planned] at rest
    obtain ⟨result, _, built, done⟩ := EStateM.bind_eq_ok_iff.1 rest
    cases result with
    | error e => cases done
    | ok fresh' =>
      cases done
      exact buildModel_eq_ok_iff.1 built

theorem orderly_get : Agree Orderly (get : SessionStep Session) get := .of_ends fun _ orderly => orderly

theorem orderly_modify {f : Session → Session} (kept : ∀ s, s.Orderly → (f s).Orderly) :
    Agree Orderly (modify f : SessionStep Unit) (modify f) := .of_ends kept

/-- A change to what order is no matter of. -/
theorem Orderly.same (orderly : s.Orderly) (live : s'.live = s.live)
    (observers : s'.observers = s.observers) (history : s'.history = s.history) : s'.Orderly :=
  ⟨live ▸ orderly.sound, fun number => observers ▸ orderly.calm number, history ▸ orderly.solid⟩

theorem orderly_buildModel (text : String) : Agree Orderly (buildModel text) (buildModel text) := by
  refine .of_ends fun s orderly => ?_
  unfold endOf buildModel
  cases Model.build text s.config.sourceFile s.supply with
  | ok built => exact orderly.same rfl rfl rfl
  | error e => exact orderly

theorem orderly_patched (changes : ChangeSet) : Agree Orderly (patched changes) (patched changes) := by
  refine orderly_get.bind fun s => ?_
  dsimp only
  generalize (⟨s.config, s.text, s.read, s.live, changes⟩ : PatchTask).patch = planned
  cases planned with
  | ok patch => exact (orderly_buildModel _).bind fun _ => .pure _
  | error e => cases e <;> first | exact .pure _ | exact .throw _

theorem orderly_lift {α : Type} (result : Except Error α) : Agree Orderly (lift result) (lift result) := by
  cases result with
  | ok a => exact .pure a
  | error e => exact .throw e

theorem orderly_abandon (e : Error) (changes : Option ChangeSet) :
    Agree Orderly (abandon e changes) (abandon e changes) := by
  unfold abandon
  exact Agree.bind (orderly_modify fun _ orderly => orderly.same rfl rfl rfl) fun _ => .pure _

theorem orderly_takeOver (text : String) (fresh : Model) (idMap : List (NodeId × NodeId)) :
    Agree Orderly (takeOver text fresh idMap) (takeOver text fresh idMap) :=
  .of_ends fun s orderly => ⟨(sameForest_adopt fresh idMap s.live).sound orderly.sound, orderly.calm,
    orderly.solid⟩

theorem orderly_syncFromText (text : String) :
    Agree Orderly (syncFromText text) (syncFromText text) := by
  refine orderly_get.bind fun s => .ite (.pure _) ?_
  refine (orderly_buildModel text).bind_of_ok fun result made => ?_
  cases result with
  | error e =>
    exact Agree.bind (orderly_modify fun _ orderly => orderly.same rfl rfl rfl) fun _ =>
      orderly_abandon _ _
  | ok fresh =>
    obtain ⟨s₁, s₂, -, built⟩ := made
    obtain ⟨count, built, -⟩ := buildModel_eq_ok_iff.1 built
    have replays : Agree Orderly (replayToward fresh) (replayToward fresh) := .of_ends fun s orderly =>
      orderly_replayToward orderly (sound_of_build built)
    refine (replays.tryCatch fun e => ?_).bind fun changes =>
      (orderly_takeOver text fresh changes.idMap).bind fun _ => .pure _
    exact .ite (Agree.bind (orderly_modify fun _ orderly => orderly.same rfl rfl rfl) fun _ => .throw e)
      (.throw e)

theorem orderly_syncFromModel : Agree Orderly syncFromModel syncFromModel := by
  refine orderly_get.bind_of_ok fun s got => ?_
  obtain ⟨_, _, orderly, same⟩ := got
  cases same
  refine (orderly_lift _).bind fun changes => .ite ?_ ?_
  · exact Agree.bind (.of_ends fun _ _ => orderly.same rfl rfl rfl) fun _ => .pure _
  · refine (orderly_patched changes).bind_of_ok fun result made => ?_
    cases result with
    | error e => exact orderly_abandon _ _
    | ok both =>
      obtain ⟨patch, fresh⟩ := both
      obtain ⟨_, _, -, built⟩ := made
      obtain ⟨count, built, -⟩ := built_of_patched built
      have replays : Agree Orderly (replayToward fresh) (replayToward fresh) :=
        .of_ends fun s orderly => orderly_replayToward orderly (sound_of_build built)
      exact replays.bind fun echo => (orderly_takeOver _ _ _).bind fun _ =>
        Agree.bind (orderly_modify fun _ orderly => orderly.same rfl rfl rfl) fun _ => .pure _

theorem orderly_undo : Agree Orderly undo undo := by
  refine orderly_get.bind_of_ok fun s got => ?_
  obtain ⟨_, _, orderly, same⟩ := got
  cases same
  cases history : s.history with
  | nil => exact .pure _
  | cons applied earlier =>
    have popped : Agree Orderly (set { s with history := earlier } : SessionStep PUnit)
        (set { s with history := earlier }) := .of_ends fun _ _ => orderly.popped history
    refine popped.bind fun _ => Agree.bind (.discard ?_) fun _ => orderly_syncFromModel
    refine .of_ends fun s orderly => ?_
    obtain ⟨sound, stirred⟩ :=
      kept_guarded orderly.calm orderly.sound applied.inverses.length applied.inverses.reverse
    exact orderly.stirred stirred sound

/-! ### Edits keep a session in order -/

/-- Hearing of an edit may set off a pass. -/
theorem orderly_notifyOfEdit (event : Event) :
    Agree Orderly (notifyOfEdit event) (notifyOfEdit event) := by
  refine orderly_get.bind_of_ok fun s got => ?_
  obtain ⟨_, _, orderly, same⟩ := got
  cases same
  refine Agree.forM fun observer inside => ?_
  cases observer with
  | journal => exact orderly_modify fun _ orderly => orderly.same rfl rfl rfl
  | eager number => exact absurd inside (orderly.calm number)
  | keeper =>
    have kept : Agree Orderly keep keep := .of_ends fun s orderly => by
      obtain ⟨edited, s', kept, live, stirred⟩ := keep_eq s
      rw [endOf, kept]
      exact orderly.stirred stirred (live ▸ orderly.sound)
    exact kept.bind fun _ => orderly_get.bind fun _ => .ite orderly_syncFromModel.discard (.pure _)

end Session

namespace Call

/-- A call whose one edit is also the last thing that it does. -/
def isSingle : Call → Bool
  | create .. | delete _ | link .. | unlink .. | setField .. | appendChild .. | annotate ..
  | setEdges .. => true
  | insertAfter .. | detach _ | remove _ | apply _ => false

/-- Such a call has done its work before its listeners hear of it. -/
theorem exists_told {σ : Type} (h : Host Error σ) {call : Call} (single : call.isSingle = true) :
    ∃ act : EStateM Error σ (Option Event), ∀ notify,
      call.run (h.hearing notify) = act >>= fun told => told.elim (pure ()) notify := by
  -- The edit is made first, and what it tells is announced last.
  cases call with
  | insertAfter | detach | remove | apply => cases single
  | create id kind content =>
    refine ⟨do
      let given := id.getD .null
      let id ← if given.isVoid then h.newId else pure given
      let made ← h.edit (Model.createNode id kind content)
      return some made.2, fun notify => ?_⟩
    by_cases void : (id.getD .null).isVoid = true <;>
      simp only [run, Host.createNode, EStateM.discard_eq_bind, void, if_true, Bool.false_eq_true, if_false,
        bind_assoc, pure_bind, bind_pure_unit] <;> rfl
  | delete node =>
    refine ⟨do return some (← h.edit (Model.deleteNode (← h.lookup node))), fun notify => ?_⟩
    simp only [run, Host.deleteNode, bind_assoc, pure_bind]
    rfl
  | link parent slot child =>
    refine ⟨do
      let parent ← h.lookup parent
      return some (← h.edit (Model.link parent slot (← h.lookup child))), fun notify => ?_⟩
    simp only [run, Host.link, bind_assoc, pure_bind]
    rfl
  | unlink parent slot =>
    refine ⟨do
      let made ← h.edit (Model.unlink (← h.lookup parent) slot)
      return some made.2, fun notify => ?_⟩
    simp only [run, Host.unlink, EStateM.discard_eq_bind, bind_assoc, pure_bind, bind_pure_unit]
    rfl
  | setField node name value =>
    refine ⟨do return some (← h.edit (Model.setField (← h.lookup node) name value)), fun notify => ?_⟩
    simp only [run, Host.setField, bind_assoc, pure_bind]
    rfl
  | appendChild parent slot node =>
    refine ⟨do
      let parent ← h.lookup parent
      let node ← h.lookup node
      let m ← h.current
      return some (← h.edit ((m.childrenAt parent slot).getLast?.elim (Model.link parent slot node)
        fun last => Model.link last nextName node)), fun notify => ?_⟩
    simp only [run, Host.appendChild, Host.link, bind_assoc]
    change (h.lookup parent >>= fun _ => h.lookup node >>= fun _ => h.current >>= fun _ => _) = _
    refine bind_congr fun p => bind_congr fun n => bind_congr fun m => ?_
    cases (m.childrenAt p slot).getLast? <;> simp only [pure_bind] <;> rfl
  | annotate node frames origin =>
    refine ⟨do
      let k ← h.lookup node
      h.edit fun m => .ok () (m.update k fun n => { n with frames := frames, origin := origin })
      return none, fun notify => ?_⟩
    simp only [run, bind_assoc, pure_bind]
    rfl
  | setEdges leading trailing =>
    refine ⟨do
      h.edit fun m => .ok () (m.setEdges leading trailing)
      return none, fun notify => ?_⟩
    simp only [run, bind_assoc, pure_bind]
    rfl

end Call

namespace Session

section Edited

variable (orderly : s.Orderly) (call : Call)
include orderly

/-- A call before calm listeners keeps a session in order. -/
theorem orderly_calm : (endOf (call.run calmHost) s).Orderly := by
  have hears : calmHost.Hears note (Stirred s) := hears_of_each fun event observer _ =>
    .of_ends fun _ here => here.trans (stirred_heed event observer _)
  exact orderly.stirred (hears.call call s (.refl s)).2
    ((Call.runs quiet_calmHost call).sound_endOf orderly.sound)

/-- Where passes have to be asked for, a call is one before calm listeners. -/
theorem call_eq (manual : s.autoSync = false) : call.run host s = call.run calmHost s ∧
    Stirred s (endOf (call.run host) s) := by
  obtain ⟨same, stirred⟩ := (hears_ofEdit orderly.calm manual).call call s (.refl s)
  have same : call.run host s = call.run calmHost s := same
  refine ⟨same, ?_⟩
  rw [endOf] at stirred ⊢
  exact same ▸ stirred

/-- A call keeps a session in order if no pass comes between its steps: if passes have to be asked for,
or if the call has no more than one step. -/
theorem orderly_edited (whole : s.autoSync = false ∨ call.isSingle = true) :
    (endOf (call.run host) s).Orderly := by
  have calm := orderly_calm orderly call
  rcases whole with manual | single
  · rw [endOf] at calm ⊢
    rw [(call_eq orderly call manual).1]
    exact calm
  · obtain ⟨act, told⟩ := Call.exists_told calmHost single
    -- Both hosts do the call's own work in the same way, and tell of it in the end.
    have edited : call.run host = act >>= _ := told notifyOfEdit
    have noted : call.run calmHost = act >>= _ := told note
    rw [noted] at calm
    rw [edited]
    rw [endOf_bind] at calm ⊢
    cases acted : act s with
    | error e s₁ =>
      rw [acted] at calm
      exact calm
    | ok event? s₁ =>
      rw [acted] at calm
      cases event? with
      | none => exact calm
      | some event =>
        obtain ⟨s₂, heard, live, stirred⟩ := note_eq event s₁
        simp only [Option.elim_some, endOf, heard] at calm
        -- The pass, if one follows, starts where the call's own work has ended.
        have before : s₁.Orderly := calm.same live.symm stirred.observers.symm stirred.history.symm
        exact (orderly_notifyOfEdit event s₁ before).2

end Edited

/-! ### Runs -/

end Session

/-- A pass that is asked for. -/
inductive Pass where
  | fromText (text : String)
  | fromModel
  | undo
  deriving DecidableEq, Inhabited

/-- A pass carried out. -/
def Pass.run : Pass → SessionStep PassResult
  | fromText text => Session.syncFromText text
  | fromModel => Session.syncFromModel
  | undo => Session.undo

namespace Session

/-- What a session can come to. It is opened on a text; it is edited by calls and taken through passes,
of which some may fail or be given up; passes may follow edits of their own, if each of these edits is
a single step or leaves the session in order all the same; and listeners may come and go that do not ask
for passes. -/
inductive Ran : Session → Prop
  | opened {config : Config} {text : String} {autoSync : Bool} {s : Session} :
    create config text autoSync = .ok s → Ran s
  | edited {s : Session} (call : Call) :
    s.autoSync = false ∨ call.isSingle = true ∨ (endOf (call.run host) s).Orderly → Ran s →
    Ran (endOf (call.run host) s)
  | passed {s : Session} (pass : Pass) : Ran s → Ran (endOf pass.run s)
  | switched {s : Session} (on : Bool) : Ran s → Ran { s with autoSync := on }
  | attended {s : Session} (observers : List Observer) :
    (∀ number, Observer.eager number ∉ observers) → Ran s → Ran { s with observers := observers }

/-- The session that was opened has two models of its text. -/
theorem built_of_create {config : Config} {text : String} {autoSync : Bool}
    (opened : create config text autoSync = .ok s) : ∃ count,
      Model.build text config.sourceFile 0 = .ok (s.read, count) ∧
      Model.build text config.sourceFile count = .ok (s.live, s.supply) ∧
      s = { config, text, read := s.read, live := s.live, supply := s.supply, autoSync } := by
  simp only [create, bind, Except.bind] at opened
  -- The text is built twice, and the second model takes up the supply of the first.
  cases first : Model.build text config.sourceFile 0 with
  | error e => simp [first] at opened
  | ok built =>
    obtain ⟨read, count⟩ := built
    simp only [first] at opened
    cases second : Model.build text config.sourceFile count with
    | error e => simp [second] at opened
    | ok built =>
      obtain ⟨live, supply⟩ := built
      simp only [second] at opened
      cases opened
      exact ⟨count, rfl, second, rfl⟩

/-- Whatever a session comes to is in order. -/
theorem Ran.orderly (ran : Ran s) : s.Orderly := by
  induction ran with
  | opened created =>
    obtain ⟨count, -, built, same⟩ := built_of_create created
    rw [same]
    -- A session opens with a model of its text, with listeners of its own, and with nothing to take back.
    exact ⟨sound_of_build built, fun number inside => by simp at inside,
      fun _ inside => nomatch inside⟩
  | edited call whole _ orderly =>
    rcases whole with manual | single | after
    · exact orderly_edited orderly call (.inl manual)
    · exact orderly_edited orderly call (.inr single)
    · exact after
  | passed pass _ orderly =>
    cases pass with
    | fromText text => exact (orderly_syncFromText text _ orderly).2
    | fromModel => exact (orderly_syncFromModel _ orderly).2
    | undo => exact (orderly_undo _ orderly).2
  | switched on _ orderly => exact orderly.same rfl rfl rfl
  | attended observers calm _ orderly => exact ⟨orderly.sound, calm, orderly.solid⟩

/-- What a session comes to by calls. -/
def editedBy (s : Session) (calls : List Call) : Session :=
  calls.foldl (fun s call => endOf (call.run host) s) s

/-- Any calls may follow one another where passes have to be asked for. -/
theorem Ran.editedBy (ran : Ran s) (manual : s.autoSync = false) (calls : List Call) :
    Ran (s.editedBy calls) := by
  induction calls generalizing s with
  | nil => exact ran
  | cons call rest ih =>
    exact ih (.edited call (.inl manual) ran)
      ((call_eq ran.orderly call manual).2.autoSync.trans manual)

/-- The ids to come are in use nowhere, and nothing will be brought back under one of them. -/
structure Unspent (s : Session) : Prop where
  live : ∀ {k n}, s.live.Holds k → s.supply < n → (s.live.node k).id ≠ freshId n
  history : ∀ applied ∈ s.history, ∀ node, Entry.create node ∈ applied.inverses → ∀ {n},
    s.supply < n → node.id ≠ freshId n

/-- A session that was opened has used no id but those it has handed out. -/
theorem unspent_of_create {config : Config} {text : String} {autoSync : Bool}
    (opened : create config text autoSync = .ok s) : s.Unspent where
  live held later id := by
    obtain ⟨count, -, built, -⟩ := built_of_create opened
    obtain ⟨n, -, bound, id'⟩ := Build.handed_of_build built held
    have := Build.freshId_injective (id'.symm.trans id)
    omega
  history applied inside := by
    obtain ⟨count, -, -, same⟩ := built_of_create opened
    rw [same] at inside
    cases inside

end Session

end DocSync
