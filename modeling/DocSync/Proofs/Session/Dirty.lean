import DocSync.Proofs.Session.InStep

/-!
What the dirty mark of a session tells. A session marks itself when it hears of an event that is none of
its own doing, and it counts the events of its replays to know them. A log that is kept beside the session
says which edits were told of and how passes ended, also of passes that an event of an edit sets off while
the edit goes on; and the mark is read off this log.
-/

namespace DocSync

open Session

/-- What can be said of a session: an edit of the live model was told of, or a pass has ended. A pass that
failed has no outcome. -/
inductive Happening where
  | edit
  | passed (pass : Pass) (outcome : Option PassResult)
  deriving DecidableEq, Inhabited

namespace Happening

/-- A pass that was not given up, and did not fail. -/
def Succeeded : Happening → Prop
  | passed _ (some result) => result.succeeded = true
  | passed _ none => False
  | edit => False

instance : DecidablePred Succeeded
  | passed _ (some result) => inferInstanceAs (Decidable (result.succeeded = true))
  | passed _ none | edit => inferInstanceAs (Decidable False)

/-- A pass that has compared the live model with the text, and was not given up over the difference. To
take something back is such a pass if there was something to take back. -/
def Settled : Happening → Prop
  | passed (.fromText _) _ => False
  | passed _ (some result) => result.succeeded = true ∧ result.changes.isSome = true
  | passed _ none => False
  | edit => False

theorem Settled.succeeded {h : Happening} (settled : h.Settled) : h.Succeeded := by
  cases h with
  | edit => exact settled.elim
  | passed pass outcome =>
    cases outcome with
    | none => cases pass <;> exact settled.elim
    | some result =>
      cases pass with
      | fromText text => exact settled.elim
      | fromModel | undo => exact settled.1

end Happening

/-- A session, and what has happened to it, the latest first. -/
structure Chronicle where
  session : Session
  log : List Happening := []

/-- An edit was told of, and nothing of a kind has happened since. -/
def EditedSince (kind : Happening → Prop) (log : List Happening) : Prop :=
  ∃ later earlier, log = later ++ .edit :: earlier ∧ ∀ h ∈ later, ¬ kind h

/-- An edit was not settled when a pass succeeded, and neither has a pass settled it since nor has
another edit been told of. -/
def Overlooked (log : List Happening) : Prop :=
  ∃ later h earlier, log = later ++ h :: earlier ∧ h.Succeeded ∧ ¬ h.Settled ∧
    EditedSince Happening.Settled earlier ∧ ∀ h ∈ later, h ≠ .edit ∧ ¬ h.Settled

/-! ### Reading the log -/

section Log

variable {kind : Happening → Prop} {h : Happening} {log : List Happening}

theorem not_editedSince_nil : ¬ EditedSince kind [] := by
  rintro ⟨later, earlier, split, -⟩
  simp at split

theorem editedSince_edit : EditedSince kind (.edit :: log) := ⟨[], log, rfl, fun _ inside => nomatch inside⟩

theorem editedSince_cons (other : h ≠ .edit) :
    EditedSince kind (h :: log) ↔ ¬ kind h ∧ EditedSince kind log := by
  constructor
  · rintro ⟨later, earlier, split, none⟩
    cases later with
    | nil => exact absurd (List.cons.inj split).1 other
    | cons first rest =>
      obtain ⟨rfl, rfl⟩ := List.cons.inj split
      obtain ⟨notFirst, none⟩ := List.forall_mem_cons.1 none
      exact ⟨notFirst, rest, earlier, rfl, none⟩
  · rintro ⟨notKind, later, earlier, rfl, none⟩
    exact ⟨h :: later, earlier, rfl, List.forall_mem_cons.2 ⟨notKind, none⟩⟩

/-- An edit that is not settled counts as one since the last pass that succeeded just if it has not been
overlooked. -/
theorem editedSince_iff_not_overlooked (log : List Happening) :
    (EditedSince Happening.Settled log ↔ EditedSince Happening.Succeeded log) ↔ ¬ Overlooked log := by
  constructor
  · -- What was overlooked is not settled, but a pass has succeeded since.
    rintro same ⟨later, h, earlier, rfl, succeeded, notSettled, edited, quiet⟩
    have missed : ∀ later : List Happening, (∀ h ∈ later, h ≠ .edit ∧ ¬ h.Settled) →
        EditedSince Happening.Settled (later ++ h :: earlier) ∧
          ¬ EditedSince Happening.Succeeded (later ++ h :: earlier) := by
      intro later
      induction later with
      | nil =>
        have other : h ≠ .edit := fun same => by rw [same] at succeeded; exact succeeded
        exact fun _ => ⟨(editedSince_cons other).2 ⟨notSettled, edited⟩,
          fun since => ((editedSince_cons other).1 since).1 succeeded⟩
      | cons first rest ih =>
        intro quiet
        obtain ⟨⟨other, open_⟩, quiet⟩ := List.forall_mem_cons.1 quiet
        obtain ⟨yes, no⟩ := ih quiet
        exact ⟨(editedSince_cons other).2 ⟨open_, yes⟩,
          fun since => no ((editedSince_cons other).1 since).2⟩
    obtain ⟨yes, no⟩ := missed later quiet
    exact no (same.1 yes)
  · intro none
    constructor
    · -- Going back to the edit, a first pass that succeeded would have overlooked it.
      induction log with
      | nil => exact fun edited => absurd edited not_editedSince_nil
      | cons h log ih =>
        intro edited
        by_cases other : h = .edit
        · exact other ▸ editedSince_edit
        obtain ⟨open_, edited⟩ := (editedSince_cons other).1 edited
        refine (editedSince_cons other).2 ⟨fun succeeded => ?_, ih (fun missed => ?_) edited⟩
        · exact none ⟨[], h, log, rfl, succeeded, open_, edited, fun _ inside => nomatch inside⟩
        · obtain ⟨later, h', earlier, rfl, rest⟩ := missed
          obtain ⟨succeeded, notSettled, edited', quiet⟩ := rest
          exact none ⟨h :: later, h', earlier, rfl, succeeded, notSettled, edited',
            List.forall_mem_cons.2 ⟨⟨other, open_⟩, quiet⟩⟩
    · rintro ⟨later, earlier, split, quiet⟩
      exact ⟨later, earlier, split, fun h inside settled => quiet h inside settled.succeeded⟩

end Log

/-! ### Keeping the log -/

namespace Chronicle

/-- A step of the session that leaves no trace in the log. -/
def silently {α : Type} (step : SessionStep α) : EStateM Error Chronicle α := fun c =>
  match step c.session with
  | .ok a s => .ok a { c with session := s }
  | .error e s => .error e { c with session := s }

/-- A pass is carried out, and its end is put down. -/
def pass (p : Pass) : EStateM Error Chronicle PassResult := fun c =>
  match p.run c.session with
  | .ok result s => .ok result ⟨s, .passed p (some result) :: c.log⟩
  | .error e s => .error e ⟨s, .passed p none :: c.log⟩

/-- A listener of the session hears of an event of an edit. -/
def hear (event : Event) : Observer → EStateM Error Chronicle Unit
  | .keeper => do
    if (← silently keep) && (← get).session.autoSync then discard (pass .fromModel)
  | .journal => silently (recordEvent event)
  | .eager _ => discard (pass .fromModel)

/-- An event of an edit is put down, and then the listeners of the session hear of it. -/
def notify (event : Event) : EStateM Error Chronicle Unit := do
  modify fun c => { c with log := .edit :: c.log }
  (← get).session.observers.forM (hear event)

/-- A session with a log as the host of its live model. -/
def host : Host Error Chronicle where
  model c := c.session.live
  withModel c m := { c with session := { c.session with live := m } }
  supply c := c.session.supply
  withSupply c count := { c with session := { c.session with supply := count } }
  refusal := .edit
  notify := notify

/-- What a session and its log can come to, as long as the session hears of its events before anyone else
does. It is opened on a text; it is edited by calls and taken through passes, of which any may fail; passes
may follow its events of their own; and other listeners come and go. -/
inductive Kept : Chronicle → Prop
  | opened {config : Config} {text : String} {autoSync : Bool} {s : Session} :
    create config text autoSync = .ok s → Kept { session := s }
  | edited {c : Chronicle} (call : Call) : Kept c → Kept (endOf (call.run host) c)
  | passed {c : Chronicle} (p : Pass) : Kept c → Kept (endOf (pass p) c)
  | switched {c : Chronicle} (on : Bool) : Kept c →
    Kept { c with session := { c.session with autoSync := on } }
  | attended {c : Chronicle} (others : List Observer) : .keeper ∉ others → Kept c →
    Kept { c with session := { c.session with observers := .keeper :: others } }

/-! ### The log only looks on -/

/-- The session of a chronicle. -/
abbrev Tells (c : Chronicle) (s : Session) : Prop := c.session = s

theorem abreast_silently {α : Type} (step : SessionStep α) : Abreast Tells (silently step) step := by
  rintro c _ rfl
  unfold silently
  cases step c.session with
  | ok a s => exact ⟨_, s, rfl, .inl ⟨a, rfl, rfl⟩⟩
  | error e s => exact ⟨_, s, rfl, .inr ⟨e, rfl, rfl⟩⟩

theorem abreast_pass (p : Pass) : Abreast Tells (pass p) p.run := by
  rintro c _ rfl
  unfold pass
  cases p.run c.session with
  | ok result s => exact ⟨_, s, rfl, .inl ⟨result, rfl, rfl⟩⟩
  | error e s => exact ⟨_, s, rfl, .inr ⟨e, rfl, rfl⟩⟩

/-- To look at a chronicle is to look at its session. -/
theorem abreast_get {α : Type} {f : Chronicle → EStateM Error Chronicle α} {g : Session → SessionStep α}
    (rest : ∀ c, Abreast Tells (f c) (g c.session)) : Abreast Tells (get >>= f) (get >>= g) := by
  rintro c _ rfl
  exact rest c c _ rfl

/-- Listeners do in a session with a log what they do in the session. -/
theorem abreast_notify (event : Event) : Abreast Tells (notify event) (notifyOfEdit event) := by
  rintro c _ rfl
  refine Abreast.forM (R := Tells) (f := hear event) (fun observer => ?_)
    { c with log := .edit :: c.log } c.session rfl
  cases observer with
  | journal => exact abreast_silently (recordEvent event)
  | eager number => exact (abreast_pass .fromModel).discard
  | keeper =>
    exact (abreast_silently keep).bind fun edited => abreast_get fun c =>
      .ite (abreast_pass .fromModel).discard (.pure _)

theorem matches_host : host.Matches Session.host Tells where
  model here := here ▸ rfl
  supply here := here ▸ rfl
  refusal := rfl
  withModel _ here := here ▸ rfl
  withSupply here := here ▸ rfl
  notify := abreast_notify

/-- A call does to a session with a log what it does to the session. -/
theorem session_edited (call : Call) (c : Chronicle) :
    (endOf (call.run host) c).session = endOf (call.run Session.host) c.session :=
  (matches_host.call call).ends (s := c) rfl

/-- A pass does to a session with a log what it does to the session. -/
theorem session_passed (p : Pass) (c : Chronicle) :
    (endOf (pass p) c).session = endOf p.run c.session :=
  (abreast_pass p).ends (s := c) rfl

end Chronicle

/-! ### Echoes -/

/-- A replay that ends brings the count back that it began with. -/
theorem Guard.leave_of_enclosing {g g' : Guard} {count : Int}
    (enclosing : g'.enclosing = (g.enter count).enclosing) : g'.leave = g := by
  rw [leave, enclosing]
  rfl

namespace Session

variable {s₀ s s' : Session} {others : List Observer} {α β : Type}

/-- In the course of a replay no edit has been heard of, and at least so many more echoes are expected. -/
structure Expects (s₀ : Session) (n : Nat) (s : Session) : Prop where
  dirty : s.dirty = s₀.dirty
  observers : s.observers = s₀.observers
  enclosing : s.guard.enclosing = s₀.guard.enclosing
  pending : n ≤ s.guard.pending

theorem Expects.less {m n : Nat} (expects : Expects s₀ n s) (le : m ≤ n) : Expects s₀ m s :=
  ⟨expects.dirty, expects.observers, expects.enclosing, by have := expects.pending; omega⟩

/-- A part of a replay takes up at most so many of the echoes that are expected. -/
def TakesUp (s₀ : Session) (step : SessionStep α) (n : Nat) : Prop :=
  ∀ s k, Expects s₀ (k + n) s → Expects s₀ k (endOf step s)

namespace TakesUp

/-- What happens to the live model and to the supply of ids takes up nothing. -/
theorem none {step : SessionStep α} (same : ∀ s, (endOf step s).dirty = s.dirty ∧
    (endOf step s).observers = s.observers ∧ (endOf step s).guard = s.guard) : TakesUp s₀ step 0 := by
  intro s k expects
  obtain ⟨dirty, observers, guard⟩ := same s
  exact ⟨dirty.trans expects.dirty, observers.trans expects.observers,
    (congrArg Guard.enclosing guard).trans expects.enclosing, guard ▸ expects.pending⟩

theorem pure (a : α) : TakesUp s₀ (Pure.pure a : SessionStep α) 0 := .none fun _ => ⟨rfl, rfl, rfl⟩

theorem throw (e : Error) : TakesUp s₀ (MonadExcept.throw e : SessionStep α) 0 :=
  .none fun _ => ⟨rfl, rfl, rfl⟩

theorem more {step : SessionStep α} {m n : Nat} (takes : TakesUp s₀ step m) (le : m ≤ n) :
    TakesUp s₀ step n :=
  fun s k expects => (takes s (k + (n - m)) (expects.less (by omega))).less (Nat.le_add_right _ _)

theorem bind {step : SessionStep α} {next : α → SessionStep β} {m n : Nat}
    (first : TakesUp s₀ step m) (rest : ∀ a, TakesUp s₀ (next a) n) :
    TakesUp s₀ (step >>= next) (m + n) := by
  intro s k expects
  have after := first s (k + n) (by rwa [Nat.add_assoc, Nat.add_comm n m])
  rw [endOf] at after
  rw [endOf_bind]
  cases ran : step s with
  | ok a s₁ =>
    rw [ran] at after
    exact rest a s₁ k after
  | error e s₁ =>
    rw [ran] at after
    -- A part that failed has left echoes over.
    exact after.less (Nat.le_add_right k n)

theorem discard {step : SessionStep α} {n : Nat} (takes : TakesUp s₀ step n) :
    TakesUp s₀ (Functor.discard step) n := fun s k expects => by
  rw [endOf_discard]
  exact takes s k expects

theorem ite {p : Prop} [Decidable p] {step step' : SessionStep α} {n : Nat} (yes : TakesUp s₀ step n)
    (no : TakesUp s₀ step' n) : TakesUp s₀ (if p then step else step') n := by
  split
  · exact yes
  · exact no

end TakesUp

/-! ### Replays and their echoes -/

section Replays

variable (first : s₀.observers = .keeper :: others) (once : .keeper ∉ others)
include first once

/-- An event in a pass is counted off once, and is taken for an echo. -/
theorem takesUp_notify (event : Event) : TakesUp s₀ (notifyInPass event) 1 := by
  have rest : ∀ observers : List Observer, .keeper ∉ observers →
      TakesUp s₀ (observers.forM fun
        | .keeper => discard keep
        | .journal => recordEvent event
        | .eager _ => throw .passRunning) 0 := by
    intro observers
    induction observers with
    | nil => exact fun _ => .pure _
    | cons observer rest ih =>
      intro absent
      rw [List.mem_cons, not_or] at absent
      refine TakesUp.bind (m := 0) (n := 0) ?_ fun _ => ih absent.2
      cases observer with
      | keeper => exact absurd rfl absent.1
      | journal => exact .none fun _ => ⟨rfl, rfl, rfl⟩
      | eager number => exact .throw _
  have own : TakesUp s₀ (discard keep) 1 := by
    intro s k expects
    have more : s.guard.pending > 0 := by have := expects.pending; omega
    rw [endOf_discard, endOf, keep, Guard.consume, if_pos more]
    exact ⟨expects.dirty, expects.observers, expects.enclosing, by have := expects.pending; simp; omega⟩
  intro s k expects
  -- The keeper hears of the event first, and no other observer spends a permit.
  have listens : endOf (notifyInPass event) s = endOf ((Observer.keeper :: others).forM fun
      | .keeper => discard keep
      | .journal => recordEvent event
      | .eager _ => throw .passRunning) s := by
    rw [← first, ← expects.observers]
    rfl
  rw [listens]
  exact (own.bind fun _ => rest others once) s k expects

omit first once in
theorem takesUp_edit (change : Edit α) : TakesUp s₀ (quietHost.edit change) 0 := by
  refine .none fun s => ?_
  rw [endOf, Host.edit]
  cases change (quietHost.model s) <;> exact ⟨rfl, rfl, rfl⟩

omit first once in
theorem takesUp_lookup (id : NodeId) : TakesUp s₀ (quietHost.lookup id) 0 := by
  refine TakesUp.bind (m := 0) (n := 0) (.none fun _ => ⟨rfl, rfl, rfl⟩) fun m => ?_
  cases m.find? id with
  | none => exact .throw _
  | some k => exact .pure k

theorem takesUp_announce (change : Edit Event) :
    TakesUp s₀ (do quietHost.notify (← quietHost.edit change)) 1 :=
  (takesUp_edit change).bind fun event => takesUp_notify first once event

theorem takesUp_announceWith (change : Edit (α × Event)) : TakesUp s₀ (do
    let (a, event) ← quietHost.edit change
    quietHost.notify event
    return a) 1 :=
  (takesUp_edit change).bind fun made => (takesUp_notify first once made.2).bind fun _ => .pure made.1

/-- An entry is one event at most. -/
theorem takesUp_applyEntry (entry : Entry) : TakesUp s₀ (quietHost.applyEntry entry) 1 := by
  -- Looking up takes nothing up, and each edit is announced once.
  cases entry with
  | create node =>
    refine TakesUp.bind (m := 1) (n := 0) (TakesUp.discard ?_) fun _ => .pure _
    have drawn : TakesUp s₀ quietHost.newId 0 := .none fun _ => ⟨rfl, rfl, rfl⟩
    exact .ite (drawn.bind fun _ => takesUp_announceWith first once _)
      (takesUp_announceWith first once _)
  | delete id kind content =>
    refine (takesUp_lookup id).bind (n := 1) fun k => TakesUp.bind (m := 0) (n := 1)
      (.none fun _ => ⟨rfl, rfl, rfl⟩) fun m => ?_
    exact (takesUp_announce first once _).bind fun _ => .pure _
  | addLink link =>
    refine (takesUp_lookup _).bind (n := 1) fun _ => (takesUp_lookup _).bind (n := 1) fun _ => ?_
    exact (takesUp_announce first once _).bind fun _ => .pure _
  | removeLink link =>
    refine (takesUp_lookup _).bind (n := 1) fun _ => ?_
    exact (takesUp_announceWith first once _).discard.bind fun _ => .pure _
  | changeField change =>
    refine (takesUp_lookup _).bind (n := 1) fun _ => ?_
    exact (takesUp_announce first once _).bind fun _ => .pure _
  | other text => exact (TakesUp.throw _).more (Nat.zero_le 1)

theorem takesUp_applyEntries (entries : List Entry) :
    TakesUp s₀ (quietHost.applyEntries entries) entries.length := by
  have all : TakesUp s₀ (entries.mapM quietHost.applyEntry) entries.length := by
    induction entries with
    | nil => exact .pure []
    | cons entry rest ih =>
      rw [List.mapM_cons, List.length_cons, Nat.add_comm]
      exact (takesUp_applyEntry first once entry).bind fun _ => ih.bind fun _ => .pure _
  rw [← Nat.zero_add entries.length]
  refine TakesUp.bind (m := 0) (.none fun _ => ⟨rfl, rfl, rfl⟩) fun live => ?_
  -- Entries that do not pass the check are not begun.
  cases live.outline.replay entries with
  | error e => exact (TakesUp.throw e).more (Nat.zero_le _)
  | ok o => exact all.bind fun _ => .pure _

end Replays

/-- No event has been taken for an edit, and no count of echoes is left over. -/
structure Unmarked (s s' : Session) : Prop where
  dirty : s'.dirty = s.dirty
  observers : s'.observers = s.observers
  guard : s'.guard = s.guard

theorem Unmarked.trans {s₁ s₂ : Session} (first : Unmarked s s₁) (second : Unmarked s₁ s₂) : Unmarked s s₂ :=
  ⟨second.dirty.trans first.dirty, second.observers.trans first.observers,
    second.guard.trans first.guard⟩

section Unmarked

variable (first : s.observers = .keeper :: others) (once : .keeper ∉ others) (rests : s.guard = {})
include first once rests

/-- A replay under guard is not taken for an edit, however it ends. -/
theorem unmarked_guarded (entries : List Entry) :
    Unmarked s (endOf (guarded entries.length (quietHost.applyEntries entries)) s) := by
  have entered : Expects { s with guard := s.guard.enter entries.length } (0 + entries.length)
      { s with guard := s.guard.enter entries.length } :=
    ⟨rfl, rfl, rfl, by rw [rests]; simp [Guard.enter]⟩
  have still : { s with guard := s.guard.enter entries.length }.observers = .keeper :: others := first
  have after := takesUp_applyEntries still once entries _ 0 entered
  rw [endOf_guarded]
  -- The count to return to is the one before the replay.
  exact ⟨after.dirty, after.observers, Guard.leave_of_enclosing after.enclosing⟩

theorem unmarked_replay (changes : ChangeSet) : Unmarked s (endOf (replay changes) s) := by
  unfold replay
  cases changes.isEmpty with
  | true => exact ⟨rfl, rfl, rfl⟩
  | false =>
    change Unmarked s (endOf (guarded changes.entries.length (quietHost.applyEntries changes.entries) >>=
      fun applied => modify fun s => { s with history := applied :: s.history }) s)
    have unmarked := unmarked_guarded first once rests changes.entries
    rw [endOf] at unmarked
    rw [endOf_bind]
    cases replayed : guarded changes.entries.length (quietHost.applyEntries changes.entries) s with
    | error e s₁ =>
      rw [replayed] at unmarked
      exact unmarked
    | ok applied s₁ =>
      rw [replayed] at unmarked
      exact ⟨unmarked.dirty, unmarked.observers, unmarked.guard⟩

theorem unmarked_replayToward (fresh : Model) : Unmarked s (endOf (replayToward fresh) s) := by
  change Unmarked s (endOf (lift (reconcile s.config s.live fresh) >>= fun changes =>
    replay changes >>= fun _ => pure changes) s)
  rw [endOf_bind]
  cases reconcile s.config s.live fresh with
  | error e => exact ⟨rfl, rfl, rfl⟩
  | ok changes =>
    change Unmarked s (endOf (replay changes >>= fun _ => pure changes) s)
    rw [endOf_bind_pure]
    exact unmarked_replay first once rests changes

/-- A pass from the text leaves the mark alone. -/
theorem unmarked_syncFromText (text : String) : Unmarked s (endOf (syncFromText text) s) := by
  rw [endOf, syncFromText_eq]
  by_cases settled : text = s.text ∧ s.synchronized = true
  · rw [if_pos settled]
    exact ⟨rfl, rfl, rfl⟩
  rw [if_neg settled]
  have ends := followsText s text
  -- However following the text ends, the mark is left as it was.
  generalize followText text s = result at ends
  cases ends with
  | unreadable => exact ⟨rfl, rfl, rfl⟩
  | @broken fresh count e s₁ _ replayed =>
    have unmarked := unmarked_replayToward (s := { s with supply := count }) first once rests fresh
    rw [endOf, replayed] at unmarked
    cases e.isFailure <;> exact ⟨unmarked.dirty, unmarked.observers, unmarked.guard⟩
  | @carried fresh count changes s₁ _ replayed =>
    have unmarked := unmarked_replayToward (s := { s with supply := count }) first once rests fresh
    rw [endOf, replayed] at unmarked
    exact ⟨unmarked.dirty, unmarked.observers, unmarked.guard⟩

/-- How a pass that compares the live model with the text leaves the mark: as it was, or taken away, and
the latter just if the pass has come to compare them and was not given up. -/
inductive Marks (s : Session) : EStateM.Result Error Session PassResult → Prop
  | kept {result : PassResult} {s' : Session} : Unmarked s s' →
    ¬ (result.succeeded = true ∧ result.changes.isSome = true) → Marks s (.ok result s')
  | failed {e : Error} {s' : Session} : Unmarked s s' → Marks s (.error e s')
  | cleared {result : PassResult} {s' : Session} : s'.dirty = false → s'.observers = s.observers →
    s'.guard = s.guard → result.succeeded = true → result.changes.isSome = true →
    Marks s (.ok result s')

omit first once rests in
theorem Marks.of_unmarked {s₁ : Session} {result : EStateM.Result Error Session PassResult}
    (marks : Marks s₁ result) (unmarked : Unmarked s s₁) : Marks s result := by
  cases marks with
  | kept later open_ => exact .kept (unmarked.trans later) open_
  | failed later => exact .failed (unmarked.trans later)
  | cleared clean observers guard succeeded compared =>
    exact .cleared clean (observers.trans unmarked.observers) (guard.trans unmarked.guard) succeeded compared

theorem marks_syncFromModel : Marks s (syncFromModel s) := by
  have ends := followsModel s
  generalize syncFromModel s = result at ends
  cases ends with
  | incomparable | unpatchable => exact .failed ⟨rfl, rfl, rfl⟩
  | idle => exact .cleared rfl rfl rfl rfl rfl
  | unrendered | unreadable => exact .kept ⟨rfl, rfl, rfl⟩ fun both => nomatch both.1
  | @broken changes patch fresh count e s₁ _ _ _ _ replayed =>
    have unmarked := unmarked_replayToward (s := { s with supply := count }) first once rests fresh
    rw [endOf, replayed] at unmarked
    exact .failed ⟨unmarked.dirty, unmarked.observers, unmarked.guard⟩
  | @carried changes patch fresh count echo s₁ _ _ _ _ replayed =>
    have unmarked := unmarked_replayToward (s := { s with supply := count }) first once rests fresh
    rw [endOf, replayed] at unmarked
    exact .cleared rfl unmarked.observers unmarked.guard rfl rfl

theorem marks_undo : Marks s (undo s) := by
  cases history : s.history with
  | nil =>
    have nothing : undo s = .ok { status := .unchanged } s := by
      rw [undo, EStateM.bind_get, history]
      rfl
    rw [nothing]
    exact .kept ⟨rfl, rfl, rfl⟩ fun both => nomatch both.2
  | cons applied earlier =>
    rw [undo_eq history]
    have unmarked := unmarked_guarded (s := { s with history := earlier }) first once rests
      applied.inverses.reverse
    rw [List.length_reverse, endOf] at unmarked
    -- If the replay cannot be taken back, the live model is not compared with the text.
    cases ran : guarded applied.inverses.length (quietHost.undo applied) { s with history := earlier } with
    | error e s₁ =>
      have failed : discard (guarded applied.inverses.length (quietHost.undo applied))
          { s with history := earlier } = .error e s₁ := by
        rw [EStateM.discard_eq_bind]
        exact EStateM.bind_of_error ran _
      rw [EStateM.bind_of_error failed]
      rw [Host.undo] at ran
      rw [ran] at unmarked
      exact .failed ⟨unmarked.dirty, unmarked.observers, unmarked.guard⟩
    | ok back s₁ =>
      rw [EStateM.bind_of_ok (EStateM.discard_eq_ok_iff.2 ⟨back, ran⟩)]
      rw [Host.undo] at ran
      rw [ran] at unmarked
      have marks := marks_syncFromModel (unmarked.observers.trans first) once (unmarked.guard.trans rests)
      exact marks.of_unmarked ⟨unmarked.dirty, unmarked.observers, unmarked.guard⟩

end Unmarked

end Session

/-! ### The mark and the log -/

namespace Chronicle

/-- The session hears of its events once and before anyone else, counts no echo, and is marked just if the
log has an edit that is not settled. -/
structure Faithful (c : Chronicle) : Prop where
  attends : ∃ others, c.session.observers = .keeper :: others ∧ .keeper ∉ others
  rests : c.session.guard = {}
  marked : c.session.dirty = true ↔ EditedSince Happening.Settled c.log

variable {c : Chronicle} {s : Session}

/-- What leaves the mark alone does not settle an edit. -/
theorem Faithful.unmarked (faithful : c.Faithful) (unmarked : Unmarked c.session s) {h : Happening}
    (other : h ≠ .edit) (notSettled : ¬ h.Settled) : Faithful ⟨s, h :: c.log⟩ where
  attends := unmarked.observers ▸ faithful.attends
  rests := unmarked.guard.trans faithful.rests
  marked := by
    rw [editedSince_cons other, unmarked.dirty, faithful.marked]
    exact ⟨fun edited => ⟨notSettled, edited⟩, fun both => both.2⟩

/-- A pass leaves the mark alone, or takes it away and settles what was edited. -/
theorem faithful_pass (p : Pass) : Agree Faithful (pass p) (pass p) := by
  refine .of_ends fun c faithful => ?_
  obtain ⟨others, first, once⟩ := faithful.attends
  -- A pass that compares the live model with the text.
  have compares : (∀ text, p ≠ .fromText text) → Marks c.session (p.run c.session) →
      Faithful (endOf (pass p) c) := by
    intro compares marks
    have settled {result : PassResult} : Happening.Settled (.passed p (some result)) ↔
        result.succeeded = true ∧ result.changes.isSome = true := by
      cases p with
      | fromText text => exact absurd rfl (compares text)
      | fromModel | undo => exact Iff.rfl
    unfold endOf pass
    generalize p.run c.session = result at marks
    cases marks with
    | kept unmarked open_ => exact faithful.unmarked unmarked (by simp) (settled.not.2 open_)
    | failed unmarked => exact faithful.unmarked unmarked (by simp) (by cases p <;> exact id)
    | @cleared result s clean observers guard succeeded compared =>
      refine ⟨observers ▸ faithful.attends, guard.trans faithful.rests, ?_⟩
      rw [editedSince_cons (by simp), settled, clean]
      exact iff_of_false Bool.false_ne_true fun both => both.1 ⟨succeeded, compared⟩
  cases p with
  | fromText text =>
    have unmarked := unmarked_syncFromText first once faithful.rests text
    rw [endOf] at unmarked
    rw [endOf, pass, Pass.run]
    cases ran : syncFromText text c.session with
    | ok result s =>
      rw [ran] at unmarked
      exact faithful.unmarked unmarked (by simp) id
    | error e s =>
      rw [ran] at unmarked
      exact faithful.unmarked unmarked (by simp) id
  | fromModel => exact compares (by simp) (marks_syncFromModel first once faithful.rests)
  | undo => exact compares (by simp) (marks_undo first once faithful.rests)

/-- A step that touches neither the mark nor the listeners nor the count keeps what the log says. -/
theorem faithful_silently {α : Type} {step : SessionStep α} (same : ∀ s, Unmarked s (endOf step s)) :
    Agree Faithful (silently step) (silently step) := by
  refine .of_ends fun c faithful => ?_
  have unmarked := same c.session
  rw [endOf] at unmarked
  rw [endOf, silently]
  cases ran : step c.session with
  | ok a s | error e s =>
    rw [ran] at unmarked
    exact ⟨unmarked.observers ▸ faithful.attends, unmarked.guard.trans faithful.rests,
      unmarked.dirty ▸ faithful.marked⟩

/-- Listeners other than the session keep what the log says. -/
theorem faithful_hear (event : Event) {observer : Observer} (other : observer ≠ .keeper) :
    Agree Faithful (hear event observer) (hear event observer) := by
  cases observer with
  | keeper => exact absurd rfl other
  | journal =>
    rw [hear]
    exact faithful_silently fun s => ⟨rfl, rfl, rfl⟩
  | eager number => exact (faithful_pass .fromModel).discard

/-- The session marks itself for an edit that is put down, before anything follows it. -/
theorem faithful_notify (event : Event) : Agree Faithful (notify event) (notify event) := by
  refine .of_ends fun c faithful => ?_
  obtain ⟨others, first, once⟩ := faithful.attends
  -- The keeper hears of the event first and marks the session, and what follows keeps it faithful.
  have marked : Faithful ⟨{ c.session with dirty := true }, .edit :: c.log⟩ :=
    ⟨faithful.attends, faithful.rests, iff_of_true rfl editedSince_edit⟩
  let follow : EStateM Error Chronicle Unit :=
    if c.session.autoSync = true then discard (pass .fromModel) else pure ()
  have own : silently keep ⟨c.session, .edit :: c.log⟩ =
      .ok true ⟨{ c.session with dirty := true }, .edit :: c.log⟩ := by
    simp [silently, keep, Guard.consume, faithful.rests]
  have keeper : hear event .keeper ⟨c.session, .edit :: c.log⟩ =
      follow ⟨{ c.session with dirty := true }, .edit :: c.log⟩ := by
    rw [hear, EStateM.bind_of_ok own]
    rfl
  have heard : endOf (notify event) c = endOf (follow >>= fun _ => others.forM (hear event))
      ⟨{ c.session with dirty := true }, .edit :: c.log⟩ := by
    rw [endOf_bind, ← keeper, ← endOf_bind]
    change endOf (c.session.observers.forM (hear event)) ⟨c.session, .edit :: c.log⟩ = _
    rw [first]
    rfl
  rw [heard]
  have followed : Agree Faithful follow follow := .ite (faithful_pass .fromModel).discard (.pure ())
  have rest : Agree Faithful (others.forM (hear event)) (others.forM (hear event)) :=
    .forM fun observer inside => faithful_hear event fun same => once (same ▸ inside)
  exact ((followed.bind fun _ => rest) _ marked).2

theorem hears_host : host.Hears host.notify Faithful where
  withModel _ faithful := ⟨faithful.attends, faithful.rests, faithful.marked⟩
  withSupply faithful := ⟨faithful.attends, faithful.rests, faithful.marked⟩
  notify := faithful_notify

/-- Whatever has happened to a session, the log says it. -/
theorem Kept.faithful {c : Chronicle} (kept : c.Kept) : c.Faithful := by
  induction kept with
  | @opened config text autoSync s opened =>
    obtain ⟨_, -, -, same⟩ := built_of_create opened
    rw [same]
    exact ⟨⟨[.journal], rfl, by decide⟩, rfl, iff_of_false Bool.false_ne_true not_editedSince_nil⟩
  | edited call _ ih => exact (hears_host.call call _ ih).2
  | passed p _ ih => exact (faithful_pass p _ ih).2
  | switched on _ ih => exact ⟨ih.attends, ih.rests, ih.marked⟩
  | attended others once _ ih => exact ⟨⟨others, rfl, once⟩, ih.rests, ih.marked⟩

end Chronicle

/-- The log tells of the session as it would be without it. Whatever has happened to a session, it counts no
echo, and it is marked just if an edit was told of that no pass has settled since. So the mark is that of
an edit since the last pass that succeeded, unless such a pass has overlooked an edit. -/
theorem dirty_iff_editedSince {c : Chronicle} (kept : c.Kept) :
    (∀ call : Call, (endOf (call.run Chronicle.host) c).session =
      endOf (call.run Session.host) c.session) ∧
    (∀ p : Pass, (endOf (Chronicle.pass p) c).session = endOf p.run c.session) ∧
    c.session.guard.pending = 0 ∧
    (c.session.dirty = true ↔ EditedSince Happening.Settled c.log) ∧
    ((c.session.dirty = true ↔ EditedSince Happening.Succeeded c.log) ↔ ¬ Overlooked c.log) := by
  have faithful := kept.faithful
  refine ⟨fun call => Chronicle.session_edited call c, fun p => Chronicle.session_passed p c, ?_,
    faithful.marked, ?_⟩
  · rw [faithful.rests]
  · rw [faithful.marked]
    exact editedSince_iff_not_overlooked c.log

/-- A session on an array with one item, which an edit then changes. -/
def fieldChronicle : Chronicle :=
  endOf ((Call.setField "n4" valueName (some "2")).run Chronicle.host) { session := Session.openedOn "[1]" }

theorem Chronicle.kept_fieldChronicle : fieldChronicle.Kept := by
  have parses : (Session.create {} "[1]" false).toOption.isSome = true := by decide +kernel
  obtain ⟨s, created⟩ := Except.exists_ok parses
  rw [fieldChronicle, Session.openedOn, created]
  exact .edited _ (.opened created)

/-- A text that cannot be read settles nothing. -/
theorem dirty_iff_editedSince_unread :
    (endOf (Chronicle.pass (.fromText "[1")) fieldChronicle).session.dirty = true ∧
      EditedSince Happening.Settled (endOf (Chronicle.pass (.fromText "[1")) fieldChronicle).log := by
  have dirty : (endOf (Chronicle.pass (.fromText "[1")) fieldChronicle).session.dirty = true := by
    decide +kernel
  have read := dirty_iff_editedSince (.passed (.fromText "[1") Chronicle.kept_fieldChronicle)
  exact ⟨dirty, read.2.2.2.1.1 dirty⟩

/-- A text that replaces what was edited leaves the session marked. -/
theorem not_dirty_iff_editedSince : ∃ c : Chronicle, c.Kept ∧ c.session.dirty = true ∧
    ¬ EditedSince Happening.Succeeded c.log := by
  obtain ⟨dirty, ended⟩ :
      (endOf (Chronicle.pass (.fromText "[3]")) fieldChronicle).session.dirty = true ∧
      ((endOf (Chronicle.pass (.fromText "[3]")) fieldChronicle).log.head?.any fun h =>
        decide h.Succeeded) = true := by
    decide +kernel
  refine ⟨_, .passed (.fromText "[3]") Chronicle.kept_fieldChronicle, dirty, ?_⟩
  cases split : (endOf (Chronicle.pass (.fromText "[3]")) fieldChronicle).log with
  | nil => exact not_editedSince_nil
  | cons h log =>
    rw [split] at ended
    have succeeded : h.Succeeded := of_decide_eq_true ended
    rw [editedSince_cons (by rintro rfl; exact succeeded)]
    exact fun both => both.1 succeeded

end DocSync
