import DocSync.Proofs.Model.Shadowing
import DocSync.Proofs.Session.Undone

/-!
Edits with passes between their steps. Every event of an edit sets a pass off, and many of these passes
find a model that is no document, because the edit is only half done. Such a pass is given up, and then
it has not touched the live model; where it is not given up although there is no document, it may. As
long as this does not happen, edits do in a session what they do without listeners.
-/

namespace DocSync

open Model
open Lexer (Blanks)

variable {s s' : Session} {w : Workspace} {acts : List Act} {start : Nat}

namespace Session

/-- A pass from the model has nothing to change here: it is given up or finds nothing to do, or the live
model is sound, stands for a document, and can be compared with the text. -/
def Peaceful (s : Session) : Prop :=
  (∃ result s', syncFromModel s = .ok result s' ∧ result.status ≠ .synced) ∨
    s.live.Sound ∧ s.live.IsDocument ∧ ∃ changes, reconcile s.config s.read s.live = .ok changes

/-- The states in which the session has just heard of an event while edits are carried out, the latest
first. Where passes follow edits of their own, they start in these states. -/
def moments (s : Session) (acts : List Act) : List Session :=
  (endOf (Act.runAll host.watched acts) (s, [])).2.map (endOf keep)

/-- A session goes along with a workspace: their models have gone through the same edits, and nothing
but passes has come between them. -/
structure Accompanies (start : Nat) (w : Workspace) (s : Session) : Prop where
  twins : Twins start s.supply w.model s.live
  started : start ≤ w.supply ∧ start ≤ s.supply
  plain : s.config.Plain
  reads : s.Reads
  observers : s.observers = [.keeper, .journal]

namespace Accompanies

/-- What is no matter of the two models. -/
theorem same (along : Accompanies start w s) (live : s'.live = s.live) (config : s'.config = s.config)
    (text : s'.text = s.text) (read : s'.read = s.read) (observers : s'.observers = s.observers)
    (supply : s.supply ≤ s'.supply) : Accompanies start w s' where
  twins := live ▸ along.twins.mono supply
  started := ⟨along.started.1, along.started.2.trans supply⟩
  plain := config ▸ along.plain
  reads := by
    rw [Reads, text, config, read]
    exact along.reads
  observers := observers.trans along.observers

theorem stirred (along : Accompanies start w s) (live : s'.live = s.live) (stirred : Stirred s s') :
    Accompanies start w s' :=
  along.same live stirred.config stirred.text stirred.read stirred.observers stirred.supply

/-- A pass that carries nothing across leaves the live model and the text as they are. -/
theorem idled (along : Accompanies start w s) {result : PassResult}
    (passed : syncFromModel s = .ok result s') (idle : result.status ≠ .synced) :
    Accompanies start w s' := by
  have ends := followsModel s
  rw [passed] at ends
  cases ends with
  | idle => exact along.same rfl rfl rfl rfl rfl (Nat.le_refl _)
  | unrendered => exact along.same rfl rfl rfl rfl rfl (Nat.le_refl _)
  | unreadable => exact along.same rfl rfl rfl rfl rfl (Nat.le_refl _)
  | carried => exact absurd rfl idle

/-- A pass in peace does not fail, and leaves the live model as it is up to frames and origins. -/
theorem pass (along : Accompanies start w s) (peaceful : s.Peaceful) :
    ∃ result s', syncFromModel s = .ok result s' ∧ Accompanies start w s' := by
  rcases peaceful with ⟨result, s', passed, idle⟩ | ⟨sound, ⟨r, shaped, notPair⟩, changes, made⟩
  · exact ⟨result, s', passed, along.idled passed idle⟩
  · -- The text comes to show the document, and its parse asks for no change of it.
    have ends := followsDocument along.reads sound shaped notPair along.plain
    generalize syncFromModel s = passed at ends
    cases ends with
    | incomparable failed => cases failed.symm.trans made
    | idle => exact ⟨_, _, rfl, along.same rfl rfl rfl rfl rfl (Nat.le_refl _)⟩
    | @carried changes patch fresh count echo made idle built compared empty =>
      have more := Build.supply_le built
      -- Only frames and origins are taken over.
      have names := sameForest_adopt fresh echo.idMap s.live
      exact ⟨_, _, rfl, {
        twins := (along.twins.mono more).trans (sameBodies_adopt fresh echo.idMap s.live)
          ⟨names.size, names.id, fun k held => names.live k ▸ held⟩
        started := ⟨along.started.1, along.started.2.trans more⟩
        plain := along.plain
        reads := ⟨s.supply, count, built⟩
        observers := along.observers }⟩

/-- The session itself hears of an event. -/
theorem keeper (along : Accompanies start w s) (peaceful : (endOf keep s).Peaceful) :
    ∃ s', (do if (← keep) && (← get).autoSync then discard syncFromModel : SessionStep Unit) s = .ok () s' ∧
      Accompanies start w s' := by
  obtain ⟨edited, s₁, kept, live, stirred⟩ := keep_eq s
  have along₁ := along.stirred live stirred
  rw [endOf, kept] at peaceful
  obtain ⟨result, s₂, passed, along₂⟩ := along₁.pass peaceful
  rw [EStateM.bind_of_ok kept, EStateM.bind_get]
  -- An echo, or a session with passes on request only, sets no pass off.
  by_cases follows : (edited && s₁.autoSync) = true
  · refine ⟨s₂, ?_, along₂⟩
    rw [if_pos follows]
    exact EStateM.discard_eq_ok_iff.2 ⟨result, passed⟩
  · refine ⟨s₁, ?_, along₁⟩
    rw [if_neg follows]
    rfl

theorem notify (along : Accompanies start w s) (event : Event) (peaceful : (endOf keep s).Peaceful) :
    ∃ s', notifyOfEdit event s = .ok () s' ∧ Accompanies start w s' := by
  obtain ⟨s₁, kept, along₁⟩ := along.keeper peaceful
  refine ⟨{ s₁ with journal := event :: s₁.journal }, ?_, along₁.same rfl rfl rfl rfl rfl (Nat.le_refl _)⟩
  rw [notifyOfEdit, EStateM.bind_get, along.observers]
  -- After the session itself the journal hears of the event.
  exact EStateM.bind_of_ok kept _

end Accompanies

/-- A session goes along with a workspace as long as it hears of events in peace. -/
theorem escorts_host (start : Nat) :
    host.Escorts start (Accompanies start) fun s => (endOf keep s).Peaceful where
  twins along := along.twins
  started along := along.started
  withModel along twins := ⟨twins, along.started, along.plain, along.reads, along.observers⟩
  withSupply along :=
    ⟨along.twins.mono (Nat.le_succ _), ⟨along.started.1.trans (Nat.le_succ _),
      along.started.2.trans (Nat.le_succ _)⟩, along.plain, along.reads, along.observers⟩
  supply_withSupply _ _ := rfl
  model_withSupply _ _ := rfl
  notify event along peaceful := along.notify event peaceful

end Session

/-- Edits that succeed without listeners succeed in a session, whether or not passes follow its events,
and they lead to the same nodes with the same fields and links; only ids that are handed out on the way
may differ. This is so if each pass that is set off on the way is given up or finds nothing to do, except
when the live model is sound, stands for a document, and can be compared with the text. -/
theorem runAll_of_peaceful (plain : s.config.Plain) (reads : s.Reads)
    (observers : s.observers = [.keeper, .journal])
    (unspent : ∀ {k i}, s.live.Holds k → s.supply < i → (s.live.node k).id ≠ freshId i)
    (spare : ∀ act ∈ acts, act.Spares s.supply)
    (alone : Act.runAll (Workspace.silent Error.edit) acts { model := s.live, supply := s.supply } =
      .ok () w)
    (peaceful : ∀ t ∈ s.moments acts, t.Peaceful) :
    ∃ s', Act.runAll Session.host acts s = .ok () s' ∧ w.model.Twins s.supply s'.supply s'.live := by
  -- The run starts with one and the same model on both sides.
  have along : Session.Accompanies s.supply { model := s.live, supply := s.supply } s :=
    ⟨.refl unspent, ⟨Nat.le_refl _, Nat.le_refl _⟩, plain, reads, observers⟩
  obtain ⟨_, s', ran, -, along'⟩ :=
    ((Session.escorts_host s.supply).runAll spare).follows along alone fun t inside =>
      peaceful _ (List.mem_map_of_mem inside)
  exact ⟨s', ran, along'.twins⟩

/-- The session that is opened on a text, with a pass after each event. -/
def Session.attendedOn (text : String) : Session := ((Session.create {} text true).toOption).getD default

theorem Session.create_eq_attendedOn {text : String}
    (parses : (Session.create {} text true).toOption.isSome = true) :
    Session.create {} text true = .ok (Session.attendedOn text) := by
  obtain ⟨s, created⟩ := Except.exists_ok parses
  rw [attendedOn, created]
  rfl

/-- The array of a text between brackets, as it is kept when the text has no blank in it. -/
def bareFrame : Frame := { opening := "[", closing := "]", separator := ", " }

/-- An array with such a frame and scalars in it is a document. -/
theorem isDocument_of_array {m : Model} (root : m.roots = [0]) (kind : (m.node 0).kind = .array)
    (last : (m.node 0).next = none) (empty : (m.node 0).fields = .empty)
    (children : ∀ c ∈ m.children 0, (m.node c).kind ≠ .pair)
    (frames : (m.node 0).frames = Dict.ofList [(itemsSlot, bareFrame)])
    (items : ∀ k, m.Holds k → k = 0 ∨ (m.node k).kind = .scalar ∧ (m.node k).frames = .empty ∧
      ∃ value, IsValue value ∧ (m.node k).fields = Dict.ofList [(valueName, String.ofList value)])
    (edges : m.leading = "" ∧ m.trailing = "" ∧ m.strays = []) : m.IsDocument := by
  have nothing : Blanks "".toList := List.forall_mem_nil _
  refine ⟨0, {
    filled := fun {k} held => ?_
    framed := fun {k frame} held stored => ?_
    single := root
    alone := last
    leading := edges.1 ▸ nothing
    trailing := edges.2.1 ▸ nothing
    plain := edges.2.2 }, by rw [kind]; decide⟩
  · rcases items k held with rfl | ⟨scalar, -, value⟩
    · rw [Model.Filled, kind]
      exact ⟨empty, children⟩
    · rw [Model.Filled, scalar]
      exact value
  · rcases items k held with rfl | ⟨-, none, -⟩
    · -- Only the array has a frame.
      rw [frames, Node.edgeName, kind] at stored
      rw [kind]
      obtain rfl := Option.some.inj (Dict.get?_ofList_singleton.symm.trans stored)
      have space : Blanks [' '] := by simp [Blanks, Lexer.isBlank]
      exact ⟨⟨⟨[], [], rfl, nothing, nothing⟩, ⟨[], [' '], rfl, nothing, space⟩,
        ⟨[], [], rfl, nothing, nothing⟩⟩, nothing, rfl, rfl⟩
    · rw [none] at stored
      cases stored

/-- A second item for an array of one. The pass that is set off when it is made is given up. -/
def appendActs : List Act :=
  [.create none .scalar { fields := Dict.ofList [(valueName, "2")] }, .appendChild 0 itemsSlot 2]

/-- The array with its second item. -/
def appendedSpace : Workspace :=
  afterCalls (readIn "[1]" 2)
    [.create none .scalar { fields := Dict.ofList [(valueName, "2")] }, .appendChild "n3" itemsSlot "n5"]

theorem isDocument_appendedSpace : appendedSpace.model.IsDocument := by
  have size : appendedSpace.model.nodes.size = 3 := by decide +kernel
  have scalars : ∀ k < 3, k = 0 ∨ (appendedSpace.model.node k).kind = .scalar ∧
      (appendedSpace.model.node k).frames = .empty ∧ (appendedSpace.model.node k).fields =
        Dict.ofList [(valueName, String.ofList [if k = 1 then '1' else '2'])] := by decide +kernel
  refine isDocument_of_array (by decide +kernel) (by decide +kernel) (by decide +kernel)
    (by decide +kernel) (by decide +kernel) (by decide +kernel) (fun k held => ?_) (by decide +kernel)
  refine (scalars k (size ▸ held.1)).imp_right fun ⟨kind, frames, fields⟩ => ⟨kind, frames, _, ?_, fields⟩
  split <;> exact ⟨.number, Lexer.lexeme_of_scan rfl, rfl⟩

theorem runAll_of_peaceful_append : ∃ w s', Act.runAll (Workspace.silent Error.edit) appendActs
      { model := (Session.attendedOn "[1]").live, supply := (Session.attendedOn "[1]").supply } = .ok () w ∧
    Act.runAll Session.host appendActs (Session.attendedOn "[1]") = .ok () s' ∧
    w.model.Twins (Session.attendedOn "[1]").supply s'.supply s'.live := by
  obtain ⟨parses, observers, heard, alone⟩ :
      (Session.create {} "[1]" true).toOption.isSome = true ∧
      (Session.attendedOn "[1]").observers = [.keeper, .journal] ∧
      (∀ t ∈ (Session.attendedOn "[1]").moments appendActs,
        Session.syncFromModel.comesTo t (fun result _ => decide (result.status ≠ .synced)) = true ∨
          t.live = appendedSpace.model ∧
            (reconcile t.config t.read t.live).toOption.isSome = true) ∧
      (Act.runAll (Workspace.silent Error.edit) appendActs).comesTo
        { model := (Session.attendedOn "[1]").live, supply := (Session.attendedOn "[1]").supply }
        (fun _ _ => true) = true := by
    decide +kernel
  obtain ⟨config, following⟩ := Session.following_of_create (Session.create_eq_attendedOn parses)
  obtain ⟨_, w, alone, -⟩ := EStateM.exists_ok alone
  have sound : appendedSpace.model.Sound := ((reachable_readIn "[1]" 2).afterCalls _).sound
  have plain : (Session.attendedOn "[1]").config.Plain := config ▸ ⟨rfl, blank_default, rfl⟩
  have spare : ∀ act ∈ appendActs, act.Spares (Session.attendedOn "[1]").supply := by
    have none_ : ∀ act ∈ appendActs, act.given? = none := by decide
    intro act inside id given
    rw [none_ act inside] at given
    cases given
  have peaceful : ∀ t ∈ (Session.attendedOn "[1]").moments appendActs, t.Peaceful := by
    intro t inside
    -- The first of the two passes is given up, the second one finds the array with both items.
    rcases heard t inside with given | ⟨same, compared⟩
    · obtain ⟨result, s', passed, idle⟩ := EStateM.exists_ok given
      exact .inl ⟨result, s', passed, of_decide_eq_true idle⟩
    · refine .inr ⟨?_, ?_, Except.exists_ok compared⟩
      · rw [same]
        exact sound
      · rw [same]
        exact isDocument_appendedSpace
  obtain ⟨s', ran, twins⟩ := runAll_of_peaceful plain following.reads observers
    (fun held later => following.unspent.live held later) spare alone peaceful
  exact ⟨w, s', alone, ran, twins⟩

/-- An array whose one item, an object with a pair, has been removed. -/
def emptiedSpace : Workspace := afterCalls (readIn "[\x7b\"a\": 1\x7d]" 3) [.remove "n5"]

theorem isDocument_emptiedSpace : emptiedSpace.model.IsDocument := by
  have size : emptiedSpace.model.nodes.size = 3 := by decide +kernel
  have only : ∀ k < 3, (emptiedSpace.model.node k).live = true → k = 0 := by decide +kernel
  exact isDocument_of_array (by decide +kernel) (by decide +kernel) (by decide +kernel)
    (by decide +kernel) (by decide +kernel) (by decide +kernel)
    (fun k held => .inl (only k (size ▸ held.1) held.2)) (by decide +kernel)

/-- An edit of several steps that ends in a document without listeners fails in a session: while it
destroys an object with what is below it, the object goes first, and the text takes this up at once,
with nothing left of the pair that is still there; the echo then destroys the pair, and the edit cannot
destroy it again. -/
theorem not_runAll_of_alone : ¬ ∀ (text : String) (s : Session) (acts : List Act) (w : Workspace),
    Session.create {} text true = .ok s →
    Act.runAll (Workspace.silent Error.edit) acts { model := s.live, supply := s.supply } = .ok () w →
    w.model.Sound → w.model.IsDocument →
    ∃ s', Act.runAll Session.host acts s = .ok () s' ∧ w.model.Twins s.supply s'.supply s'.live := by
  intro always
  obtain ⟨parses, alone, failed⟩ : (Session.create {} "[\x7b\"a\": 1\x7d]" true).toOption.isSome = true ∧
      (Act.runAll (Workspace.silent Error.edit) [.remove 1]).comesTo
        { model := (Session.attendedOn "[\x7b\"a\": 1\x7d]").live,
          supply := (Session.attendedOn "[\x7b\"a\": 1\x7d]").supply }
        (fun _ w => decide (w.model = emptiedSpace.model)) = true ∧
      (Act.runAll Session.host [.remove 1]).breaksAt (Session.attendedOn "[\x7b\"a\": 1\x7d]")
        (fun e _ => decide (e = .edit (.refused (.node "n6") .foreign))) = true := by decide +kernel
  obtain ⟨_, w, alone, same⟩ := EStateM.exists_ok alone
  obtain ⟨e, s₁, failed, -⟩ := EStateM.exists_error failed
  have same := of_decide_eq_true same
  have sound : emptiedSpace.model.Sound :=
    ((reachable_readIn "[\x7b\"a\": 1\x7d]" 3).afterCalls _).sound
  obtain ⟨s', ran, -⟩ := always _ _ _ w (Session.create_eq_attendedOn parses) alone (same ▸ sound)
    (same ▸ isDocument_emptiedSpace)
  cases failed.symm.trans ran

end DocSync
