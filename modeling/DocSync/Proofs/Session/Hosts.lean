import DocSync.Proofs.Model.Hearing
import DocSync.Proofs.Outcome
import DocSync.Session.Basic

/-!
A session as a host. Its listeners are calm when each of them only takes notice of an event, and then
nothing happens to the session but what a replay or an edit does by itself. During a pass they are calm
if none of them asks for another pass; at an edit they are calm if, besides, no pass follows it of its
own.
-/

namespace DocSync

variable {s₀ s s' s'' : Session}

namespace Session

/-! ### What events leave alone -/

/-- A session comes to have another live model, more ids handed out, and more events heard of. -/
structure Stirred (s s' : Session) : Prop where
  config : s'.config = s.config
  text : s'.text = s.text
  read : s'.read = s.read
  history : s'.history = s.history
  synchronized : s'.synchronized = s.synchronized
  autoSync : s'.autoSync = s.autoSync
  observers : s'.observers = s.observers
  supply : s.supply ≤ s'.supply

namespace Stirred

theorem refl (s : Session) : Stirred s s := ⟨rfl, rfl, rfl, rfl, rfl, rfl, rfl, Nat.le_refl _⟩

theorem trans (first : Stirred s s') (second : Stirred s' s'') : Stirred s s'' where
  config := second.config.trans first.config
  text := second.text.trans first.text
  read := second.read.trans first.read
  history := second.history.trans first.history
  synchronized := second.synchronized.trans first.synchronized
  autoSync := second.autoSync.trans first.autoSync
  observers := second.observers.trans first.observers
  supply := first.supply.trans second.supply

end Stirred

/-- Nobody asks for a pass after an event. -/
def Calm (s : Session) : Prop := ∀ number, Observer.eager number ∉ s.observers

/-! ### Calm listeners -/

/-- A listener takes notice of an event, and does no more. -/
def heed (event : Event) : Observer → SessionStep Unit
  | .keeper => discard keep
  | .journal => recordEvent event
  | .eager _ => return

/-- All listeners take notice of an event. -/
def note (event : Event) : SessionStep Unit := do
  (← get).observers.forM (heed event)

/-- The session as a host whose listeners only take notice. -/
def calmHost : Host Error Session := hostWith note

theorem keep_eq (s : Session) :
    ∃ edited s', keep s = .ok edited s' ∧ s'.live = s.live ∧ Stirred s s' := by
  unfold keep
  cases s.guard.consume with
  | mk echo guard =>
    cases echo <;>
      exact ⟨_, _, rfl, rfl, rfl, rfl, rfl, rfl, rfl, rfl, rfl, Nat.le_refl _⟩

theorem heed_eq (event : Event) (observer : Observer) (s : Session) :
    ∃ s', heed event observer s = .ok () s' ∧ s'.live = s.live ∧ Stirred s s' := by
  cases observer with
  | keeper =>
    obtain ⟨edited, s', kept, same⟩ := keep_eq s
    exact ⟨s', EStateM.discard_eq_ok_iff.2 ⟨edited, kept⟩, same⟩
  | journal => exact ⟨_, rfl, rfl, rfl, rfl, rfl, rfl, rfl, rfl, rfl, Nat.le_refl _⟩
  | eager number => exact ⟨s, rfl, rfl, .refl s⟩

/-- Taking notice leaves the live model as it is. -/
theorem note_eq (event : Event) (s : Session) :
    ∃ s', note event s = .ok () s' ∧ s'.live = s.live ∧ Stirred s s' := by
  have all : ∀ observers : List Observer, ∃ s', observers.forM (heed event) s = .ok () s' ∧
      s'.live = s.live ∧ Stirred s s' := by
    intro observers
    induction observers generalizing s with
    | nil => exact ⟨s, rfl, rfl, .refl s⟩
    | cons observer rest ih =>
      obtain ⟨s₁, first, live, stirred⟩ := heed_eq event observer s
      obtain ⟨s₂, later, live', stirred'⟩ := ih s₁
      exact ⟨s₂, EStateM.bind_eq_ok_iff.2 ⟨(), s₁, first, later⟩, live'.trans live,
        stirred.trans stirred'⟩
  exact all s.observers

theorem stirred_heed (event : Event) (observer : Observer) (s : Session) :
    Stirred s (endOf (heed event observer) s) := by
  obtain ⟨s', heeded, -, stirred⟩ := heed_eq event observer s
  rw [endOf, heeded]
  exact stirred

theorem quiet_calmHost : calmHost.Quiet where
  model_withModel _ _ := rfl
  model_withSupply _ _ := rfl
  notify event s := by
    obtain ⟨s', noted, live, -⟩ := note_eq event s
    exact ⟨s', noted, live⟩

/-- Listeners are calm if each of them does in the session's states what a calm one does. -/
theorem hears_of_each {hear : Event → Observer → SessionStep Unit}
    (each : ∀ event, ∀ observer ∈ s₀.observers,
      Agree (Stirred s₀) (hear event observer) (heed event observer)) :
    calmHost.Hears (fun event => do (← get).observers.forM (hear event)) (Stirred s₀) where
  withModel _ here := here.trans ⟨rfl, rfl, rfl, rfl, rfl, rfl, rfl, Nat.le_refl _⟩
  withSupply here := here.trans ⟨rfl, rfl, rfl, rfl, rfl, rfl, rfl, Nat.le_succ _⟩
  notify event s here :=
    have heard : Agree (Stirred s₀) (s.observers.forM (hear event)) (s.observers.forM (heed event)) :=
      .forM fun observer inside => each event observer (here.observers ▸ inside)
    heard s here

/-- During a pass the listeners are calm if none of them asks for another one. -/
theorem hears_inPass (calm : s₀.Calm) : calmHost.Hears notifyInPass (Stirred s₀) := by
  refine hears_of_each fun event observer inside => ?_
  cases observer with
  | keeper => exact Agree.of_ends fun s here => here.trans (stirred_heed event .keeper s)
  | journal => exact Agree.of_ends fun s here => here.trans (stirred_heed event .journal s)
  | eager number => exact absurd inside (calm number)

/-- At an edit the listeners are calm if, besides, no pass follows the edit of its own. -/
theorem hears_ofEdit (calm : s₀.Calm) (manual : s₀.autoSync = false) :
    calmHost.Hears notifyOfEdit (Stirred s₀) := by
  refine hears_of_each fun event observer inside => ?_
  cases observer with
  | journal => exact Agree.of_ends fun s here => here.trans (stirred_heed event .journal s)
  | eager number => exact absurd inside (calm number)
  | keeper =>
    intro s here
    refine ⟨?_, here.trans (stirred_heed event .keeper s)⟩
    obtain ⟨edited, s', kept, -, stirred⟩ := keep_eq s
    have off : s'.autoSync = false := stirred.autoSync.trans (here.autoSync.trans manual)
    rw [show heed event .keeper s = .ok () s' from EStateM.discard_eq_ok_iff.2 ⟨edited, kept⟩]
    refine EStateM.bind_eq_ok_iff.2 ⟨edited, s', kept, EStateM.bind_eq_ok_iff.2 ⟨s', s', rfl, ?_⟩⟩
    rw [off, Bool.and_false]
    rfl

end Session

end DocSync
