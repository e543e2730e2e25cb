import DocSync.Model.Host
import DocSync.Proofs.Model.Edit

/-!
What a run in a host does to the host's model, for hosts whose listeners leave the model alone. A
run that fails has not done all of it, but leaves a sound model behind.
-/

namespace DocSync

open Model

variable {ε σ α β : Type} {h : Host ε σ}

namespace Host

/-- A host whose listeners leave its model alone. -/
structure Quiet (h : Host ε σ) : Prop where
  model_withModel : ∀ s m, h.model (h.withModel s m) = m
  model_withSupply : ∀ s n, h.model (h.withSupply s n) = h.model s
  notify : ∀ event s, ∃ s', h.notify event s = .ok () s' ∧ h.model s' = h.model s

/-- From a model of one kind a run succeeds with a model of another; if it fails the model is sound
all the same. -/
def Runs (h : Host ε σ) (before : Model → Prop) (run : EStateM ε σ α) (after : α → Model → Prop) :
    Prop :=
  ∀ s, before (h.model s) →
    match run s with
    | .ok a s' => after a (h.model s')
    | .error _ s' => (h.model s').Sound

namespace Runs

variable {before : Model → Prop} {after : α → Model → Prop} {run : EStateM ε σ α}

theorem bind {next : α → EStateM ε σ β} {last : β → Model → Prop} (first : h.Runs before run after)
    (rest : ∀ a, h.Runs (after a) (next a) last) : h.Runs before (run >>= next) last := by
  intro s holds
  have step := first s holds
  simp only [Bind.bind, EStateM.bind]
  cases ran : run s with
  | ok a s' =>
    rw [ran] at step
    exact rest a s' step
  | error e s' =>
    rw [ran] at step
    exact step

/-- What a run that succeeds leads to. -/
theorem of_ok {s s' : σ} {a : α} (runs : h.Runs before run after) (holds : before (h.model s))
    (ran : run s = .ok a s') : after a (h.model s') := by
  have step := runs s holds
  rw [ran] at step
  exact step

/-- A run that leads to sound models ends in one, whether it succeeds or fails. -/
theorem sound_endOf (runs : h.Runs before run fun _ => Sound) {s : σ} (holds : before (h.model s)) :
    (h.model (endOf run s)).Sound := by
  have step := runs s holds
  unfold endOf
  cases ran : run s with
  | ok a s' => rw [ran] at step; exact step
  | error e s' => rw [ran] at step; exact step

theorem pure (a : α) (gives : ∀ m, before m → after a m) : h.Runs before (Pure.pure a) after :=
  fun _ holds => gives _ holds

theorem mono {before' : Model → Prop} {after' : α → Model → Prop} (runs : h.Runs before run after)
    (weaker : ∀ m, before' m → before m) (stronger : ∀ a m, after a m → after' a m) :
    h.Runs before' run after' := by
  intro s holds
  have step := runs s (weaker _ holds)
  cases ran : run s with
  | ok a s' =>
    rw [ran] at step
    exact stronger a _ step
  | error e s' =>
    rw [ran] at step
    exact step

theorem current {before : Model → Prop} :
    h.Runs before h.current fun m m' => m = m' ∧ before m :=
  fun _ holds => ⟨rfl, holds⟩

/-- A case distinction on what is known. -/
theorem ite {p : Prop} [Decidable p] {other : EStateM ε σ α} (yes : p → h.Runs before run after)
    (no : ¬ p → h.Runs before other after) : h.Runs before (if p then run else other) after := by
  by_cases known : p
  · rw [if_pos known]; exact yes known
  · rw [if_neg known]; exact no known

theorem map {f : α → β} {last : β → Model → Prop} (runs : h.Runs before run after)
    (gives : ∀ a m, after a m → last (f a) m) : h.Runs before (f <$> run) last := by
  intro s holds
  have step := runs s holds
  simp only [Functor.map, EStateM.map]
  cases ran : run s with
  | ok a s' =>
    rw [ran] at step
    exact gives a _ step
  | error e s' =>
    rw [ran] at step
    exact step

theorem discard (runs : h.Runs before run after) {last : Model → Prop}
    (gives : ∀ a m, after a m → last m) : h.Runs before (Functor.discard run) fun _ => last :=
  runs.map gives

/-- What each of several runs keeps, all of them keep. -/
theorem forM {ks : List α} {each : α → EStateM ε σ PUnit} {kept : Model → Prop}
    (step : ∀ k ∈ ks, h.Runs kept (each k) fun _ => kept) :
    h.Runs kept (ks.forM each) fun _ => kept := by
  induction ks with
  | nil => exact Runs.pure _ fun _ holds => holds
  | cons k rest ih =>
    change h.Runs kept (each k >>= fun _ => rest.forM each) _
    exact (step k List.mem_cons_self).bind fun _ =>
      ih fun j member => step j (List.mem_cons_of_mem _ member)

/-- An edit of the model does to the host what it does to a model. -/
theorem edit (quiet : h.Quiet) {change : Edit α}
    (does : ∀ m, before m → match change m with
      | .ok a m' => after a m'
      | .error _ m' => m'.Sound) : h.Runs before (h.edit change) after := by
  intro s holds
  have step := does _ holds
  simp only [Host.edit]
  cases ran : change (h.model s) with
  | ok a m' =>
    rw [ran] at step
    simpa only [quiet.model_withModel] using step
  | error e m' =>
    rw [ran] at step
    simpa only [quiet.model_withModel] using step

/-- Listeners leave the model as it is. -/
theorem notify (quiet : h.Quiet) (event : Event) {kept : Model → Prop} :
    h.Runs kept (h.notify event) fun _ => kept := by
  intro s holds
  obtain ⟨s', ran, same⟩ := quiet.notify event s
  simpa only [ran, same] using holds

/-- An edit, and then word of it to the listeners. -/
theorem announce (quiet : h.Quiet) {change : Edit Event} {kept : Model → Prop}
    (does : ∀ m, before m → match change m with
      | .ok _ m' => kept m'
      | .error _ m' => m'.Sound) :
    h.Runs before (do h.notify (← h.edit change)) fun _ => kept := by
  have edited : h.Runs before (h.edit change) fun _ => kept := edit quiet fun m holds => by
    have done := does m holds
    cases ran : change m <;> simpa only [ran] using done
  exact edited.bind fun event => notify quiet event

/-- An edit that yields something, and then word of it to the listeners. -/
theorem announceWith (quiet : h.Quiet) {change : Edit (α × Event)}
    (does : ∀ m, before m → match change m with
      | .ok made m' => after made.1 m'
      | .error _ m' => m'.Sound) :
    h.Runs before (do
      let (a, event) ← h.edit change
      h.notify event
      return a) after := by
  have edited : h.Runs before (h.edit change) fun made => after made.1 :=
    edit quiet fun m holds => by
      have done := does m holds
      cases ran : change m <;> simpa only [ran] using done
  exact edited.bind fun made => (notify quiet _).bind fun _ => pure _ fun _ holds => holds

theorem newId (quiet : h.Quiet) {kept : Model → Prop} :
    h.Runs kept h.newId fun id m => (∃ n, id = freshId n) ∧ kept m := by
  intro s holds
  simp only [Host.newId, quiet.model_withSupply]
  exact ⟨⟨_, rfl⟩, holds⟩

end Runs

/-- From a state a run succeeds with a value, and with a model. -/
def Gives (h : Host ε σ) (s : σ) (run : EStateM ε σ α) (a : α) (m : Model) : Prop :=
  ∃ s', run s = .ok a s' ∧ h.model s' = m

namespace Gives

variable {s : σ} {run : EStateM ε σ α} {a : α} {b : β} {m m' : Model}

theorem trans {next : α → EStateM ε σ β} {s' : σ} (first : run s = .ok a s')
    (rest : h.Gives s' (next a) b m') : h.Gives s (run >>= next) b m' := by
  obtain ⟨s'', went, last⟩ := rest
  exact ⟨s'', by simp only [Bind.bind, EStateM.bind, first, went], last⟩

theorem bind {next : α → EStateM ε σ β} (first : h.Gives s run a m)
    (rest : ∀ s', h.model s' = m → h.Gives s' (next a) b m') : h.Gives s (run >>= next) b m' := by
  obtain ⟨s', ran, same⟩ := first
  exact trans ran (rest s' same)

theorem pure (h : Host ε σ) (s : σ) (a : α) : h.Gives s (Pure.pure a) a (h.model s) :=
  ⟨s, rfl, rfl⟩

theorem current (h : Host ε σ) (s : σ) : h.Gives s h.current (h.model s) (h.model s) :=
  ⟨s, rfl, rfl⟩

theorem edit (quiet : h.Quiet) {change : Edit α} (does : change (h.model s) = .ok a m) :
    h.Gives s (h.edit change) a m :=
  ⟨h.withModel s m, by simp only [Host.edit, does], quiet.model_withModel s m⟩

theorem notify (quiet : h.Quiet) (event : Event) (s : σ) :
    h.Gives s (h.notify event) () (h.model s) := quiet.notify event s

theorem discard (gives : h.Gives s run a m) : h.Gives s (Functor.discard run) () m := by
  obtain ⟨s', ran, same⟩ := gives
  refine ⟨s', ?_, same⟩
  simp only [Functor.discard, Functor.mapConst, EStateM.map, Function.comp, ran]

theorem createNode (quiet : h.Quiet) {id : NodeId} {kind : Kind} {content : Content}
    (solid : id.isVoid = false) (free : (h.model s).find? id = none) :
    h.Gives s (h.createNode (some id) kind content) (h.model s).nodes.size
      ((h.model s).grown id kind content) := by
  have made : h.Gives s (do
      let made ← h.edit (Model.createNode id kind content)
      h.notify made.2
      return made.1) (h.model s).nodes.size ((h.model s).grown id kind content) := by
    refine (edit quiet (createNode_eq kind content free)).bind fun s' here => ?_
    refine (notify quiet _ s').bind fun s'' there => ?_
    exact (here ▸ there) ▸ pure h s'' _
  have given : ¬ ((some id).getD .null).isVoid = true := by simp [solid]
  simp only [Host.createNode, if_neg given]
  exact made

theorem deleteNode (quiet : h.Quiet) {k : Key} (does : Model.deleteNode k (h.model s) = .ok e m) :
    h.Gives s (h.deleteNode k) () m :=
  (edit quiet does).bind fun s' here => here ▸ notify quiet _ s'

theorem link (quiet : h.Quiet) {parent child : Key} {slot : String}
    (does : Model.link parent slot child (h.model s) = .ok e m) :
    h.Gives s (h.link parent slot child) () m :=
  (edit quiet does).bind fun s' here => here ▸ notify quiet _ s'

theorem unlink (quiet : h.Quiet) {parent child : Key} {slot : String}
    (does : Model.unlink parent slot (h.model s) = .ok (child, e) m) :
    h.Gives s (h.unlink parent slot) child m := by
  refine (edit quiet does).bind fun s' here => ?_
  refine (notify quiet _ s').bind fun s'' there => ?_
  exact (here ▸ there) ▸ pure h s'' child

theorem setField (quiet : h.Quiet) (s : σ) (k : Key) (name : String) (value : Option String) :
    h.Gives s (h.setField k name value) () ((h.model s).withField k name value) :=
  (edit quiet (setField_eq _ k name value)).bind fun s' here => here ▸ notify quiet _ s'

end Gives

/-- What becomes of a run: it succeeds with a value and a model of one kind, or fails with a model of
another. -/
def Ends (h : Host ε σ) (s : σ) (run : EStateM ε σ α) (done : α → Model → Prop)
    (failed : Model → Prop) : Prop :=
  match run s with
  | .ok a s' => done a (h.model s')
  | .error _ s' => failed (h.model s')

namespace Ends

variable {s : σ} {run : EStateM ε σ α} {a : α} {m : Model} {done : α → Model → Prop}
  {failed : Model → Prop} {p c : Key} {e : Edge} {slot : String}

theorem bind {next : α → EStateM ε σ β} {last : β → Model → Prop} (first : h.Ends s run done failed)
    (rest : ∀ a s', done a (h.model s') → h.Ends s' (next a) last failed) :
    h.Ends s (run >>= next) last failed := by
  unfold Ends at first ⊢
  simp only [Bind.bind, EStateM.bind]
  cases ran : run s with
  | ok a s' =>
    rw [ran] at first
    exact rest a s' first
  | error e s' =>
    rw [ran] at first
    exact first

theorem pure (holds : done a (h.model s)) : h.Ends s (Pure.pure a) done failed := holds

/-- The model as it stands is known to what is run next. -/
theorem current {next : Model → EStateM ε σ α} (rest : h.Ends s (next (h.model s)) done failed) :
    h.Ends s (h.current >>= next) done failed := rest

theorem of_gives (gives : h.Gives s run a m) (holds : done a m) : h.Ends s run done failed := by
  obtain ⟨s', ran, rfl⟩ := gives
  unfold Ends
  rw [ran]
  exact holds

theorem mono {last : α → Model → Prop} (ends : h.Ends s run done failed)
    (stronger : ∀ a m, done a m → last a m) : h.Ends s run last failed := by
  unfold Ends at ends ⊢
  cases ran : run s with
  | ok a s' =>
    rw [ran] at ends
    exact stronger a _ ends
  | error e s' =>
    rw [ran] at ends
    exact ends

/-- What a run gives is all that becomes of it. -/
theorem gives (gives : h.Gives s run a m) :
    h.Ends s run (fun b m' => b = a ∧ m' = m) failed := of_gives gives ⟨rfl, rfl⟩

/-- A run that cannot fail succeeds. -/
theorem exists_ok (ends : h.Ends s run done fun _ => False) :
    ∃ a s', run s = .ok a s' ∧ done a (h.model s') := by
  unfold Ends at ends
  cases ran : run s with
  | ok a s' =>
    rw [ran] at ends
    exact ⟨a, s', rfl, ends⟩
  | error e s' =>
    rw [ran] at ends
    exact ends.elim

/-- A run that fails ends in a model of the kind that failures have. -/
theorem of_error {e : ε} {s' : σ} (ends : h.Ends s run done failed) (ran : run s = .error e s') :
    failed (h.model s') := by
  unfold Ends at ends
  rw [ran] at ends
  exact ends

/-- A link is made if nothing stands in its way, and else the model stays as it is. -/
theorem link {done : Unit → Model → Prop} (quiet : h.Quiet) (sound : (h.model s).Sound)
    (held : (h.model s).Holds c)
    (joined : ∀ e, ((h.model s).node p).edge? slot = some e → ((h.model s).node p).target? e = none →
      ((h.model s).node c).parent = none → (h.model s).top p ≠ c →
      done () ((h.model s).rehang p e c true))
    (refused : ¬ (∃ e, ((h.model s).node p).edge? slot = some e ∧
      ((h.model s).node p).target? e = none ∧ ((h.model s).node c).parent = none ∧
      (h.model s).top p ≠ c) → failed (h.model s)) :
    h.Ends s (h.link p slot c) done failed := by
  rcases sound.link_cases p held slot with ⟨e, named, free, root, apart, ran⟩ | ⟨_, _, ran⟩
  · exact of_gives (Gives.link quiet ran) (joined e named free root apart)
  · -- Had nothing stood in the way, the link would have been made.
    have blocked : ¬ ∃ e, ((h.model s).node p).edge? slot = some e ∧
        ((h.model s).node p).target? e = none ∧ ((h.model s).node c).parent = none ∧
        (h.model s).top p ≠ c := by
      intro possible
      obtain ⟨e, named, free, root, apart⟩ := possible
      rw [link_eq sound held named free root apart] at ran
      cases ran
    unfold Ends
    simp only [Host.link, Host.edit, Bind.bind, EStateM.bind, ran, quiet.model_withModel]
    exact refused blocked

end Ends

end Host

end DocSync
