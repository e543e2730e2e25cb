import DocSync.Proofs.Model.Reachable
import DocSync.Proofs.Outcome

/-!
Hosts side by side. Where two hosts keep one model, hand out the same ids, and have listeners that do
the same, every run does the same in both of them. In particular the hosts may differ in nothing but
their listeners; and what an edit leaves alone, and a listener too, a run leaves alone.
-/

namespace DocSync

variable {ε σ τ α β : Type} {P : σ → Prop} {R : σ → τ → Prop}

/-- Two computations do the same in all states of a kind, and end in such a state. -/
def Agree (P : σ → Prop) (x y : EStateM ε σ α) : Prop := ∀ s, P s → x s = y s ∧ P (endOf y s)

namespace Agree

variable {x y : EStateM ε σ α}

/-- A computation that stays in the states of a kind agrees with itself. -/
theorem of_ends (ends : ∀ s, P s → P (endOf y s)) : Agree P y y := fun s here => ⟨rfl, ends s here⟩

theorem pure (a : α) : Agree P (Pure.pure a : EStateM ε σ α) (Pure.pure a) := .of_ends fun _ here => here

theorem throw (e : ε) : Agree P (MonadExcept.throw e : EStateM ε σ α) (MonadExcept.throw e) :=
  .of_ends fun _ here => here

/-- Two steps, the second of which need only be known where the first one leads. -/
theorem bind_of_ok {f g : α → EStateM ε σ β} (first : Agree P x y)
    (rest : ∀ a, (∃ s s', P s ∧ y s = .ok a s') → Agree P (f a) (g a)) : Agree P (x >>= f) (y >>= g) := by
  intro s here
  obtain ⟨same, last⟩ := first s here
  simp only [endOf, Bind.bind, EStateM.bind] at last ⊢
  rw [same]
  -- The second computation starts where the first one has led, if it has not failed.
  cases ran : y s with
  | ok a s' =>
    rw [ran] at last
    exact rest a ⟨s, s', here, ran⟩ s' last
  | error e s' =>
    rw [ran] at last
    exact ⟨rfl, last⟩

theorem bind {f g : α → EStateM ε σ β} (first : Agree P x y) (rest : ∀ a, Agree P (f a) (g a)) :
    Agree P (x >>= f) (y >>= g) := first.bind_of_ok fun a _ => rest a

theorem discard (first : Agree P x y) : Agree P (Functor.discard x) (Functor.discard y) :=
  first.bind fun _ => .pure _

theorem tryCatch {f g : ε → EStateM ε σ α} (first : Agree P x y) (rest : ∀ e, Agree P (f e) (g e)) :
    Agree P (MonadExcept.tryCatch x f) (MonadExcept.tryCatch y g) := by
  intro s here
  obtain ⟨same, last⟩ := first s here
  simp only [endOf, MonadExcept.tryCatch, tryCatchThe, MonadExceptOf.tryCatch, EStateM.tryCatch] at last ⊢
  rw [same]
  cases ran : y s with
  | ok a s' =>
    rw [ran] at last
    exact ⟨rfl, last⟩
  | error e s' =>
    rw [ran] at last
    exact rest e s' last

theorem ite {p : Prop} [Decidable p] {x' y' : EStateM ε σ α} (yes : Agree P x y)
    (no : Agree P x' y') : Agree P (if p then x else x') (if p then y else y') := by
  split
  · exact yes
  · exact no

theorem forM {ks : List α} {f g : α → EStateM ε σ PUnit} (each : ∀ k ∈ ks, Agree P (f k) (g k)) :
    Agree P (ks.forM f) (ks.forM g) := by
  induction ks with
  | nil => exact .pure _
  | cons k rest ih =>
    exact (each k List.mem_cons_self).bind fun _ => ih fun j later => each j (List.mem_cons_of_mem _ later)

theorem mapM {ks : List α} {f g : α → EStateM ε σ β} (each : ∀ k, Agree P (f k) (g k)) :
    Agree P (ks.mapM f) (ks.mapM g) := by
  induction ks with
  | nil => exact .pure []
  | cons k rest ih =>
    rw [List.mapM_cons, List.mapM_cons]
    exact (each k).bind fun _ => ih.bind fun _ => .pure _

end Agree

/-- Two computations, on states of two types, do the same from related states: both succeed with one
result, or both fail for one reason, and they come to related states. -/
def Abreast (R : σ → τ → Prop) (x : EStateM ε σ α) (y : EStateM ε τ α) : Prop :=
  ∀ s t, R s t → ∃ s' t', R s' t' ∧
    ((∃ a, x s = .ok a s' ∧ y t = .ok a t') ∨ ∃ e, x s = .error e s' ∧ y t = .error e t')

namespace Abreast

variable {x : EStateM ε σ α} {y : EStateM ε τ α}

theorem pure (a : α) : Abreast R (Pure.pure a : EStateM ε σ α) (Pure.pure a) :=
  fun s t here => ⟨s, t, here, .inl ⟨a, rfl, rfl⟩⟩

theorem throw (e : ε) :
    Abreast R (MonadExcept.throw e : EStateM ε σ α) (MonadExcept.throw e : EStateM ε τ α) :=
  fun s t here => ⟨s, t, here, .inr ⟨e, rfl, rfl⟩⟩

theorem bind {f : α → EStateM ε σ β} {g : α → EStateM ε τ β} (first : Abreast R x y)
    (rest : ∀ a, Abreast R (f a) (g a)) : Abreast R (x >>= f) (y >>= g) := by
  intro s t here
  obtain ⟨s₁, t₁, here₁, ⟨a, ranX, ranY⟩ | ⟨e, failedX, failedY⟩⟩ := first s t here
  · rw [EStateM.bind_of_ok ranX, EStateM.bind_of_ok ranY]
    exact rest a s₁ t₁ here₁
  · rw [EStateM.bind_of_error failedX, EStateM.bind_of_error failedY]
    exact ⟨s₁, t₁, here₁, .inr ⟨e, rfl, rfl⟩⟩

theorem discard (first : Abreast R x y) : Abreast R (Functor.discard x) (Functor.discard y) := by
  rw [EStateM.discard_eq_bind, EStateM.discard_eq_bind]
  exact first.bind fun _ => .pure _

theorem ite {p : Prop} [Decidable p] {x' : EStateM ε σ α} {y' : EStateM ε τ α} (yes : Abreast R x y)
    (no : Abreast R x' y') : Abreast R (if p then x else x') (if p then y else y') := by
  split
  · exact yes
  · exact no

theorem forM {ks : List α} {f : α → EStateM ε σ PUnit} {g : α → EStateM ε τ PUnit}
    (each : ∀ k, Abreast R (f k) (g k)) : Abreast R (ks.forM f) (ks.forM g) := by
  induction ks with
  | nil => exact .pure _
  | cons k rest ih => exact (each k).bind fun _ => ih

theorem mapM {ks : List α} {f : α → EStateM ε σ β} {g : α → EStateM ε τ β}
    (each : ∀ k, Abreast R (f k) (g k)) : Abreast R (ks.mapM f) (ks.mapM g) := by
  induction ks with
  | nil => exact .pure []
  | cons k rest ih =>
    rw [List.mapM_cons, List.mapM_cons]
    exact (each k).bind fun _ => ih.bind fun _ => .pure _

/-- Both come to related ends. -/
theorem ends (abreast : Abreast R x y) {s : σ} {t : τ} (here : R s t) : R (endOf x s) (endOf y t) := by
  obtain ⟨s', t', there, ⟨a, ranX, ranY⟩ | ⟨e, failedX, failedY⟩⟩ := abreast s t here
  · rwa [endOf, endOf, ranX, ranY]
  · rwa [endOf, endOf, failedX, failedY]

end Abreast

/-- To agree is to go abreast from one and the same state. -/
theorem agree_iff_abreast {x y : EStateM ε σ α} :
    Agree P x y ↔ Abreast (fun s t => s = t ∧ P t) x y := by
  constructor
  · rintro agree s _ ⟨rfl, here⟩
    obtain ⟨same, last⟩ := agree s here
    rw [same]
    refine ⟨endOf y s, endOf y s, ⟨rfl, last⟩, ?_⟩
    unfold endOf
    cases y s with
    | ok a s' => exact .inl ⟨a, rfl, rfl⟩
    | error e s' => exact .inr ⟨e, rfl, rfl⟩
  · intro abreast s here
    obtain ⟨s', _, ⟨rfl, last⟩, ⟨a, ranX, ranY⟩ | ⟨e, failedX, failedY⟩⟩ := abreast s s ⟨rfl, here⟩
    · rw [endOf, ranX, ranY]
      exact ⟨rfl, last⟩
    · rw [endOf, failedX, failedY]
      exact ⟨rfl, last⟩

namespace Host

/-- The host with other listeners. -/
def hearing (h : Host ε σ) (notify : Event → EStateM ε σ Unit) : Host ε σ := { h with notify := notify }

/-- Two hosts in related states keep one model and hand out one id next; what an edit does to them leaves
them related, and so do their listeners. -/
structure Matches (h : Host ε σ) (g : Host ε τ) (R : σ → τ → Prop) : Prop where
  model : ∀ {s t}, R s t → h.model s = g.model t
  supply : ∀ {s t}, R s t → h.supply s = g.supply t
  refusal : h.refusal = g.refusal
  withModel : ∀ {s t} m, R s t → R (h.withModel s m) (g.withModel t m)
  withSupply : ∀ {s t}, R s t →
    R (h.withSupply s (h.supply s + 1)) (g.withSupply t (g.supply t + 1))
  notify : ∀ event, Abreast R (h.notify event) (g.notify event)

namespace Matches

variable {h : Host ε σ} {g : Host ε τ} (matched : h.Matches g R)
include matched

theorem edit (change : Edit α) : Abreast R (h.edit change) (g.edit change) := by
  intro s t here
  simp only [Host.edit, matched.model here, matched.refusal]
  -- Also a refused edit puts a model back.
  cases change (g.model t) with
  | ok a m => exact ⟨_, _, matched.withModel m here, .inl ⟨a, rfl, rfl⟩⟩
  | error e m => exact ⟨_, _, matched.withModel m here, .inr ⟨_, rfl, rfl⟩⟩

theorem current : Abreast R h.current g.current := fun s t here =>
  ⟨s, t, here, .inl ⟨g.model t, by rw [Host.current, matched.model here], rfl⟩⟩

theorem newId : Abreast R h.newId g.newId := fun s t here =>
  ⟨_, _, matched.withSupply here, .inl ⟨freshId (g.supply t + 1),
    by simp only [Host.newId, matched.supply here], rfl⟩⟩

theorem announce (change : Edit Event) :
    Abreast R (do h.notify (← h.edit change)) (do g.notify (← g.edit change)) :=
  (matched.edit change).bind matched.notify

theorem announceWith (change : Edit (α × Event)) :
    Abreast R
      (do
        let (a, event) ← h.edit change
        h.notify event
        return a)
      (do
        let (a, event) ← g.edit change
        g.notify event
        return a) :=
  (matched.edit change).bind fun made => (matched.notify made.2).bind fun _ => .pure made.1

theorem createNode (id : Option NodeId) (kind : Kind) (content : Content) :
    Abreast R (h.createNode id kind content) (g.createNode id kind content) :=
  .ite (matched.newId.bind fun _ => matched.announceWith _) (matched.announceWith _)

theorem deleteNode (k : Key) : Abreast R (h.deleteNode k) (g.deleteNode k) := matched.announce _

theorem link (parent : Key) (slot : String) (child : Key) :
    Abreast R (h.link parent slot child) (g.link parent slot child) := matched.announce _

theorem unlink (parent : Key) (slot : String) : Abreast R (h.unlink parent slot) (g.unlink parent slot) :=
  matched.announceWith _

theorem setField (k : Key) (name : String) (value : Option String) :
    Abreast R (h.setField k name value) (g.setField k name value) := matched.announce _

/-! ### Composite edits -/

theorem insertAfter (anchor node : Key) : Abreast R (h.insertAfter anchor node) (g.insertAfter anchor node) :=
  matched.current.bind fun _ => .ite
    ((matched.unlink _ _).bind fun _ => (matched.link _ _ _).bind fun _ => matched.link _ _ _)
    (matched.link _ _ _)

theorem appendChild (parent : Key) (slot : String) (node : Key) :
    Abreast R (h.appendChild parent slot node) (g.appendChild parent slot node) := by
  refine matched.current.bind fun m => ?_
  cases (m.childrenAt parent slot).getLast? <;> exact matched.link _ _ _

theorem detach (k : Key) : Abreast R (h.detach k) (g.detach k) := by
  refine matched.current.bind fun m => ?_
  cases (m.node k).parent with
  | none => exact .pure _
  | some above =>
    refine (matched.unlink _ _).discard.bind fun _ => matched.current.bind fun _ => ?_
    exact .ite ((matched.unlink _ _).bind fun _ => matched.link _ _ _) (.pure _)

theorem isolate (k : Key) : Abreast R (h.isolate k) (g.isolate k) := by
  refine matched.current.bind fun _ => .ite ((matched.unlink _ _).discard.bind fun _ => ?_) ?_
  -- The link to the children is cut alike, whether or not the one to the next sibling was there.
  all_goals
    refine matched.current.bind fun m => ?_
    cases (m.node k).kind.slot? with
    | none => exact .pure _
    | some slot => exact matched.current.bind fun _ => .ite (matched.unlink _ _).discard (.pure _)

theorem remove (k : Key) : Abreast R (h.remove k) (g.remove k) :=
  (matched.detach k).bind fun _ => matched.current.bind fun _ =>
    (Abreast.forM fun j => matched.isolate j).bind fun _ => .forM fun j => matched.deleteNode j

end Matches

/-! ### Replays and calls -/

namespace Matches

variable {h : Host Error σ} {g : Host Error τ} (matched : h.Matches g R)
include matched

theorem lookup (id : NodeId) : Abreast R (h.lookup id) (g.lookup id) := by
  refine matched.current.bind fun m => ?_
  cases m.find? id with
  | none => exact .throw _
  | some k => exact .pure k

theorem applyEntry (entry : Entry) : Abreast R (h.applyEntry entry) (g.applyEntry entry) := by
  cases entry with
  | create node => exact (matched.createNode _ _ _).discard.bind fun _ => .pure _
  | delete id kind content =>
    exact (matched.lookup id).bind fun k => matched.current.bind fun m =>
      (matched.deleteNode k).bind fun _ => .pure _
  | addLink entryLink =>
    exact (matched.lookup _).bind fun _ => (matched.lookup _).bind fun _ =>
      (matched.link _ _ _).bind fun _ => .pure _
  | removeLink entryLink =>
    exact (matched.lookup _).bind fun _ => (matched.unlink _ _).discard.bind fun _ => .pure _
  | changeField change =>
    exact (matched.lookup _).bind fun _ => (matched.setField _ _ _).bind fun _ => .pure _
  | other text => exact .throw _

theorem applyEntries (entries : List Entry) :
    Abreast R (h.applyEntries entries) (g.applyEntries entries) := by
  refine matched.current.bind fun m => ?_
  cases m.outline.replay entries with
  | error e => exact .throw e
  | ok o => exact (Abreast.mapM matched.applyEntry).bind fun _ => .pure _

/-- A call does the same in both hosts. -/
theorem call (call : Call) : Abreast R (call.run h) (call.run g) := by
  -- A call looks up its nodes and then makes one edit; both hosts do so in step.
  cases call with
  | apply entries => exact (matched.applyEntries entries).discard
  | create id kind content => exact (matched.createNode _ _ _).discard
  | delete node => exact (matched.lookup node).bind matched.deleteNode
  | link parent slot child =>
    exact (matched.lookup parent).bind fun _ => (matched.lookup child).bind fun _ => matched.link _ _ _
  | unlink parent slot => exact (matched.lookup parent).bind fun _ => (matched.unlink _ _).discard
  | setField node name value => exact (matched.lookup node).bind fun _ => matched.setField _ _ _
  | insertAfter anchor node =>
    exact (matched.lookup anchor).bind fun _ => (matched.lookup node).bind fun _ =>
      matched.insertAfter _ _
  | appendChild parent slot node =>
    exact (matched.lookup parent).bind fun _ => (matched.lookup node).bind fun _ =>
      matched.appendChild _ _ _
  | detach node => exact (matched.lookup node).bind matched.detach
  | remove node => exact (matched.lookup node).bind matched.remove
  | annotate node frames origin => exact (matched.lookup node).bind fun _ => matched.edit _
  | setEdges leading trailing =>
    rw [Call.run, Call.run]
    exact matched.edit _

end Matches

/-! ### Other listeners -/

/-- Other listeners do the same as a host's own in all states of a kind, and these states are not left
by them or by an edit. -/
structure Hears (h : Host ε σ) (notify : Event → EStateM ε σ Unit) (P : σ → Prop) : Prop where
  withModel : ∀ {s} m, P s → P (h.withModel s m)
  withSupply : ∀ {s}, P s → P (h.withSupply s (h.supply s + 1))
  notify : ∀ event, Agree P (notify event) (h.notify event)

namespace Hears

/-- A host goes abreast of itself with other listeners. -/
theorem matched {h : Host ε σ} {notify : Event → EStateM ε σ Unit} (hears : h.Hears notify P) :
    (h.hearing notify).Matches h fun s t => s = t ∧ P t where
  model here := here.1 ▸ rfl
  supply here := here.1 ▸ rfl
  refusal := rfl
  withModel m here := ⟨here.1 ▸ rfl, hears.withModel m here.2⟩
  withSupply here := ⟨here.1 ▸ rfl, hears.withSupply here.2⟩
  notify event := agree_iff_abreast.1 (hears.notify event)

variable {h : Host Error σ} {notify : Event → EStateM Error σ Unit} (hears : h.Hears notify P)
include hears

theorem applyEntries (entries : List Entry) :
    Agree P ((h.hearing notify).applyEntries entries) (h.applyEntries entries) :=
  agree_iff_abreast.2 (hears.matched.applyEntries entries)

/-- A call does the same whichever of them listen. -/
theorem call (call : Call) : Agree P (call.run (h.hearing notify)) (call.run h) :=
  agree_iff_abreast.2 (hears.matched.call call)

end Hears

end Host

end DocSync
