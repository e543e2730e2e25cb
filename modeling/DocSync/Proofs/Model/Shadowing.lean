import DocSync.Proofs.Model.Hearing
import DocSync.Proofs.Model.Twins
import DocSync.Proofs.Outcome

/-!
One sequence of edits in two hosts: in a workspace without listeners, and in a host whose listeners may
do anything at all. The second run does what the first one does as long as nothing happens to the model
while the listeners hear of an event. The moments at which they hear of one are put on record, so that
this can be asked of them.
-/

namespace DocSync

open Model

variable {ε ε' σ τ α β γ δ : Type}

/-! ### Moments on record -/

/-- A result, with states on record beside the one that is reached. -/
def noted (log : List τ) : EStateM.Result ε τ α → EStateM.Result ε (τ × List τ) α
  | .ok a t => .ok a (t, log)
  | .error e t => .error e (t, log)

/-- The host with a record, latest first, of the states in which its listeners come to hear of an
event. -/
def Host.watched (h : Host ε τ) : Host ε (τ × List τ) where
  model s := h.model s.1
  withModel s m := (h.withModel s.1 m, s.2)
  supply s := h.supply s.1
  withSupply s count := (h.withSupply s.1 count, s.2)
  refusal := h.refusal
  notify event := fun s => noted (s.1 :: s.2) (h.notify event s.1)

/-! ### Edits of nodes at hand -/

/-- An edit that the editor offers, on nodes at hand. -/
inductive Act where
  | create (id : Option NodeId) (kind : Kind) (content : Content)
  | delete (node : Key)
  | link (parent : Key) (slot : String) (child : Key)
  | unlink (parent : Key) (slot : String)
  | setField (node : Key) (name : String) (value : Option String)
  | insertAfter (anchor node : Key)
  | appendChild (parent : Key) (slot : String) (node : Key)
  | detach (node : Key)
  | remove (node : Key)
  deriving DecidableEq, Inhabited

namespace Act

/-- An edit carried out in a host. -/
def run (h : Host ε σ) : Act → EStateM ε σ Unit
  | create id kind content => discard (h.createNode id kind content)
  | delete node => h.deleteNode node
  | link parent slot child => h.link parent slot child
  | unlink parent slot => discard (h.unlink parent slot)
  | setField node name value => h.setField node name value
  | insertAfter anchor node => h.insertAfter anchor node
  | appendChild parent slot node => h.appendChild parent slot node
  | detach node => h.detach node
  | remove node => h.remove node

/-- Edits carried out one after the other. -/
def runAll (h : Host ε σ) (acts : List Act) : EStateM ε σ Unit := acts.forM (run h)

/-- The id that an edit gives to a node. -/
def given? : Act → Option NodeId
  | create id _ _ => id
  | _ => none

end Act

/-! ### Runs that go alike -/

/-- From related states, the third computation succeeds if the first one does, and comes to a related
state, as long as the states that it puts on record are of a kind. The second one is the third with this
record kept. -/
structure Shadows (R : σ → τ → Prop) (P : τ → Prop) (Q : α → β → Prop) (x : EStateM ε σ α)
    (y : EStateM ε' (τ × List τ) β) (z : EStateM ε' τ β) : Prop where
  records : ∀ t log, ∃ log', log ⊆ log' ∧ y (t, log) = noted log' (z t)
  follows : ∀ {s s' t log a}, R s t → x s = .ok a s' → (∀ u ∈ (endOf y (t, log)).2, P u) →
    ∃ b t', z t = .ok b t' ∧ Q a b ∧ R s' t'

namespace Shadows

variable {R : σ → τ → Prop} {P : τ → Prop} {Q : α → β → Prop} {Q' : γ → δ → Prop}
  {x x' : EStateM ε σ α} {y y' : EStateM ε' (τ × List τ) β} {z z' : EStateM ε' τ β}

theorem pure {a : α} {b : β} (related : Q a b) : Shadows R P Q (Pure.pure a : EStateM ε σ α)
    (Pure.pure b : EStateM ε' (τ × List τ) β) (Pure.pure b) where
  records _ log := ⟨log, fun _ inside => inside, rfl⟩
  follows here ran _ := by
    cases ran
    exact ⟨b, _, rfl, related, here⟩

theorem bind {f : α → EStateM ε σ γ} {g : β → EStateM ε' (τ × List τ) δ} {k : β → EStateM ε' τ δ}
    (first : Shadows R P Q x y z) (some : ∀ b, ∃ a, Q a b)
    (rest : ∀ a b, Q a b → Shadows R P Q' (f a) (g b) (k b)) :
    Shadows R P Q' (x >>= f) (y >>= g) (z >>= k) where
  records t log := by
    -- The second part goes on with the record that the first one leaves.
    obtain ⟨log₁, more, noted₁⟩ := first.records t log
    cases ran : z t with
    | error e t₁ =>
      rw [ran] at noted₁
      exact ⟨log₁, more, by rw [EStateM.bind_of_error noted₁, EStateM.bind_of_error ran]; rfl⟩
    | ok b t₁ =>
      rw [ran] at noted₁
      obtain ⟨a, related⟩ := some b
      obtain ⟨log₂, more', noted₂⟩ := (rest a b related).records t₁ log₁
      exact ⟨log₂, fun _ inside => more' (more inside), by
        rw [EStateM.bind_of_ok noted₁, EStateM.bind_of_ok ran, noted₂]⟩
  follows {s s' t log c} here ran kind := by
    obtain ⟨a, s₁, ran₁, ran₂⟩ := EStateM.bind_eq_ok_iff.1 ran
    obtain ⟨log₁, -, noted₁⟩ := first.records t log
    rw [endOf_bind, noted₁] at kind
    -- What the first part puts on record stays there, so all of it is of that kind.
    have early : ∀ u ∈ (endOf y (t, log)).2, P u := by
      intro u inside
      rw [endOf, noted₁] at inside
      cases ran : z t with
      | error e t₁ =>
        rw [ran] at inside kind
        exact kind u inside
      | ok b t₁ =>
        rw [ran] at inside kind
        obtain ⟨a, related⟩ := some b
        obtain ⟨log₂, more, noted₂⟩ := (rest a b related).records t₁ log₁
        refine kind u ?_
        show u ∈ (endOf (g b) (t₁, log₁)).2
        have kept : u ∈ log₂ := more inside
        rw [endOf, noted₂]
        cases k b t₁ <;> exact kept
    -- The parts then succeed one after the other.
    obtain ⟨b, t₁, done, related, here₁⟩ := first.follows here ran₁ early
    rw [done] at kind
    obtain ⟨d, t₂, done', related', here₂⟩ := (rest a b related).follows here₁ ran₂ kind
    exact ⟨d, t₂, by rw [EStateM.bind_of_ok done, done'], related', here₂⟩

/-- Two steps, the second of which goes by the result of the first alone. -/
theorem next {f : α → EStateM ε σ γ} {g : α → EStateM ε' (τ × List τ) δ} {k : α → EStateM ε' τ δ}
    {y : EStateM ε' (τ × List τ) α} {z : EStateM ε' τ α} (first : Shadows R P Eq x y z)
    (rest : ∀ a, Shadows R P Q' (f a) (g a) (k a)) :
    Shadows R P Q' (x >>= f) (y >>= g) (z >>= k) :=
  first.bind (fun b => ⟨b, rfl⟩) fun a _ same => same ▸ rest a

theorem discard (first : Shadows R P Q x y z) (some : ∀ b, ∃ a, Q a b) :
    Shadows R P Eq (Functor.discard x) (Functor.discard y) (Functor.discard z) := by
  rw [EStateM.discard_eq_bind, EStateM.discard_eq_bind, EStateM.discard_eq_bind]
  exact first.bind some fun _ _ _ => .pure rfl

theorem ite {p : Prop} [Decidable p] (yes : Shadows R P Q x y z) (no : Shadows R P Q x' y' z') :
    Shadows R P Q (if p then x else x') (if p then y else y') (if p then z else z') := by
  split
  · exact yes
  · exact no

theorem forM {ks : List α} {f : α → EStateM ε σ PUnit} {g : α → EStateM ε' (τ × List τ) PUnit}
    {k : α → EStateM ε' τ PUnit} (each : ∀ a ∈ ks, Shadows R P Eq (f a) (g a) (k a)) :
    Shadows R P Eq (ks.forM f) (ks.forM g) (ks.forM k) := by
  induction ks with
  | nil => exact .pure rfl
  | cons a rest ih =>
    -- Each step starts from the related states that the one before has led to.
    exact (each a List.mem_cons_self).next fun _ => ih fun b later => each b (List.mem_cons_of_mem _ later)

end Shadows

/-! ### Hosts that are left in peace -/

namespace Host

/-- A host goes along with a workspace: their models are twins, they draw ids at the same time, and in
states of a kind the listeners leave it at that. -/
structure Escorts (h : Host ε' τ) (start : Nat) (R : Workspace → τ → Prop) (P : τ → Prop) : Prop where
  twins : ∀ {w t}, R w t → Twins start (h.supply t) w.model (h.model t)
  started : ∀ {w t}, R w t → start ≤ w.supply ∧ start ≤ h.supply t
  withModel : ∀ {w t m n}, R w t → Twins start (h.supply t) m n →
    R { w with model := m } (h.withModel t n)
  withSupply : ∀ {w t}, R w t → R { w with supply := w.supply + 1 } (h.withSupply t (h.supply t + 1))
  supply_withSupply : ∀ t n, h.supply (h.withSupply t n) = n
  model_withSupply : ∀ t n, h.model (h.withSupply t n) = h.model t
  notify : ∀ {w t} event, R w t → P t → ∃ t', h.notify event t = .ok () t' ∧ R w t'

namespace Escorts

variable {h : Host ε' τ} {start : Nat} {R : Workspace → τ → Prop} {P : τ → Prop}
  {refusal : EditError → ε} (escorts : h.Escorts start R P)
include escorts

theorem current :
    Shadows R P SameBodies (Workspace.silent refusal).current h.watched.current h.current where
  records _ log := ⟨log, fun _ inside => inside, rfl⟩
  follows here ran _ := by
    cases ran
    exact ⟨_, _, rfl, (escorts.twins here).toSameBodies, here⟩

/-- Each step of a run reads the model anew. -/
theorem currently {f : Model → EStateM ε Workspace α} {g : Model → EStateM ε' (τ × List τ) β}
    {k : Model → EStateM ε' τ β} {Q : α → β → Prop}
    (rest : ∀ m n, SameBodies m n → Shadows R P Q (f m) (g n) (k n)) :
    Shadows R P Q ((Workspace.silent refusal).current >>= f) (h.watched.current >>= g)
      (h.current >>= k) :=
  escorts.current.bind (fun n => ⟨n, .refl n⟩) rest

/-- An edit that does the same to twins. -/
theorem edit {change : Edit α} {change' : Edit β} {Q : α → β → Prop}
    (alike : ∀ {m m' n : Model} {a : α} {count : Nat}, Twins start count m n → change m = .ok a m' →
      ∃ b n', change' n = .ok b n' ∧ Q a b ∧ Twins start count m' n') :
    Shadows R P Q ((Workspace.silent refusal).edit change) (h.watched.edit change') (h.edit change') where
  records t log := by
    refine ⟨log, fun _ inside => inside, ?_⟩
    simp only [Host.edit, watched]
    cases change' (h.model t) <;> rfl
  follows {w w' t log a} here ran _ := by
    simp only [Host.edit, Workspace.silent] at ran
    cases made : change w.model with
    | error e m => simp only [made, reduceCtorEq] at ran
    | ok a' m =>
      simp only [made] at ran
      cases ran
      obtain ⟨b, n, made', related, twins⟩ := alike (escorts.twins here) made
      exact ⟨b, h.withModel t n, by rw [Host.edit, made'], related, escorts.withModel here twins⟩

theorem notify_ (event event' : Event) :
    Shadows R P Eq ((Workspace.silent refusal).notify event) (h.watched.notify event') (h.notify event') where
  records t log := ⟨t :: log, List.subset_cons_self t log, rfl⟩
  follows {w w' t log a} here ran kind := by
    cases ran
    -- The state in which the event is heard of goes on record before anything is made of it.
    have kindT : P t := kind t (by
      have logged : h.watched.notify event' (t, log) = noted (t :: log) (h.notify event' t) := rfl
      rw [endOf, logged]
      cases h.notify event' t <;> exact List.mem_cons_self)
    obtain ⟨t', heard, here'⟩ := escorts.notify event' here kindT
    exact ⟨(), t', heard, rfl, here'⟩

theorem announce {change change' : Edit Event}
    (alike : ∀ {m m' n : Model} {event : Event} {count : Nat}, Twins start count m n →
      change m = .ok event m' → ∃ event' n', change' n = .ok event' n' ∧ Twins start count m' n') :
    Shadows R P Eq
      (do (Workspace.silent refusal).notify (← (Workspace.silent refusal).edit change))
      (do h.watched.notify (← h.watched.edit change')) (do h.notify (← h.edit change')) := by
  refine (escorts.edit (Q := fun _ _ => True) fun twins made => ?_).bind (fun b => ⟨b, trivial⟩)
    fun event event' _ => escorts.notify_ event event'
  obtain ⟨event', n', made', twins'⟩ := alike twins made
  exact ⟨event', n', made', trivial, twins'⟩

theorem announceWith (refusal : EditError → ε) {x : EStateM ε Workspace (α × Event)}
    {y : EStateM ε' (τ × List τ) (α × Event)} {z : EStateM ε' τ (α × Event)}
    (made : Shadows R P (fun a b => a.1 = b.1) x y z) :
    Shadows R P Eq
      (do
        let (a, event) ← x
        (Workspace.silent refusal).notify event
        return a)
      (do
        let (a, event) ← y
        h.watched.notify event
        return a)
      (do
        let (a, event) ← z
        h.notify event
        return a) :=
  made.bind (fun b => ⟨b, rfl⟩) fun a b same => (escorts.notify_ a.2 b.2).next fun _ => .pure same

/-- A node under the id that comes next. -/
theorem createNext (refusal : EditError → ε) (kind : Kind) (content : Content) :
    Shadows R P (fun a b => a.1 = b.1)
      (do (Workspace.silent refusal).edit (Model.createNode (← (Workspace.silent refusal).newId) kind content))
      (do h.watched.edit (Model.createNode (← h.watched.newId) kind content))
      (do h.edit (Model.createNode (← h.newId) kind content)) where
  records t log := by
    refine ⟨log, fun _ inside => inside, ?_⟩
    simp only [bind, EStateM.bind, newId, Host.edit, watched]
    cases Model.createNode (freshId (h.supply t + 1)) kind content
      (h.model (h.withSupply t (h.supply t + 1))) <;> rfl
  follows {w w' t log a} here ran _ := by
    obtain ⟨startedW, started⟩ := escorts.started here
    have here₁ := escorts.withSupply here
    obtain ⟨id, w₁, drawn, ran⟩ := EStateM.bind_eq_ok_iff.1 ran
    cases drawn
    have twins := escorts.twins here₁
    simp only [Host.edit, Workspace.silent] at ran
    cases made : Model.createNode (freshId (w.supply + 1)) kind content w.model with
    | error e m => simp only [made, reduceCtorEq] at ran
    | ok created m =>
      obtain ⟨k, event⟩ := created
      simp only [made] at ran
      cases ran
      rw [escorts.supply_withSupply] at twins
      -- The two ids differ, but both are new.
      obtain ⟨event', n, made', twins'⟩ := twins.createNode
        (.inr ⟨w.supply + 1, h.supply t + 1, Nat.lt_succ_of_le startedW, rfl,
          Nat.lt_succ_of_le started, Nat.le_refl _, rfl⟩)
        (fun _ => escorts.model_withSupply t _ ▸ (escorts.twins here).find?_freshId started) made
      refine ⟨(k, event'), h.withModel (h.withSupply t (h.supply t + 1)) n, ?_, rfl,
        escorts.withModel here₁ ((escorts.supply_withSupply t _).symm ▸ twins')⟩
      have drawn : h.newId t = .ok (freshId (h.supply t + 1)) (h.withSupply t (h.supply t + 1)) := rfl
      rw [EStateM.bind_of_ok drawn, Host.edit, made']

/-! ### Single edits -/

theorem createNode {id : Option NodeId} (kind : Kind) (content : Content)
    (given : ∀ a ∈ id, ∀ i, start < i → a ≠ freshId i) :
    Shadows R P Eq ((Workspace.silent refusal).createNode id kind content)
      (h.watched.createNode id kind content) (h.createNode id kind content) := by
  have own : ∀ i, start < i → id.getD .null ≠ freshId i := by
    -- No id at all stands for one that is no text.
    cases id with
    | none => exact fun _ _ same => NodeId.noConfusion same
    | some a => exact given a rfl
  have drawn := escorts.announceWith refusal (escorts.createNext refusal kind content)
  simp only [bind_assoc] at drawn
  -- Without an id of its own a node gets the next one; any other id is the same on both sides.
  refine .ite drawn (escorts.announceWith refusal (escorts.edit fun {m m' n made count} twins does => ?_))
  obtain ⟨event', n', done, twins'⟩ := twins.createNode (.inl ⟨rfl, own⟩)
    (fun free => twins.find?_given free own) does
  exact ⟨(made.1, event'), n', done, rfl, twins'⟩

theorem deleteNode (k : Key) : Shadows R P Eq ((Workspace.silent refusal).deleteNode k)
    (h.watched.deleteNode k) (h.deleteNode k) := escorts.announce fun twins made => twins.deleteNode made

theorem link (parent : Key) (slot : String) (child : Key) :
    Shadows R P Eq ((Workspace.silent refusal).link parent slot child)
      (h.watched.link parent slot child) (h.link parent slot child) :=
  escorts.announce fun twins made => twins.link made

theorem unlink (parent : Key) (slot : String) : Shadows R P Eq
    ((Workspace.silent refusal).unlink parent slot) (h.watched.unlink parent slot) (h.unlink parent slot) := by
  refine escorts.announceWith refusal (escorts.edit fun {m m' n made count} twins does => ?_)
  obtain ⟨event', n', done, twins'⟩ := twins.unlink does
  exact ⟨(made.1, event'), n', done, rfl, twins'⟩

theorem setField (k : Key) (name : String) (value : Option String) :
    Shadows R P Eq ((Workspace.silent refusal).setField k name value)
      (h.watched.setField k name value) (h.setField k name value) :=
  escorts.announce fun twins made => twins.setField made

/-! ### Composite edits -/

theorem insertAfter (anchor node : Key) : Shadows R P Eq
    ((Workspace.silent refusal).insertAfter anchor node) (h.watched.insertAfter anchor node)
    (h.insertAfter anchor node) := by
  refine escorts.currently fun m n same => ?_
  rw [same.next]
  exact .ite ((escorts.unlink _ _).next fun _ => (escorts.link _ _ _).next fun _ => escorts.link _ _ _)
    (escorts.link _ _ _)

theorem appendChild (parent : Key) (slot : String) (node : Key) : Shadows R P Eq
    ((Workspace.silent refusal).appendChild parent slot node) (h.watched.appendChild parent slot node)
    (h.appendChild parent slot node) := by
  refine escorts.currently fun m n same => ?_
  rw [same.childrenAt]
  -- The chain has the same end on both sides.
  cases (m.childrenAt parent slot).getLast? <;> exact escorts.link _ _ _

theorem detach (k : Key) : Shadows R P Eq ((Workspace.silent refusal).detach k) (h.watched.detach k)
    (h.detach k) := by
  refine escorts.currently fun m n same => ?_
  rw [same.above]
  cases (m.node k).parent with
  | none => exact .pure rfl
  | some above =>
    -- The node is cut out at the same link, and what follows it is led back there.
    simp only [same.edgeName]
    refine ((escorts.unlink _ _).discard fun b => ⟨b, rfl⟩).next fun _ =>
      escorts.currently fun m₁ n₁ same₁ => ?_
    rw [same₁.next]
    exact .ite ((escorts.unlink _ _).next fun _ => escorts.link _ _ _) (.pure rfl)

theorem isolate (k : Key) : Shadows R P Eq ((Workspace.silent refusal).isolate k) (h.watched.isolate k)
    (h.isolate k) := by
  refine escorts.currently fun m n same => ?_
  rw [same.next]
  refine .ite (((escorts.unlink _ _).discard fun b => ⟨b, rfl⟩).next fun _ => ?_) ?_
  -- The link to the children is cut alike, whether or not the one to the next sibling was there.
  all_goals
    refine escorts.currently fun m₁ n₁ same₁ => ?_
    rw [same₁.kind]
    cases (m₁.node k).kind.slot? with
    | none => exact .pure rfl
    | some slot =>
      refine escorts.currently fun m₂ n₂ same₂ => ?_
      rw [same₂.head]
      exact .ite ((escorts.unlink _ _).discard fun b => ⟨b, rfl⟩) (.pure rfl)

theorem remove (k : Key) : Shadows R P Eq ((Workspace.silent refusal).remove k) (h.watched.remove k)
    (h.remove k) := by
  refine (escorts.detach k).next fun _ => escorts.currently fun m n same => ?_
  rw [same.subtree]
  -- The same nodes are cut loose from the bottom up, and then destroyed from the top down.
  exact (Shadows.forM fun j _ => escorts.isolate j).next fun _ => .forM fun j _ => escorts.deleteNode j

end Escorts

end Host

/-! ### Whole runs -/

/-- An edit gives no id that is still to be handed out. -/
def Act.Spares (start : Nat) (act : Act) : Prop := ∀ id ∈ act.given?, ∀ i, start < i → id ≠ freshId i

variable {h : Host ε' τ} {start : Nat} {R : Workspace → τ → Prop} {P : τ → Prop}
  {refusal : EditError → ε}

theorem Host.Escorts.run (escorts : h.Escorts start R P) {act : Act} (spares : act.Spares start) :
    Shadows R P Eq (act.run (Workspace.silent refusal)) (act.run h.watched) (act.run h) := by
  cases act with
  | create id kind content => exact (escorts.createNode kind content spares).discard fun b => ⟨b, rfl⟩
  | delete node => exact escorts.deleteNode node
  | link parent slot child => exact escorts.link parent slot child
  | unlink parent slot => exact (escorts.unlink parent slot).discard fun b => ⟨b, rfl⟩
  | setField node name value => exact escorts.setField node name value
  | insertAfter anchor node => exact escorts.insertAfter anchor node
  | appendChild parent slot node => exact escorts.appendChild parent slot node
  | detach node => exact escorts.detach node
  | remove node => exact escorts.remove node

/-- What succeeds in a workspace succeeds in the host that goes along with it, if the listeners come to
hear of events only in states in which they leave the host in peace. -/
theorem Host.Escorts.runAll (escorts : h.Escorts start R P) {acts : List Act}
    (spare : ∀ act ∈ acts, act.Spares start) : Shadows R P Eq (Act.runAll (Workspace.silent refusal) acts)
      (Act.runAll h.watched acts) (Act.runAll h acts) :=
  .forM fun act inside => escorts.run (spare act inside)

end DocSync
