import DocSync.Proofs.Model.Reachable
import DocSync.Proofs.Render.Shown

/-!
What stands where texts are due is a text: in the frames that nodes keep, and beside the document. Edits that
bring in nothing else leave it so, whether they succeed or are refused on the way.
-/

namespace DocSync

open Model

namespace Host

variable {ε σ α β : Type} {h : Host ε σ} {kept : Model → Prop} {run : EStateM ε σ α}

/-- What is left by an edit, made or refused, is a model of some kind. -/
def Left (kept : Model → Prop) : EStateM.Result EditError Model α → Prop
  | .ok _ m => kept m
  | .error _ m => kept m

/-- A run keeps what holds of the model, whether it succeeds or fails. -/
def Keeps (h : Host ε σ) (kept : Model → Prop) (run : EStateM ε σ α) : Prop :=
  ∀ s, kept (h.model s) → h.Ends s run (fun _ => kept) kept

namespace Keeps

theorem pure (a : α) : h.Keeps kept (Pure.pure a) := fun _ holds => holds

theorem throw (e : ε) : h.Keeps kept (MonadExcept.throw e : EStateM ε σ α) := fun _ holds => holds

theorem current : h.Keeps kept h.current := fun _ holds => holds

theorem bind {next : α → EStateM ε σ β} (first : h.Keeps kept run)
    (rest : ∀ a, h.Keeps kept (next a)) : h.Keeps kept (run >>= next) :=
  fun s holds => (first s holds).bind fun a s' now => rest a s' now

theorem endOf (keeps : h.Keeps kept run) {s : σ} (holds : kept (h.model s)) :
    kept (h.model (endOf run s)) := by
  have ends := keeps s holds
  unfold Ends at ends
  unfold DocSync.endOf
  cases ran : run s with
  | ok a s' =>
    rw [ran] at ends
    exact ends
  | error e s' =>
    rw [ran] at ends
    exact ends

theorem discard (keeps : h.Keeps kept run) : h.Keeps kept (Functor.discard run) := by
  rw [EStateM.discard_eq_bind]
  exact keeps.bind fun _ => pure ()

theorem ite {p : Prop} [Decidable p] {other : EStateM ε σ α} (yes : h.Keeps kept run)
    (no : h.Keeps kept other) : h.Keeps kept (if p then run else other) := by
  split
  · exact yes
  · exact no

theorem mapM {xs : List α} {each : α → EStateM ε σ β} (step : ∀ x ∈ xs, h.Keeps kept (each x)) :
    h.Keeps kept (xs.mapM each) := by
  induction xs with
  | nil => exact pure []
  | cons x rest ih =>
    rw [List.forall_mem_cons] at step
    rw [List.mapM_cons]
    exact step.1.bind fun _ => (ih step.2).bind fun _ => pure _

theorem forM {xs : List α} {each : α → EStateM ε σ PUnit} (step : ∀ x, h.Keeps kept (each x)) :
    h.Keeps kept (xs.forM each) := by
  induction xs with
  | nil => exact pure ()
  | cons x rest ih => exact (step x).bind fun _ => ih

variable (quiet : h.Quiet)
include quiet

/-- An edit that keeps something of a model keeps it of the host's. -/
theorem edit {change : Edit α} (does : ∀ m, kept m → Left kept (change m)) :
    h.Keeps kept (h.edit change) := by
  intro s holds
  have step := does _ holds
  unfold Ends Host.edit
  cases ran : change (h.model s) with
  | ok a m =>
    rw [ran] at step
    simpa only [quiet.model_withModel, Left] using step
  | error e m =>
    rw [ran] at step
    simpa only [quiet.model_withModel, Left] using step

theorem notify (event : Event) : h.Keeps kept (h.notify event) := by
  intro s holds
  obtain ⟨s', ran, same⟩ := quiet.notify event s
  unfold Ends
  rw [ran]
  simpa only [same] using holds

theorem newId : h.Keeps kept h.newId := by
  intro s holds
  change kept (h.model (h.withSupply s (h.supply s + 1)))
  rw [quiet.model_withSupply]
  exact holds

end Keeps

end Host

/-- Frames that are made of texts. -/
def Dict.PlainFrames (frames : Dict Frame) : Prop :=
  ∀ slot, ∀ frame ∈ frames.get? slot, frame.strays = []

namespace Model

variable {m : Model} {content : Content}

/-- A model with texts wherever texts are due. -/
structure Typed (m : Model) : Prop where
  beside : m.strays = []
  framed : m.PlainFrames

namespace Typed

variable (typed : m.Typed)
include typed

theorem withRoots (roots : List Key) : Typed { m with roots := roots } := ⟨typed.beside, typed.framed⟩

/-- A change to a node that makes it no other kind of node, and gives it no frames but such as are made of
texts. -/
theorem update (k : Key) {change : Node → Node} (live : ∀ n, (change n).live = true → n.live = true)
    (kind : ∀ n, (change n).kind = n.kind)
    (frames : ∀ n, (change n).frames = n.frames ∨ (change n).frames.PlainFrames) :
    (m.update k change).Typed := by
  refine ⟨typed.beside, fun j held notScalar frame stored => ?_⟩
  rw [Holds, size_update, node_update] at held
  rw [node_update] at notScalar stored
  by_cases here : j = k ∧ k < m.nodes.size
  · obtain ⟨rfl, inside⟩ := here
    simp only [inside, and_self, if_true] at held notScalar stored
    rcases frames (m.node j) with same | plain
    · refine typed.framed j ⟨inside, live _ held.2⟩ (kind _ ▸ notScalar) frame ?_
      rwa [same, Node.edgeName, kind] at stored
    · exact plain _ frame stored
  · rw [if_neg here] at held notScalar stored
    exact typed.framed j held notScalar frame stored

/-- A change to where a node stands, or to its fields. -/
theorem update_of_frames (k : Key) {change : Node → Node}
    (same : ∀ n, (change n).live = n.live ∧ (change n).kind = n.kind ∧ (change n).frames = n.frames) :
    (m.update k change).Typed :=
  typed.update k (fun n live => (same n).1 ▸ live) (fun n => (same n).2.1) fun n => .inl (same n).2.2

theorem setOwner (owner : Option Key) (chain : List Key) : (m.setOwner owner chain).Typed := by
  unfold Model.setOwner
  induction chain generalizing m with
  | nil => exact typed
  | cons k rest ih => exact ih (typed.update_of_frames k fun _ => ⟨rfl, rfl, rfl⟩)

theorem retarget (k : Key) (edge : Edge) (target : Option Key) :
    (m.update k fun n => n.retarget edge target).Typed :=
  typed.update_of_frames k fun n => by cases edge <;> exact ⟨rfl, rfl, rfl⟩

theorem join (parent : Key) (edge : Edge) (child : Key) : (m.join parent edge child).Typed :=
  (typed.retarget parent edge (some child)).update_of_frames child fun _ => ⟨rfl, rfl, rfl⟩

theorem createNode (id : NodeId) (kind : Kind) (plain : content.frames.PlainFrames) :
    Host.Left Typed (createNode id kind content m) := by
  rcases m.createNode_cases id kind content with ⟨free, ran⟩ | ⟨e, ran⟩ <;> rw [ran]
  · refine ⟨typed.beside, fun j held notScalar frame stored => ?_⟩
    rw [node_grown] at notScalar stored
    by_cases new : j = m.nodes.size
    · rw [if_pos new] at stored
      exact plain _ frame stored
    · rw [if_neg new] at notScalar stored
      have old := ((m.holds_grown id kind content j).1 held).resolve_right new
      exact typed.framed j old notScalar frame stored
  · exact typed

theorem deleteNode (k : Key) : Host.Left Typed (deleteNode k m) := by
  unfold Model.deleteNode
  simp only
  split
  · exact typed
  · split
    · exact typed
    · have gone : (m.update k fun n => { n with live := false }).Typed :=
        typed.update k (fun _ live => by cases live) (fun _ => rfl) fun _ => .inl rfl
      exact gone.withRoots _

theorem link (parent : Key) (slot : String) (child : Key) : Host.Left Typed (link parent slot child m) := by
  unfold Model.link
  simp only
  split
  · exact typed
  · next edge named =>
    have joined := typed.join parent edge child
    split
    · exact typed
    split
    · exact typed
    split
    · exact typed
    split
    · exact (joined.setOwner _ _).withRoots _
    · exact joined

theorem unlink (parent : Key) (slot : String) : Host.Left Typed (unlink parent slot m) := by
  unfold Model.unlink
  simp only
  split
  · exact typed
  · next edge named =>
    split
    · exact typed
    · next child leads =>
      have parted : ((m.update parent fun n => n.retarget edge none).update child
          fun n => { n with parent := none }).Typed :=
        (typed.retarget parent edge none).update_of_frames child fun _ => ⟨rfl, rfl, rfl⟩
      exact (parted.setOwner _ _).withRoots _

theorem setField (k : Key) (name : String) (value : Option String) :
    Host.Left Typed (setField k name value m) :=
  typed.update_of_frames k fun n => by cases value <;> exact ⟨rfl, rfl, rfl⟩

theorem setEdges (leading trailing : String) : (m.setEdges (.str leading) (.str trailing)).Typed := by
  refine ⟨?_, typed.framed⟩
  simp [Model.setEdges, typed.beside, Json.text?]

end Typed

end Model

namespace Host.Keeps

variable {σ : Type} {h : Host Error σ} (quiet : h.Quiet)

theorem lookup (kept : Model → Prop) (id : NodeId) : h.Keeps kept (h.lookup id) := by
  refine current.bind fun m => ?_
  split
  · exact pure _
  · exact throw _

include quiet

theorem createNode (id : Option NodeId) (kind : Kind) {content : Content}
    (plain : content.frames.PlainFrames) : h.Keeps Typed (h.createNode id kind content) := by
  have made : ∀ id, h.Keeps Typed (do
      let made ← h.edit (Model.createNode id kind content)
      h.notify made.2
      return made.1) := fun id =>
    (edit quiet fun _ typed => typed.createNode id kind plain).bind fun _ =>
      (notify quiet _).bind fun _ => pure _
  unfold Host.createNode
  simp only
  split
  · exact (newId quiet).bind fun id => made id
  · exact made _

theorem deleteNode (k : Key) : h.Keeps Typed (h.deleteNode k) :=
  (edit quiet fun _ typed => typed.deleteNode k).bind fun event => notify quiet event

theorem link (parent : Key) (slot : String) (child : Key) : h.Keeps Typed (h.link parent slot child) :=
  (edit quiet fun _ typed => typed.link parent slot child).bind fun event => notify quiet event

theorem unlink (parent : Key) (slot : String) : h.Keeps Typed (h.unlink parent slot) :=
  (edit quiet fun _ typed => typed.unlink parent slot).bind fun _ =>
    (notify quiet _).bind fun _ => pure _

theorem setField (k : Key) (name : String) (value : Option String) :
    h.Keeps Typed (h.setField k name value) :=
  (edit quiet fun _ typed => typed.setField k name value).bind fun event => notify quiet event

theorem insertAfter (anchor node : Key) : h.Keeps Typed (h.insertAfter anchor node) := by
  refine current.bind fun m => ite ?_ (link quiet _ _ _)
  exact (unlink quiet _ _).bind fun rest => (link quiet _ _ _).bind fun _ => link quiet _ _ _

theorem appendChild (parent : Key) (slot : String) (node : Key) :
    h.Keeps Typed (h.appendChild parent slot node) := by
  refine current.bind fun m => ?_
  split
  · exact link quiet _ _ _
  · exact link quiet _ _ _

theorem detach (k : Key) : h.Keeps Typed (h.detach k) := by
  refine current.bind fun m => ?_
  split
  · exact pure _
  · refine (unlink quiet _ _).discard.bind fun _ => current.bind fun m => ite ?_ (pure _)
    exact (unlink quiet _ _).bind fun rest => link quiet _ _ _

theorem isolate (k : Key) : h.Keeps Typed (h.isolate k) := by
  refine current.bind fun m => ite ((unlink quiet _ _).discard.bind fun _ => ?_) ?_
  -- Whether or not the link to the next sibling was cut, the link to the children may be.
  all_goals
    refine current.bind fun m => ?_
    split
    · exact pure _
    · exact current.bind fun m => ite (unlink quiet _ _).discard (pure _)

theorem remove (k : Key) : h.Keeps Typed (h.remove k) :=
  (detach quiet k).bind fun _ => current.bind fun _ =>
    (forM fun j => isolate quiet j).bind fun _ => forM fun j => deleteNode quiet j

end Host.Keeps

/-- An entry brings in nothing but texts where texts are due. -/
def Entry.Typed : Entry → Prop
  | .create node => node.content.frames.PlainFrames
  | _ => True

/-- A call brings in nothing but texts where texts are due. -/
def Call.Typed : Call → Prop
  | .create _ _ content => content.frames.PlainFrames
  | .apply entries => ∀ entry ∈ entries, entry.Typed
  | .annotate _ frames _ => frames.PlainFrames
  | .setEdges leading trailing => (∃ text, leading = .str text) ∧ ∃ text, trailing = .str text
  | _ => True

section Calls

variable {σ : Type} {h : Host Error σ} (quiet : h.Quiet)
include quiet

open Host

/-- An entry that brings in nothing but texts leaves it at that. -/
theorem Entry.Typed.keeps {entry : Entry} (typed : entry.Typed) :
    h.Keeps Model.Typed (h.applyEntry entry) := by
  cases entry with
  | create node => exact (Keeps.createNode quiet _ _ typed).discard.bind fun _ => Keeps.pure _
  | delete id kind content =>
    exact (Keeps.lookup _ _).bind fun k => Keeps.current.bind fun _ =>
      (Keeps.deleteNode quiet k).bind fun _ => Keeps.pure _
  | addLink link =>
    exact (Keeps.lookup _ _).bind fun _ => (Keeps.lookup _ _).bind fun _ =>
      (Keeps.link quiet _ _ _).bind fun _ => Keeps.pure _
  | removeLink link =>
    exact (Keeps.lookup _ _).bind fun _ => (Keeps.unlink quiet _ _).discard.bind fun _ => Keeps.pure _
  | changeField change =>
    exact (Keeps.lookup _ _).bind fun _ => (Keeps.setField quiet _ _ _).bind fun _ => Keeps.pure _
  | other text => exact Keeps.throw _

/-- A call that brings in nothing but texts leaves it at that. -/
theorem Call.Typed.keeps {call : Call} (typed : call.Typed) : h.Keeps Model.Typed (call.run h) := by
  cases call with
  | create id kind content => exact (Keeps.createNode quiet id kind typed).discard
  | delete node => exact (Keeps.lookup _ _).bind fun k => Keeps.deleteNode quiet k
  | link parent slot child =>
    exact (Keeps.lookup _ _).bind fun _ => (Keeps.lookup _ _).bind fun _ => Keeps.link quiet _ _ _
  | unlink parent slot => exact (Keeps.lookup _ _).bind fun _ => (Keeps.unlink quiet _ _).discard
  | setField node name value => exact (Keeps.lookup _ _).bind fun _ => Keeps.setField quiet _ _ _
  | insertAfter anchor node =>
    exact (Keeps.lookup _ _).bind fun _ => (Keeps.lookup _ _).bind fun _ => Keeps.insertAfter quiet _ _
  | appendChild parent slot node =>
    exact (Keeps.lookup _ _).bind fun _ => (Keeps.lookup _ _).bind fun _ => Keeps.appendChild quiet _ _ _
  | detach node => exact (Keeps.lookup _ _).bind fun _ => Keeps.detach quiet _
  | remove node => exact (Keeps.lookup _ _).bind fun _ => Keeps.remove quiet _
  | apply entries =>
    refine Keeps.discard (Keeps.current.bind fun m => ?_)
    split
    · exact Keeps.throw _
    · exact (Keeps.mapM fun entry listed => (typed entry listed).keeps quiet).bind fun _ => Keeps.pure _
  | annotate node frames origin =>
    refine (Keeps.lookup _ _).bind fun k => Keeps.edit quiet fun m now => ?_
    exact now.update k (fun _ live => live) (fun _ => rfl) fun _ => .inr typed
  | setEdges leading trailing =>
    obtain ⟨⟨leading, rfl⟩, trailing, rfl⟩ := typed
    rw [Call.run]
    exact Keeps.edit quiet fun m now => now.setEdges leading trailing

omit quiet in
/-- Calls that bring in nothing but texts lead from models with texts where they are due to such models. -/
theorem typed_afterCalls {w : Workspace} {calls : List Call} (start : w.model.Typed)
    (typed : ∀ call ∈ calls, call.Typed) : (afterCalls w calls).model.Typed := by
  induction calls generalizing w with
  | nil => exact start
  | cons call rest ih =>
    rw [List.forall_mem_cons] at typed
    refine ih ?_ typed.2
    exact (typed.1.keeps Build.quiet_host).endOf start

end Calls

end DocSync
