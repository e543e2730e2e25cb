import DocSync.Change.Replay
import DocSync.Model.Build
import DocSync.Proofs.Model.Runs

/-!
Every model that the editor can reach is sound: what was built from a text, or started from nothing,
and was then edited by any calls on its own nodes, whether these succeed or are refused on the way.
-/

namespace DocSync

open Model

namespace Model

variable {keys : List Key} {k : Key} {m : Model}

/-- A sound model that holds the given nodes. -/
structure Steady (keys : List Key) (m : Model) : Prop where
  sound : m.Sound
  held : ∀ k ∈ keys, m.Holds k

/-- A sound model whose arena has room for the given nodes, held or not. -/
structure Roomy (keys : List Key) (m : Model) : Prop where
  sound : m.Sound
  inside : ∀ k ∈ keys, k < m.nodes.size

namespace Steady

theorem cons (steady : Steady keys m) (held : m.Holds k) : Steady (k :: keys) m :=
  ⟨steady.sound, fun j member => (List.mem_cons.1 member).elim (· ▸ held) (steady.held j)⟩

theorem tail (steady : Steady (k :: keys) m) : Steady keys m :=
  ⟨steady.sound, fun j member => steady.held j (List.mem_cons_of_mem _ member)⟩

theorem roomy (steady : Steady keys m) : Roomy keys m :=
  ⟨steady.sound, fun j member => (steady.held j member).1⟩

end Steady

end Model

namespace Host

variable {ε σ α : Type} {h : Host ε σ} {keys : List Key} {k parent child : Key} {slot : String}

/-- A fresh id stands for something. -/
theorem isVoid_freshId (n : Nat) : (freshId n).isVoid = false := by
  simp [freshId, NodeId.isVoid, NodeId.toJson, Json.isVoid, String.isEmpty_eq_false_iff]

namespace Runs

/-- A run that needs no node to be held starts from any sound model. -/
theorem soundly {run : EStateM ε σ α} (runs : h.Runs (Steady []) run fun _ => Sound) :
    h.Runs Sound run fun _ => Sound :=
  runs.mono (fun _ sound => ⟨sound, fun _ member => by cases member⟩) fun _ _ sound => sound

theorem createNode (quiet : h.Quiet) (id : Option NodeId) (kind : Kind) (content : Content) :
    h.Runs (Steady keys) (h.createNode id kind content) fun k => Steady (k :: keys) := by
  have made : ∀ id : NodeId, id.isVoid = false →
      h.Runs (Steady keys) (do
        let made ← h.edit (Model.createNode id kind content)
        h.notify made.2
        return made.1) fun k => Steady (k :: keys) := by
    intro id solid
    refine Runs.announceWith quiet fun m steady => ?_
    rcases m.createNode_cases id kind content with ⟨free, ran⟩ | ⟨e, ran⟩ <;> rw [ran]
    · have held := m.holds_grown id kind content
      exact Steady.cons ⟨steady.sound.grown solid free kind content, fun j member =>
        (held j).2 (.inl (steady.held j member))⟩ ((held _).2 (.inr rfl))
    · exact steady.sound
  -- A node without an id gets a fresh one, which is solid.
  refine Runs.ite (fun _ => ?_) fun given => made _ (by simpa using given)
  refine (newId quiet).bind fun id s fresh => ?_
  obtain ⟨⟨n, rfl⟩, steady⟩ := fresh
  exact made _ (isVoid_freshId n) s steady

theorem link (quiet : h.Quiet) (heldParent : parent ∈ keys) (heldChild : child ∈ keys) :
    h.Runs (Steady keys) (h.link parent slot child) fun _ => Steady keys := by
  refine Runs.announce quiet fun m steady => ?_
  have upper := steady.held parent heldParent
  have lower := steady.held child heldChild
  rcases steady.sound.link_cases parent lower slot with
    ⟨edge, named, free, root, apart, ran⟩ | ⟨_, _, ran⟩ <;> rw [ran]
  · have differ : parent ≠ child := by
      rintro rfl
      exact apart ((steady.sound.top_eq_iff upper root).2 .refl)
    exact ⟨steady.sound.link upper lower named free root apart, fun j member =>
      (holds_rehang _ upper lower differ true j).2 (steady.held j member)⟩
  · exact steady.sound

theorem unlink (quiet : h.Quiet) (heldParent : parent ∈ keys) :
    h.Runs (Steady keys) (h.unlink parent slot) fun k => Steady (k :: keys) := by
  refine Runs.announceWith quiet fun m steady => ?_
  have upper := steady.held parent heldParent
  rcases m.unlink_cases parent slot with ⟨edge, child, named, leads, ran⟩ | ⟨e, ran⟩ <;> rw [ran]
  · obtain ⟨lower, back⟩ := steady.sound.back upper leads
    have differ : parent ≠ child := fun same =>
      steady.sound.not_over_parent lower back (same ▸ .refl)
    have held := holds_rehang edge upper lower differ false
    exact Steady.cons ⟨steady.sound.unlink upper leads, fun j member =>
      (held j).2 (steady.held j member)⟩ ((held child).2 lower)
  · exact steady.sound

theorem setField (quiet : h.Quiet) (k : Key) (name : String) (value : Option String) :
    h.Runs (Steady keys) (h.setField k name value) fun _ => Steady keys := by
  refine Runs.announce quiet fun m steady => ?_
  rw [setField_eq]
  have same := m.sameForest_withField k name value
  exact ⟨same.sound steady.sound, fun j member => same.holds_iff.2 (steady.held j member)⟩

theorem deleteNode (quiet : h.Quiet) (member : k ∈ keys) :
    h.Runs (Roomy keys) (h.deleteNode k) fun _ => Roomy keys := by
  refine Runs.announce quiet fun m roomy => ?_
  rcases deleteNode_cases (roomy.inside k member) with ⟨held, root, last, leaf, ran⟩ | ⟨e, ran⟩ <;>
    rw [ran]
  · exact ⟨roomy.sound.pruned root last leaf, fun j inside => by
      simpa using roomy.inside j inside⟩
  · exact roomy.sound

/-- The model as it stands may be looked into, and what is found is known from then on. -/
theorem currently {before : Model → Prop} {next : Model → EStateM ε σ α} {after : α → Model → Prop}
    (rest : ∀ m, before m → ∃ known : Model → Prop, known m ∧ h.Runs known (next m) after) :
    h.Runs before (h.current >>= next) after := by
  refine Runs.current.bind fun m s holds => ?_
  obtain ⟨rfl, found⟩ := holds
  obtain ⟨known, here, runs⟩ := rest _ found
  exact runs s here

theorem insertAfter (quiet : h.Quiet) {anchor node : Key} (heldAnchor : anchor ∈ keys)
    (heldNode : node ∈ keys) :
    h.Runs (Steady keys) (h.insertAfter anchor node) fun _ => Steady keys := by
  refine Runs.currently fun m steady => ⟨_, steady, ?_⟩
  refine Runs.ite (fun _ => ?_) fun _ => link quiet heldAnchor heldNode
  refine (unlink quiet heldAnchor).bind fun rest => ?_
  refine (link quiet (List.mem_cons_of_mem _ heldAnchor) (List.mem_cons_of_mem _ heldNode)).bind
    fun _ => ?_
  exact (link quiet (List.mem_cons_of_mem _ heldNode) List.mem_cons_self).mono (fun _ now => now)
    fun _ _ now => now.tail

theorem appendChild (quiet : h.Quiet) {node : Key} (heldParent : parent ∈ keys)
    (heldNode : node ∈ keys) :
    h.Runs (Steady keys) (h.appendChild parent slot node) fun _ => Steady keys := by
  refine Runs.currently fun m steady => ?_
  cases found : (m.childrenAt parent slot).getLast? with
  | none => exact ⟨_, steady, link quiet heldParent heldNode⟩
  | some last =>
    -- The last sibling is a node of the model.
    have member : last ∈ m.children parent := by
      have inside := List.mem_of_getLast? found
      unfold childrenAt at inside
      split at inside
      · exact inside
      · cases inside
    have held := (steady.sound.over_of_mem_children (steady.held parent heldParent) member).2
    exact ⟨_, steady.cons held, (link quiet List.mem_cons_self
      (List.mem_cons_of_mem _ heldNode)).mono (fun _ now => now) fun _ _ now => now.tail⟩

theorem detach (quiet : h.Quiet) (member : k ∈ keys) :
    h.Runs (Steady keys) (h.detach k) fun _ => Steady keys := by
  refine Runs.currently fun m steady => ?_
  cases parent : (m.node k).parent with
  | none => exact ⟨_, steady, Runs.pure _ fun _ now => now⟩
  | some above =>
    obtain ⟨p, edge⟩ := above
    have upper := (steady.sound.forth (steady.held k member) parent).1
    refine ⟨_, steady.cons upper, ?_⟩
    have cut : h.Runs (Steady (p :: keys))
        (Functor.discard (h.unlink p ((m.node p).edgeName edge))) fun _ => Steady (p :: keys) :=
      discard (unlink quiet List.mem_cons_self) fun _ _ now => now.tail
    -- Once the node is cut off, what followed it takes its place, if anything did.
    refine cut.bind fun _ => ?_
    refine Runs.currently fun m' now => ⟨_, now, ?_⟩
    refine Runs.ite (fun _ => ?_) fun _ => Runs.pure _ fun _ now => now.tail
    refine (unlink quiet (List.mem_cons_of_mem _ member)).bind fun rest => ?_
    exact (link quiet (List.mem_cons_of_mem _ List.mem_cons_self) List.mem_cons_self).mono
      (fun _ now => now) fun _ _ now => now.tail.tail

theorem isolate (quiet : h.Quiet) (member : k ∈ keys) :
    h.Runs (Steady keys) (h.isolate k) fun _ => Steady keys := by
  have cut : ∀ slot, h.Runs (Steady keys) (Functor.discard (h.unlink k slot)) fun _ => Steady keys :=
    fun slot => discard (unlink quiet member) fun _ _ now => now.tail
  refine Runs.currently fun m steady => ⟨_, steady, ?_⟩
  refine Runs.ite (fun _ => (cut nextName).bind fun _ => ?_) fun _ => ?_
  -- Whether or not there was a link to the next sibling, the link to the children is cut in turn.
  all_goals
    refine Runs.currently fun m steady => ⟨_, steady, ?_⟩
    cases (m.node k).kind.slot? with
    | none => exact Runs.pure _ fun _ now => now
    | some slot =>
      refine Runs.currently fun m' now => ⟨_, now, ?_⟩
      exact Runs.ite (fun _ => cut slot) fun _ => Runs.pure _ fun _ now => now

theorem remove (quiet : h.Quiet) (member : k ∈ keys) :
    h.Runs (Steady keys) (h.remove k) fun _ => Sound := by
  refine (detach quiet member).bind fun _ => Runs.currently fun m steady => ?_
  -- All below the node is held until it is free.
  have held : Steady (m.subtree k) m := ⟨steady.sound, fun j below =>
    (steady.sound.over_of_mem_subtree (steady.held k member) below).2⟩
  refine ⟨_, held, ?_⟩
  refine (Runs.forM fun j inside => isolate quiet (List.mem_reverse.1 inside)).bind fun _ => ?_
  have gone : h.Runs (Roomy (m.subtree k)) ((m.subtree k).forM h.deleteNode)
      fun _ => Roomy (m.subtree k) := Runs.forM fun j inside => deleteNode quiet inside
  exact gone.mono (fun _ now => now.roomy) fun _ _ now => now.sound

theorem throw (e : ε) {after : α → Model → Prop} :
    h.Runs (Steady keys) (MonadExcept.throw e) after := fun _ steady => steady.sound

theorem lookup {h : Host Error σ} (id : NodeId) :
    h.Runs (Steady keys) (h.lookup id) fun k => Steady (k :: keys) := by
  refine Runs.currently fun m steady => ?_
  cases found : m.find? id with
  | none => exact ⟨_, steady, throw _⟩
  | some k =>
    have held := (steady.sound.find?_eq_some_iff.1 found).1
    exact ⟨_, steady.cons held, Runs.pure _ fun _ now => now⟩

section Entries

variable {h : Host Error σ}

theorem applyEntry (quiet : h.Quiet) (entry : Entry) :
    h.Runs Sound (h.applyEntry entry) fun _ => Sound := by
  -- Nodes that have been looked up are held until the edit is made.
  cases entry with
  | create node =>
    refine Runs.soundly ?_
    exact ((createNode quiet (some node.id) node.kind node.content).discard
      fun _ _ now => now.sound).bind fun _ => Runs.pure _ fun _ sound => sound
  | delete id kind content =>
    refine Runs.soundly ?_
    refine (lookup id).bind fun k => Runs.currently fun m steady => ⟨_, steady.roomy, ?_⟩
    exact (deleteNode quiet List.mem_cons_self).bind fun _ => Runs.pure _ fun _ now => now.sound
  | addLink entryLink =>
    refine Runs.soundly ?_
    refine (lookup entryLink.parent).bind fun parent => (lookup entryLink.child).bind fun child => ?_
    exact (link quiet (List.mem_cons_of_mem _ List.mem_cons_self) List.mem_cons_self).bind
      fun _ => Runs.pure _ fun _ now => now.sound
  | removeLink entryLink =>
    refine Runs.soundly ?_
    refine (lookup entryLink.parent).bind fun parent => ?_
    exact ((unlink quiet List.mem_cons_self).discard fun _ _ now => now.sound).bind
      fun _ => Runs.pure _ fun _ sound => sound
  | changeField change =>
    refine Runs.soundly ?_
    exact (lookup change.node).bind fun k => (setField quiet k change.name change.new).bind
      fun _ => Runs.pure _ fun _ now => now.sound
  | other text => exact fun _ sound => sound

/-- What a run keeps, a run for each of several values keeps. -/
theorem mapM {xs : List α} {β : Type} {each : α → EStateM Error σ β} {kept : Model → Prop}
    (step : ∀ x, h.Runs kept (each x) fun _ => kept) : h.Runs kept (xs.mapM each) fun _ => kept := by
  induction xs with
  | nil => exact Runs.pure _ fun _ holds => holds
  | cons x rest ih =>
    rw [List.mapM_cons]
    exact (step x).bind fun _ => ih.bind fun _ => Runs.pure _ fun _ holds => holds

theorem applyEntries (quiet : h.Quiet) (entries : List Entry) :
    h.Runs Sound (h.applyEntries entries) fun _ => Sound := by
  refine Runs.currently fun m sound => ⟨_, sound, ?_⟩
  cases m.outline.replay entries with
  | error e => exact fun _ sound => sound
  | ok _ => exact (mapM (applyEntry quiet)).bind fun _ => Runs.pure _ fun _ sound => sound

end Entries

end Runs

/-- A workspace that nobody listens to is quiet. -/
theorem quiet_silent (refusal : EditError → ε) : (Workspace.silent refusal).Quiet where
  model_withModel _ _ := rfl
  model_withSupply _ _ := rfl
  notify _ s := ⟨s, rfl, rfl⟩

/-- Keeping the events does nothing to the model. -/
theorem quiet_recording (refusal : EditError → ε) : (Workspace.recording refusal).Quiet where
  model_withModel _ _ := rfl
  model_withSupply _ _ := rfl
  notify _ _ := ⟨_, rfl, rfl⟩

end Host

namespace Build

open Host

variable {source : List Char} {fingerprint : String} {keys : List Key} {key : Key}

theorem quiet_host : Build.host.Quiet := quiet_silent _

theorem runs_nodeOf (tree : ParseTree) :
    Build.host.Runs (Steady keys) (nodeOf source fingerprint tree) fun k => Steady (k :: keys) := by
  have made : ∀ id kind content, Build.host.Runs (Steady keys) (Build.host.createNode id kind content)
      fun k => Steady (k :: keys) := fun id kind content => Runs.createNode quiet_host id kind content
  have failed : ∀ e : Error, Build.host.Runs (Steady keys) (throw e : Build Key)
      fun k => Steady (k :: keys) := fun e => Runs.throw e
  unfold nodeOf container pair
  split
  · exact made _ _ _
  · exact made _ _ _
  · exact made _ _ _
  · split
    · exact made _ _ _
    · exact failed _
    · exact failed _
  · exact failed _

theorem runs_chain (previous : Key) (slot : String) (trees : List ParseTree)
    (held : previous ∈ keys) :
    Build.host.Runs (Steady keys) (chain source fingerprint previous slot trees)
      fun made => Steady (made ++ keys) := by
  induction trees generalizing previous slot keys with
  | nil => exact Runs.pure _ fun _ steady => steady
  | cons tree rest ih =>
    refine (runs_nodeOf tree).bind fun key => ?_
    refine (Runs.link quiet_host (List.mem_cons_of_mem _ held) List.mem_cons_self).bind fun _ => ?_
    refine (ih key nextName List.mem_cons_self).bind fun later => Runs.pure _ fun m steady => ?_
    refine ⟨steady.sound, fun j member => steady.held j ?_⟩
    simp only [List.mem_cons, List.mem_append] at member ⊢
    tauto

mutual
theorem runs_expand {keys : List Key} {key : Key} (tree : ParseTree) (held : key ∈ keys) :
    Build.host.Runs (Steady keys) (expand source fingerprint key tree) fun _ => Steady keys := by
  -- A container's children are made before any of them is expanded.
  have container : ∀ slot children,
      (∀ {keys : List Key} (made : List Key), (∀ k ∈ made, k ∈ keys) →
        Build.host.Runs (Steady keys) (expandAll source fingerprint made children)
          fun _ => Steady keys) →
      Build.host.Runs (Steady keys) (do
        let made ← chain source fingerprint key slot children
        expandAll source fingerprint made children) fun _ => Steady keys := by
    intro slot children below
    refine (runs_chain key slot children held).bind fun made => ?_
    exact (below made fun k => List.mem_append_left _).mono (fun _ steady => steady)
      fun _ _ steady =>
        ⟨steady.sound, fun k member => steady.held k (List.mem_append_right _ member)⟩
  match tree with
  | .rule .object children _ =>
    rw [expand]
    exact container membersSlot children fun made inside => runs_expandAll made children inside
  | .rule .array children _ =>
    rw [expand]
    exact container itemsSlot children fun made inside => runs_expandAll made children inside
  | .rule .pair [_, .rule r children span] _ =>
    rw [expand]
    refine (runs_nodeOf _).bind fun inner => ?_
    refine (Runs.link quiet_host (List.mem_cons_of_mem _ held) List.mem_cons_self).bind fun _ => ?_
    exact (runs_expand (.rule r children span) List.mem_cons_self).mono
      (fun _ steady => steady) fun _ _ steady => steady.tail
  | .token _ | .rule .pair [] _ | .rule .pair [_] _ | .rule .pair [_, .token _] _
  | .rule .pair (_ :: _ :: _ :: _) _ | .rule (.other _) _ _ =>
    simp only [expand]
    exact Runs.pure _ fun _ steady => steady

theorem runs_expandAll {keys : List Key} (made : List Key) (trees : List ParseTree)
    (held : ∀ k ∈ made, k ∈ keys) :
    Build.host.Runs (Steady keys) (expandAll source fingerprint made trees) fun _ => Steady keys := by
  match made, trees with
  | [], _ | _ :: _, [] =>
    simp only [expandAll]
    exact Runs.pure _ fun _ steady => steady
  | key :: later, tree :: rest =>
    rw [expandAll]
    have first := held key List.mem_cons_self
    refine (runs_expandAll later rest fun k member =>
      held k (List.mem_cons_of_mem _ member)).bind fun _ => ?_
    exact runs_expand tree first
end

end Build

namespace Model

/-- A model without nodes is sound. -/
theorem sound_of_empty {m : Model} (noNodes : m.nodes = #[]) (noRoots : m.roots = []) : m.Sound := by
  have nothing : ∀ {k}, ¬ m.Holds k := fun {k} held => by simpa [noNodes] using held.1
  constructor
  · exact ⟨fun held => (nothing held).elim, fun held => (nothing held).elim,
      ⟨id, fun _ _ held => (nothing held).elim⟩⟩
  · simp [noRoots, nothing]
  · simp [noRoots]
  all_goals exact fun held => (nothing held).elim

/-- The model of a parse is sound. -/
theorem sound_of_ofParse {tree : ParseTree} {source : String} {supply count : Nat} {m : Model}
    (built : ofParse tree source supply = .ok (m, count)) : m.Sound := by
  have runs : Build.host.Runs (Steady []) (do
      let root ← Build.nodeOf source.toList (Digest.fingerprint source) tree
      Build.expand source.toList (Digest.fingerprint source) root tree) fun _ => Sound :=
    (Build.runs_nodeOf tree).bind fun root => (Build.runs_expand tree List.mem_cons_self).mono
      (fun _ steady => steady) fun _ _ steady => steady.sound
  simp only [ofParse] at built
  split at built
  · next ran =>
    cases built
    refine runs.of_ok ?_ ran
    exact ⟨sound_of_empty rfl rfl, fun _ member => by cases member⟩
  · cases built

theorem sound_of_build {text : String} {file : Json} {supply count : Nat} {m : Model}
    (built : build text file supply = .ok (m, count)) : m.Sound := by
  unfold build at built
  split at built
  · exact sound_of_ofParse built
  · cases built

end Model

/-! ### Calls of the editor -/

/-- An edit that the editor offers, on nodes given by their ids. -/
inductive Call where
  | create (id : Option NodeId) (kind : Kind) (content : Content)
  | delete (node : NodeId)
  | link (parent : NodeId) (slot : String) (child : NodeId)
  | unlink (parent : NodeId) (slot : String)
  | setField (node : NodeId) (name : String) (value : Option String)
  | insertAfter (anchor node : NodeId)
  | appendChild (parent : NodeId) (slot : String) (node : NodeId)
  | detach (node : NodeId)
  | remove (node : NodeId)
  | apply (entries : List Entry)
  /-- Frames and an origin put in the place of those of a node. -/
  | annotate (node : NodeId) (frames : Dict Frame) (origin : Option Origin)
  | setEdges (leading trailing : Json)
  deriving Inhabited

namespace Call

variable {σ : Type} (h : Host Error σ)

/-- A call carried out in a host. -/
def run : Call → EStateM Error σ Unit
  | create id kind content => discard (h.createNode id kind content)
  | delete node => do h.deleteNode (← h.lookup node)
  | link parent slot child => do h.link (← h.lookup parent) slot (← h.lookup child)
  | unlink parent slot => do discard (h.unlink (← h.lookup parent) slot)
  | setField node name value => do h.setField (← h.lookup node) name value
  | insertAfter anchor node => do h.insertAfter (← h.lookup anchor) (← h.lookup node)
  | appendChild parent slot node => do
    h.appendChild (← h.lookup parent) slot (← h.lookup node)
  | detach node => do h.detach (← h.lookup node)
  | remove node => do h.remove (← h.lookup node)
  | apply entries => discard (h.applyEntries entries)
  | annotate node frames origin => do
    let k ← h.lookup node
    h.edit fun m => .ok () (m.update k fun n => { n with frames := frames, origin := origin })
  | setEdges leading trailing => h.edit fun m => .ok () (m.setEdges leading trailing)

variable {h}

/-- A call keeps a model sound, whether it succeeds or is refused. -/
theorem runs (quiet : h.Quiet) (call : Call) : h.Runs Sound (call.run h) fun _ => Sound := by
  -- As with entries, the nodes that a call names are looked up first.
  cases call with
  | apply entries =>
    exact (Host.Runs.applyEntries quiet entries).discard fun _ _ sound => sound
  | create id kind content =>
    refine Host.Runs.soundly ?_
    exact (Host.Runs.createNode quiet id kind content).discard fun _ _ now => now.sound
  | delete node =>
    refine Host.Runs.soundly ?_
    exact (Host.Runs.lookup node).bind fun k => (Host.Runs.deleteNode quiet List.mem_cons_self).mono
      (fun _ now => now.roomy) fun _ _ now => now.sound
  | link parent slot child =>
    refine Host.Runs.soundly ?_
    exact (Host.Runs.lookup parent).bind fun p => (Host.Runs.lookup child).bind fun c =>
      (Host.Runs.link quiet (List.mem_cons_of_mem _ List.mem_cons_self) List.mem_cons_self).mono
        (fun _ now => now) fun _ _ now => now.sound
  | unlink parent slot =>
    refine Host.Runs.soundly ?_
    exact (Host.Runs.lookup parent).bind fun p =>
      (Host.Runs.unlink quiet List.mem_cons_self).discard fun _ _ now => now.sound
  | setField node name value =>
    refine Host.Runs.soundly ?_
    exact (Host.Runs.lookup node).bind fun k => (Host.Runs.setField quiet k name value).mono
      (fun _ now => now) fun _ _ now => now.sound
  | insertAfter anchor node =>
    refine Host.Runs.soundly ?_
    exact (Host.Runs.lookup anchor).bind fun a => (Host.Runs.lookup node).bind fun n =>
      (Host.Runs.insertAfter quiet (List.mem_cons_of_mem _ List.mem_cons_self)
        List.mem_cons_self).mono (fun _ now => now) fun _ _ now => now.sound
  | appendChild parent slot node =>
    refine Host.Runs.soundly ?_
    exact (Host.Runs.lookup parent).bind fun p => (Host.Runs.lookup node).bind fun n =>
      (Host.Runs.appendChild quiet (List.mem_cons_of_mem _ List.mem_cons_self)
        List.mem_cons_self).mono (fun _ now => now) fun _ _ now => now.sound
  | detach node =>
    refine Host.Runs.soundly ?_
    exact (Host.Runs.lookup node).bind fun k => (Host.Runs.detach quiet List.mem_cons_self).mono
      (fun _ now => now) fun _ _ now => now.sound
  | remove node =>
    refine Host.Runs.soundly ?_
    exact (Host.Runs.lookup node).bind fun k => Host.Runs.remove quiet List.mem_cons_self
  | annotate node frames origin =>
    refine Host.Runs.soundly ?_
    refine (Host.Runs.lookup node).bind fun k => Host.Runs.edit quiet fun m now => ?_
    exact (m.sameForest_update k _ fun _ => rfl).sound now.sound
  | setEdges leading trailing =>
    rw [run]
    refine Host.Runs.edit quiet fun m sound => ?_
    have same : SameForest m (m.setEdges leading trailing) :=
      ⟨⟨rfl, fun _ => rfl, fun _ _ => rfl, fun _ => rfl⟩, rfl, fun _ => rfl, fun _ => rfl, fun _ => rfl⟩
    exact same.sound sound

end Call

/-- What the editor can come to: it starts from nothing, or from the model of a text, and goes on by
calls, of which some may be refused. -/
inductive Reachable : Workspace → Prop
  | blank (leading trailing : String) (supply : Nat) :
    Reachable { model := { leading := leading, trailing := trailing }, supply := supply }
  | built {text : String} {file : Json} {supply count : Nat} {m : Model} :
    Model.build text file supply = .ok (m, count) → Reachable { model := m, supply := count }
  | edited {w : Workspace} (call : Call) :
    Reachable w → Reachable (endOf (call.run Build.host) w)

/-- Whatever the editor comes to is sound. -/
theorem Reachable.sound {w : Workspace} (reached : Reachable w) : w.model.Sound := by
  induction reached with
  | blank leading trailing supply => exact sound_of_empty rfl rfl
  | built read => exact sound_of_build read
  | edited call _ sound => exact (Call.runs Build.quiet_host call).sound_endOf sound

/-- What the editor comes to by calls from somewhere. -/
def afterCalls (w : Workspace) (calls : List Call) : Workspace :=
  calls.foldl (fun w call => endOf (call.run Build.host) w) w

theorem Reachable.afterCalls {w : Workspace} (reached : Reachable w) (calls : List Call) :
    Reachable (afterCalls w calls) := by
  induction calls generalizing w with
  | nil => exact reached
  | cons call rest ih => exact ih (reached.edited call)

/-- What the editor holds once it has read a text. -/
def readIn (text : String) (supply : Nat) : Workspace :=
  match Model.build text .null supply with
  | .ok (m, count) => { model := m, supply := count }
  | .error _ => {}

theorem reachable_readIn (text : String) (supply : Nat) : Reachable (readIn text supply) := by
  unfold readIn
  cases read : Model.build text .null supply with
  | ok built => exact .built read
  | error e => exact .blank "" "" 0

theorem build_eq_readIn {text : String} {supply : Nat}
    (parses : (Model.build text .null supply).toOption.isSome = true) :
    Model.build text .null supply = .ok ((readIn text supply).model, (readIn text supply).supply) := by
  unfold readIn
  cases read : Model.build text .null supply with
  | ok built => rfl
  | error e =>
    rw [read] at parses
    cases parses

end DocSync
