import DocSync.Proofs.Change.Reversal
import DocSync.Proofs.Render.Document

/-!
The frames of nodes along a run of entries. No entry touches the frames of a node that stays, and a node
that is brought back comes with those that it went with. So where all frames fit to begin with, they
fit throughout; and a model that is carried over from a document is one itself.
-/

namespace DocSync

open Lexer (Blanks)
open Model

variable {m m' old new : Model} {entry : Entry} {entries backs : List Entry} {k r : Key}

/-- The frame that a node has for its children, if there is one, fits its kind. -/
def Content.Framed (kind : Kind) (content : Content) : Prop :=
  ∀ frame, content.frames.get? (kind.slot?.getD "") = some frame → frame.Fits kind

/-- All nodes of a model have frames that fit. -/
def Model.Framed (m : Model) : Prop :=
  ∀ k, m.Holds k → (m.node k).toContent.Framed (m.node k).kind

/-- A node that an entry brings has a frame that fits. -/
def Entry.BringsFramed (entry : Entry) : Prop :=
  ∀ node, entry = .create node → node.content.Framed node.kind

theorem Model.Furnished.toFramed (furnished : m.Furnished) : m.Framed :=
  fun _ held _ stored => furnished.framed held stored

/-! ### Entries and the entries that take them back -/

/-- Nodes that hold the same have the same frames. -/
theorem SameNodes.framed (same : SameNodes m m') (framed : m.Framed) : m'.Framed := by
  intro k held
  rw [same.content, same.kind]
  exact framed k ((same.holds k).1 held)

/-- An entry that brings no misfit leaves none. -/
theorem Does.framed (does : Does m entry m') (sound : m.Sound) (framed : m.Framed)
    (brings : entry.BringsFramed) : m'.Framed := by
  cases does with
  | create node =>
    intro k held
    rw [node_grown]
    rcases (holds_grown _ _ _ _ _).1 held with before | rfl
    · -- What was there before is as it was.
      rw [if_neg (Nat.ne_of_lt before.1)]
      exact framed k before
    · rw [if_pos rfl]
      exact brings node rfl
  | @delete k =>
    intro b held
    obtain ⟨heldB, differ⟩ := (holds_pruned _ _ _).1 held
    rw [m.node_pruned_of_ne differ]
    exact framed b heldB
  | @addLink p c edge _ heldP heldC _ _ _ _ _ apart =>
    have differ : p ≠ c := fun same => apart (same ▸ .refl)
    exact (Model.sameNodes_rehang edge heldP heldC differ true).framed framed
  | @removeLink p c edge _ heldP _ _ _ leads =>
    obtain ⟨heldC, above⟩ := sound.back heldP leads
    have differ : p ≠ c := fun same => sound.not_over_parent heldC above (same ▸ .refl)
    exact (Model.sameNodes_rehang edge heldP heldC differ false).framed framed
  | @changeField k change =>
    have same := m.sameForest_withField k change.name change.new
    intro b held
    -- A field is no frame.
    have frames : ((m.withField k change.name change.new).node b).frames = (m.node b).frames := by
      rw [node_withField]
      split
      · next here => rw [here.1]
      · rfl
    rw [same.kind, Content.Framed, frames]
    exact framed b (same.holds_iff.1 held)

/-- An entry taken back brings what has gone with the frames that it had. -/
theorem Does.framed_back (does : Does m entry m') (sound : m.Sound) (framed : m.Framed) :
    (entry.backIn m).BringsFramed := by
  intro node brings
  cases does with
  | @delete k id kind content held name =>
    rw [Entry.backIn, sound.find?_eq_some_iff.2 ⟨held, name⟩] at brings
    cases brings
    exact framed k held
  | create | addLink | removeLink | changeField => cases brings

/-- Where nothing that comes is a misfit, nothing that is brought back will be, and nothing that there
is in the end. -/
theorem Retraces.framed (retraces : Retraces m entries backs m') (sound : m.Sound)
    (framed : m.Framed) (brings : ∀ entry ∈ entries, entry.BringsFramed) :
    m'.Framed ∧ ∀ back ∈ backs, back.BringsFramed := by
  -- Forward, frames keep fitting; backward, an entry brings what stood there before it.
  induction retraces with
  | nil => exact ⟨framed, List.forall_mem_nil _⟩
  | cons step _ ih =>
    rw [List.forall_mem_cons] at brings
    obtain ⟨after, later⟩ := ih (step.sound sound) (step.framed sound framed brings.1) brings.2
    exact ⟨after, List.forall_mem_cons.2 ⟨step.framed_back sound framed, later⟩⟩

/-- Entries that bring no misfit leave none. -/
theorem DoesAll.framed (does : DoesAll m entries m') (sound : m.Sound) (framed : m.Framed)
    (brings : ∀ entry ∈ entries, entry.BringsFramed) : m'.Framed := by
  -- A run that can be taken back is a run, and only its first half is asked for.
  obtain ⟨backs, retraces⟩ := does.exists_retraces
  exact (retraces.framed sound framed brings).1

/-! ### What a reconciliation brings -/

/-- A node that is to be created comes with the frames of the new model's node. -/
theorem frames_of_mem_creations {config : Config} {c : ChangeSet}
    (made : reconcile config old new = .ok c) {node : Specimen} (inside : node ∈ c.creations) :
    node.content.frames = ((new.find? node.id).map fun k => (new.node k).frames).getD .empty := by
  simp only [reconcile, bind, Except.bind] at made
  -- The pictures are taken one after the other, and then compared.
  split at made
  · cases made
  · split at made
    · cases made
    · split at made
      · cases made
      · cases made
        obtain ⟨label, -, rfl⟩ := List.mem_map.1 inside
        simp [ChangeSet.specimen, Option.map_map, Function.comp_def]

/-- What a reconciliation brings fits where all of the new model does. -/
theorem bringsFramed_of_reconcile {config : Config} {c : ChangeSet} (soundOld : old.Sound)
    (soundNew : new.Sound) (made : reconcile config old new = .ok c) (framed : new.Framed) :
    ∀ entry ∈ c.entries, entry.BringsFramed := by
  rintro entry member node rfl
  obtain ⟨k, held, created, id, kind⟩ :=
    (tells_of_reconcile soundOld soundNew made).exists_created member
  -- The node is found under the id that it comes with.
  have frames := frames_of_mem_creations made created
  rw [← id, soundNew.find?_id held, Option.map_some, Option.getD_some] at frames
  rw [Content.Framed, frames, ← kind]
  exact framed k held

/-! ### Models carried over -/

namespace CarriedOver

variable {carry : NodeId → NodeId} {image : Key → Key} (carried : CarriedOver m' m carry image)
  (sound' : m'.Sound) (sound : m.Sound)
include carried sound' sound

/-- The children of an image are the images of the children. -/
theorem children (held : m.Holds k) : m'.children (image k) = (m.children k).map image := by
  rw [children_eq, children_eq, chainAt_eq_map_label, chainAt_eq_map_label]
  -- The chain starts at the image of its first node, and the trees from there on are images.
  have target := carried.target held .child
  simp only [Node.target?] at target
  rw [target]
  cases head : (m.node k).head with
  | none => simp
  | some c =>
    have heldC := (sound.back (e := .child) held head).1
    rw [Option.map_some, carried.treesAt_some sound sound'.toLinked heldC]
    rw [Tree.mapAll_eq_map, List.map_map, List.map_map]
    refine List.map_congr_left fun tree _ => ?_
    cases tree
    rw [Function.comp, Tree.map]
    rfl

/-- An image has what its kind asks for if its node has. -/
theorem filled (held : m.Holds k) (filled : m.Filled k) : m'.Filled (image k) := by
  -- What is asked of a child is its kind alone, and an image has that of its node.
  have inside : ∀ {c}, c ∈ m.children k → m.Holds c := fun child =>
    (sound.toLinked.over_of_mem_children held child).2
  unfold Model.Filled at filled ⊢
  rw [carried.kind held, carried.fields held, carried.children sound' sound held]
  cases kind : (m.node k).kind with
  | object =>
    rw [kind] at filled
    refine ⟨filled.1, List.forall_mem_map.2 fun c child => ?_⟩
    rw [carried.kind (inside child)]
    exact filled.2 c child
  | array =>
    rw [kind] at filled
    refine ⟨filled.1, List.forall_mem_map.2 fun c child => ?_⟩
    rw [carried.kind (inside child)]
    exact filled.2 c child
  | pair =>
    rw [kind] at filled
    obtain ⟨key, isString, ⟨value, isValue, childless, fields⟩ | ⟨c, only, container, fields⟩⟩ := filled
    · exact ⟨key, isString, .inl ⟨value, isValue, by rw [childless]; rfl, fields⟩⟩
    · refine ⟨key, isString, .inr ⟨image c, by rw [only]; rfl, ?_, fields⟩⟩
      rw [carried.kind (inside (by rw [only]; exact List.mem_singleton_self c))]
      exact container
  | scalar =>
    rw [kind] at filled
    exact filled

/-- What is carried over from a document is one, if its own frames and the text around it allow. -/
theorem documentShaped (shaped : m.DocumentShaped r) (framed : m'.Framed)
    (leading : Blanks m'.leading.toList) (trailing : Blanks m'.trailing.toList)
    (plain : m'.strays = []) : m'.DocumentShaped (image r) where
  filled held := by
    obtain ⟨b, heldB, rfl⟩ := carried.onto held
    exact carried.filled sound' sound heldB (shaped.filled heldB)
  framed held stored := framed _ held _ stored
  single := carried.roots sound' sound shaped.single
  alone := by
    have next := carried.target (sound.holds_root (r := r) (by simp [shaped.single])) .next
    simp only [Node.target?, shaped.alone, Option.map_none] at next
    exact next
  leading := leading
  trailing := trailing
  plain := plain

end CarriedOver

end DocSync
