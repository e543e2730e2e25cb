import DocSync.Proofs.Change.Acceptance
import DocSync.Proofs.Outcome

/-!
The check before a replay measured against the edits themselves. A run of entries can be carried out
one edit after the other, with each entry's own expectation looked at first; the outline accepts just
the runs for which this succeeds. What it accepts is replayed with one event for each entry, and what
it refuses changes nothing.
-/

namespace DocSync

variable {entry : Entry} {entries : List Entry} {w w' : Workspace} {k : Key} {id : NodeId}

/-! ### Entries as edits -/

/-- The name of the node that a link leads to. -/
def Model.linkedName? (m : Model) (k : Key) (slot : String) : Option Name := do
  let edge ← (m.node k).edge? slot
  let child ← (m.node k).target? edge
  return m.nameOf child

/-- An entry carried out as the one edit that it stands for. A link to be cut must lead to the child
that the entry names, and a field to be changed must hold the value that the entry starts from. -/
def Host.perform {σ : Type} (h : Host Error σ) (entry : Entry) : EStateM Error σ Unit :=
  match entry with
  | .create node => discard (h.createNode (some node.id) node.kind node.content)
  | .delete id _ _ => do h.deleteNode (← h.lookup id)
  | .addLink link => do h.link (← h.lookup link.parent) link.slot (← h.lookup link.child)
  | .removeLink link => do
    let parent ← h.lookup link.parent
    if (← h.current).linkedName? parent link.slot = some link.child.name then
      discard (h.unlink parent link.slot)
    else throw (.entry entry .linkAbsent)
  | .changeField change => do
    let k ← h.lookup change.node
    if ((← h.current).node k).fields.get? change.name = change.old then
      h.setField k change.name change.new
    else throw (.entry entry .fieldDiffers)
  | .other _ => throw (.entry entry .unknownEntry)

/-- An event tells of the edit that an entry stands for, at the nodes that the entry names. -/
inductive Tells : Entry → Event → Prop
  | create (node : Specimen) : Tells (.create node) (.create node.id)
  | delete {id' : NodeId} (id : NodeId) (kind : Option Kind) (content : Content) :
    id'.name = id.name → Tells (.delete id kind content) (.delete id')
  | link {parent child : NodeId} (link : Link) : parent.name = link.parent.name →
    child.name = link.child.name → Tells (.addLink link) (.link parent link.slot child)
  | unlink {parent child : NodeId} (link : Link) : parent.name = link.parent.name →
    child.name = link.child.name → Tells (.removeLink link) (.unlink parent link.slot child)
  | field {node : NodeId} (change : FieldChange) : node.name = change.node.name →
    Tells (.changeField change) (.field node change.name change.old change.new)

namespace Workspace

/-- A workspace that hears of every change, and keeps what it hears. -/
abbrev journal : Host Error Workspace := recording .edit

/-- A workspace after an edit that was told of. -/
def told (w : Workspace) (m : Model) (event : Event) : Workspace :=
  { w with model := m, events := event :: w.events }

theorem current_eq_ok_iff {m : Model} : journal.current w = .ok m w' ↔ m = w.model ∧ w' = w := by
  change EStateM.Result.ok w.model w = _ ↔ _
  simp [eq_comm]

theorem notify_eq_ok_iff {event : Event} {u : Unit} :
    journal.notify event w = .ok u w' ↔ w' = w.told w.model event := by
  change EStateM.Result.ok () (w.told w.model event) = _ ↔ _
  simp [eq_comm]

theorem edit_eq_ok_iff {α : Type} {change : Edit α} {a : α} : journal.edit change w = .ok a w' ↔
    ∃ m, change w.model = .ok a m ∧ w' = { w with model := m } := by
  simp only [Host.edit, show journal.model w = w.model from rfl]
  cases change w.model with
  | ok b m =>
    simp only [EStateM.Result.ok.injEq]
    constructor
    · rintro ⟨rfl, rfl⟩
      exact ⟨m, ⟨rfl, rfl⟩, rfl⟩
    · rintro ⟨_, ⟨rfl, rfl⟩, rfl⟩
      exact ⟨rfl, rfl⟩
  | error e m => simp

theorem lookup_eq_ok_iff : journal.lookup id w = .ok k w' ↔ w' = w ∧ w.model.find? id = some k :=
  Host.lookup_eq_ok_iff

/-- An edit is told of when it is made. -/
theorem announce_eq_ok_iff {change : Edit Event} :
    (do journal.notify (← journal.edit change) : EStateM Error Workspace Unit) w = .ok () w' ↔
      ∃ event m, change w.model = .ok event m ∧ w' = w.told m event := by
  simp only [EStateM.bind_eq_ok_iff, edit_eq_ok_iff, notify_eq_ok_iff]
  constructor
  · rintro ⟨event, _, ⟨m, made, rfl⟩, rfl⟩
    exact ⟨event, m, made, rfl⟩
  · rintro ⟨event, m, made, rfl⟩
    exact ⟨event, _, ⟨m, made, rfl⟩, rfl⟩

/-- An edit that yields something is told of when it is made. -/
theorem announceWith_eq_ok_iff {α : Type} {change : Edit (α × Event)} {a : α} :
    (do
      let (a, event) ← journal.edit change
      journal.notify event
      return a : EStateM Error Workspace α) w = .ok a w' ↔
      ∃ event m, change w.model = .ok (a, event) m ∧ w' = w.told m event := by
  simp only [EStateM.bind_eq_ok_iff, edit_eq_ok_iff, notify_eq_ok_iff, EStateM.pure_eq_ok_iff]
  constructor
  · rintro ⟨⟨_, event⟩, _, ⟨m, made, rfl⟩, _, _, rfl, rfl, rfl⟩
    exact ⟨event, m, made, rfl⟩
  · rintro ⟨event, m, made, rfl⟩
    exact ⟨(a, event), _, ⟨m, made, rfl⟩, (), _, rfl, rfl, rfl⟩

end Workspace

/-! ### What is told of an entry -/

open Workspace

/-- A model's link of a name leads to the node of a name just when there is such a link. -/
theorem Model.linkedName?_eq_some_iff {m : Model} {slot : String} {name : Name} :
    m.linkedName? k slot = some name ↔ ∃ edge c, (m.node k).edge? slot = some edge ∧
      (m.node k).target? edge = some c ∧ m.nameOf c = name := by
  simp only [Model.linkedName?, bind, Option.bind_eq_some_iff, pure, Option.some.injEq]
  constructor
  · rintro ⟨edge, named, c, leads, same⟩
    exact ⟨edge, c, named, leads, same⟩
  · rintro ⟨edge, c, named, leads, same⟩
    exact ⟨edge, named, c, leads, same⟩

/-- An entry that nothing stands in the way of is carried out with one event, as the edit that it
stands for and by the replay alike. -/
theorem Does.told {m' : Model} (does : Does w.model entry m') (sound : w.model.Sound) :
    ∃ event, Tells entry event ∧ journal.perform entry w = .ok () (w.told m' event) ∧
      ∃ back, journal.applyEntry entry w = .ok back (w.told m' event) := by
  have found : ∀ {k} {id : NodeId}, w.model.Holds k → (w.model.node k).id.name = id.name →
      journal.lookup id w = .ok k w := fun held name =>
    lookup_eq_ok_iff.2 ⟨rfl, sound.find?_eq_some_iff.2 ⟨held, name⟩⟩
  have looked : journal.current w = .ok w.model w := rfl
  -- Performing an entry and applying it make the same change; applying it also returns the way back.
  cases does with
  | create node solid free =>
    have made : journal.createNode (some node.id) node.kind node.content w =
        .ok w.model.nodes.size (w.told (w.model.grown node.id node.kind node.content)
          (.create node.id)) := by
      have given : ¬ ((some node.id).getD .null).isVoid = true := by simp [solid]
      simp only [Host.createNode, if_neg given]
      exact announceWith_eq_ok_iff.2 ⟨_, _, Model.createNode_eq _ _ free, rfl⟩
    refine ⟨.create node.id, .create node, EStateM.discard_eq_ok_iff.2 ⟨_, made⟩,
      (Entry.create node).inverse?.getD (.create node), ?_⟩
    exact EStateM.bind_eq_ok_iff.2 ⟨(), _, EStateM.discard_eq_ok_iff.2 ⟨_, made⟩, rfl⟩
  | @delete k id kind content held name root last leaf =>
    have gone := announce_eq_ok_iff.2 ⟨_, _, Model.deleteNode_eq held root last leaf, rfl⟩
    let node := w.model.node k
    refine ⟨_, .delete id kind content name, EStateM.bind_eq_ok_iff.2 ⟨k, w, found held name, gone⟩,
      .create ⟨node.id, node.kind, node.toContent⟩, ?_⟩
    refine EStateM.bind_eq_ok_iff.2 ⟨k, w, found held name, EStateM.bind_eq_ok_iff.2 ⟨_, w, looked, ?_⟩⟩
    exact EStateM.bind_eq_ok_iff.2 ⟨(), _, gone, rfl⟩
  | @addLink p c edge link heldP heldC nameP nameC named free root apart =>
    have ran := Model.link_eq sound heldC named free root (mt (sound.top_eq_iff heldP root).1 apart)
    have made := announce_eq_ok_iff.2 ⟨_, _, ran, rfl⟩
    refine ⟨_, .link link nameP nameC, ?_, (Entry.addLink link).inverse?.getD (.addLink link), ?_⟩
    · exact EStateM.bind_eq_ok_iff.2 ⟨p, w, found heldP nameP,
        EStateM.bind_eq_ok_iff.2 ⟨c, w, found heldC nameC, made⟩⟩
    · refine EStateM.bind_eq_ok_iff.2 ⟨p, w, found heldP nameP,
        EStateM.bind_eq_ok_iff.2 ⟨c, w, found heldC nameC, ?_⟩⟩
      exact EStateM.bind_eq_ok_iff.2 ⟨(), _, made, rfl⟩
  | @removeLink p c edge link heldP nameP nameC named leads =>
    have cut := EStateM.discard_eq_ok_iff.2 ⟨c, announceWith_eq_ok_iff.2
      ⟨_, _, Model.unlink_eq named leads, rfl⟩⟩
    refine ⟨_, .unlink link nameP nameC, ?_,
      (Entry.removeLink link).inverse?.getD (.removeLink link), ?_⟩
    · refine EStateM.bind_eq_ok_iff.2 ⟨p, w, found heldP nameP, EStateM.bind_eq_ok_iff.2 ⟨_, w, looked, ?_⟩⟩
      rw [if_pos (Model.linkedName?_eq_some_iff.2 ⟨edge, c, named, leads, nameC⟩)]
      exact cut
    · exact EStateM.bind_eq_ok_iff.2 ⟨p, w, found heldP nameP, EStateM.bind_eq_ok_iff.2 ⟨(), _, cut, rfl⟩⟩
  | @changeField k change held name old =>
    have set := announce_eq_ok_iff.2 ⟨_, _, Model.setField_eq w.model k change.name change.new, rfl⟩
    refine ⟨.field (w.model.node k).id change.name ((w.model.node k).fields.get? change.name)
      change.new, old ▸ .field change name, ?_,
      (Entry.changeField change).inverse?.getD (.changeField change), ?_⟩
    · refine EStateM.bind_eq_ok_iff.2 ⟨k, w, found held name, EStateM.bind_eq_ok_iff.2 ⟨_, w, looked, ?_⟩⟩
      rw [if_pos old]
      exact set
    · exact EStateM.bind_eq_ok_iff.2 ⟨k, w, found held name, EStateM.bind_eq_ok_iff.2 ⟨(), _, set, rfl⟩⟩

/-- An entry whose edit succeeds has nothing in its way. -/
theorem does_of_perform (sound : w.model.Sound)
    (solid : ∀ node, entry = .create node → node.id.isVoid = false)
    (ran : journal.perform entry w = .ok () w') : Does w.model entry w'.model := by
  -- Whatever the model did, it did because nothing stood in the way.
  cases entry with
  | create node =>
    obtain ⟨k, created⟩ := EStateM.discard_eq_ok_iff.1 ran
    have given : ¬ ((some node.id).getD .null).isVoid = true := by simp [solid node rfl]
    simp only [Host.createNode, if_neg given] at created
    obtain ⟨event, m, made, rfl⟩ := announceWith_eq_ok_iff.1 created
    rcases w.model.createNode_cases node.id node.kind node.content with ⟨free, did⟩ | ⟨e, refused⟩
    · cases made.symm.trans did
      exact .create node (solid node rfl) free
    · cases made.symm.trans refused
  | delete id kind content =>
    obtain ⟨k, _, looked, deleted⟩ := EStateM.bind_eq_ok_iff.1 ran
    obtain ⟨rfl, found⟩ := lookup_eq_ok_iff.1 looked
    obtain ⟨held, name⟩ := sound.find?_eq_some_iff.1 found
    obtain ⟨event, m, gone, rfl⟩ := announce_eq_ok_iff.1 deleted
    rcases Model.deleteNode_cases held.1 with ⟨_, root, last, leaf, did⟩ | ⟨e, refused⟩
    · cases gone.symm.trans did
      exact .delete id kind content held name root last leaf
    · cases gone.symm.trans refused
  | addLink link =>
    obtain ⟨p, _, looked, rest⟩ := EStateM.bind_eq_ok_iff.1 ran
    obtain ⟨rfl, foundP⟩ := lookup_eq_ok_iff.1 looked
    obtain ⟨c, _, looked, linked⟩ := EStateM.bind_eq_ok_iff.1 rest
    obtain ⟨rfl, foundC⟩ := lookup_eq_ok_iff.1 looked
    obtain ⟨heldP, nameP⟩ := sound.find?_eq_some_iff.1 foundP
    obtain ⟨heldC, nameC⟩ := sound.find?_eq_some_iff.1 foundC
    obtain ⟨event, m, made, rfl⟩ := announce_eq_ok_iff.1 linked
    rcases sound.link_cases p heldC link.slot with ⟨edge, named, free, root, apart, did⟩ | ⟨_, _, refused⟩
    · cases made.symm.trans did
      exact .addLink link heldP heldC nameP nameC named free root
        (mt (sound.top_eq_iff heldP root).2 apart)
    · cases made.symm.trans refused
  | removeLink link =>
    obtain ⟨p, _, looked, rest⟩ := EStateM.bind_eq_ok_iff.1 ran
    obtain ⟨rfl, foundP⟩ := lookup_eq_ok_iff.1 looked
    obtain ⟨heldP, nameP⟩ := sound.find?_eq_some_iff.1 foundP
    obtain ⟨_, _, looked, unlinked⟩ := EStateM.bind_eq_ok_iff.1 rest
    obtain ⟨rfl, rfl⟩ := current_eq_ok_iff.1 looked
    split at unlinked
    · next present =>
      obtain ⟨edge, c, named, leads, nameC⟩ := Model.linkedName?_eq_some_iff.1 present
      obtain ⟨_, unlinked⟩ := EStateM.discard_eq_ok_iff.1 unlinked
      obtain ⟨event, m, cut, rfl⟩ := announceWith_eq_ok_iff.1 unlinked
      cases cut.symm.trans (Model.unlink_eq named leads)
      exact .removeLink link heldP nameP nameC named leads
    · cases unlinked
  | changeField change =>
    obtain ⟨k, _, looked, rest⟩ := EStateM.bind_eq_ok_iff.1 ran
    obtain ⟨rfl, found⟩ := lookup_eq_ok_iff.1 looked
    obtain ⟨held, name⟩ := sound.find?_eq_some_iff.1 found
    obtain ⟨_, _, looked, changed⟩ := EStateM.bind_eq_ok_iff.1 rest
    obtain ⟨rfl, rfl⟩ := current_eq_ok_iff.1 looked
    split at changed
    · next old =>
      obtain ⟨event, m, set, rfl⟩ := announce_eq_ok_iff.1 changed
      cases set.symm.trans (Model.setField_eq _ k change.name change.new)
      exact .changeField change held name old
    · cases changed
  | other text => cases ran

/-! ### Runs of entries -/

/-- Entries that nothing stands in the way of are carried out with one event each. -/
theorem DoesAll.told {m' : Model} (does : DoesAll w.model entries m') (sound : w.model.Sound) :
    ∃ events backs w', List.Forall₂ Tells entries events ∧ w'.model = m' ∧
      w'.events = events.reverse ++ w.events ∧ entries.forM journal.perform w = .ok ⟨⟩ w' ∧
      entries.mapM journal.applyEntry w = .ok backs w' := by
  induction entries generalizing w with
  | nil =>
    cases does
    exact ⟨[], [], w, .nil, rfl, rfl, rfl, rfl⟩
  | cons entry rest ih =>
    cases does with
    | @cons _ m₁ _ _ _ first later =>
      obtain ⟨event, tells, performed, back, applied⟩ := first.told sound
      obtain ⟨events, backs, w', tellsAll, last, kept, performedAll, appliedAll⟩ :=
        ih (w := w.told m₁ event) later (first.sound sound)
      -- The journal has the latest event first.
      refine ⟨event :: events, back :: backs, w', .cons tells tellsAll, last, ?_, ?_, ?_⟩
      · rw [kept, List.reverse_cons, List.append_assoc]
        rfl
      · exact EStateM.bind_eq_ok_iff.2 ⟨(), _, performed, performedAll⟩
      · rw [List.mapM_cons]
        exact EStateM.bind_eq_ok_iff.2 ⟨back, _, applied, EStateM.bind_eq_ok_iff.2 ⟨backs, w', appliedAll, rfl⟩⟩

/-- Entries whose edits succeed one after the other have nothing in their way. -/
theorem doesAll_of_perform (sound : w.model.Sound)
    (solid : ∀ node, Entry.create node ∈ entries → node.id.isVoid = false)
    (ran : entries.forM journal.perform w = .ok ⟨⟩ w') : DoesAll w.model entries w'.model := by
  induction entries generalizing w with
  | nil =>
    cases ran
    exact .nil _
  | cons entry rest ih =>
    obtain ⟨_, w₁, first, later⟩ := EStateM.bind_eq_ok_iff.1 ran
    have does := does_of_perform sound (fun node same => solid node (same ▸ List.mem_cons_self)) first
    exact .cons does (ih (does.sound sound) (fun node inside =>
      solid node (List.mem_cons_of_mem _ inside)) later)

/-- The check of a run of entries accepts it just when the edits that the entries stand for succeed
one after the other. What is accepted is then replayed, with one event for each entry in their order;
what is refused is refused for a fault of an entry, and nothing has changed or been told. -/
theorem replay_iff_perform (reached : Reachable w)
    (solid : ∀ node, Entry.create node ∈ entries → node.id.isVoid = false) :
    ((∃ o, w.model.outline.replay entries = .ok o) ↔
      ∃ w', entries.forM journal.perform w = .ok ⟨⟩ w') ∧
    ((∃ o, w.model.outline.replay entries = .ok o) →
      ∃ applied w' events, journal.applyEntries entries w = .ok applied w' ∧
        applied.entries = entries ∧ w'.events = events.reverse ++ w.events ∧
        List.Forall₂ Tells entries events ∧ entries.forM journal.perform w = .ok ⟨⟩ w') ∧
    (∀ e, w.model.outline.replay entries = .error e →
      (∃ entry ∈ entries, ∃ fault, e = .entry entry fault) ∧
        journal.applyEntries entries w = .error e w) := by
  have sound := reached.sound
  have mirrors := mirrors_outline sound
  have accepts : (∃ o, w.model.outline.replay entries = .ok o) ↔
      ∃ m', DoesAll w.model entries m' :=
    ⟨fun ⟨_, accepted⟩ => Mirrors.doesAll_of_replay sound mirrors accepted solid,
      fun ⟨_, does⟩ => does.replay sound mirrors⟩
  refine ⟨?_, fun accepted => ?_, fun e refused => ⟨?_, ?_⟩⟩
  · rw [accepts]
    constructor
    · rintro ⟨m', does⟩
      obtain ⟨_, _, w', _, _, _, performed, _⟩ := does.told sound
      exact ⟨w', performed⟩
    · rintro ⟨w', ran⟩
      exact ⟨_, doesAll_of_perform sound solid ran⟩
  · obtain ⟨m', does⟩ := accepts.1 accepted
    obtain ⟨o, accepted⟩ := accepted
    obtain ⟨events, backs, w', tells, _, kept, performed, applied⟩ := does.told sound
    refine ⟨⟨entries, backs⟩, w', events, ?_, rfl, kept, tells, performed⟩
    refine EStateM.bind_eq_ok_iff.2 ⟨w.model, w, rfl, ?_⟩
    rw [accepted]
    exact EStateM.bind_eq_ok_iff.2 ⟨backs, w', applied, rfl⟩
  · exact Mirrors.fault_of_replay sound mirrors refused solid
  · -- The refusal comes before the first edit.
    have now : journal.current w = .ok w.model w := rfl
    simp only [Host.applyEntries, bind, EStateM.bind, now, refused]
    rfl

/-- The one item of an array taken out of it and destroyed. -/
def emptying : List Entry := [.removeLink ⟨"n1", itemsSlot, "n2"⟩, .delete "n2" none {}]

theorem emptying_told : ∃ applied w', journal.applyEntries emptying (readIn "[1]" 0) = .ok applied w' ∧
    w'.events.length = 2 := by
  have solid : ∀ node, Entry.create node ∈ emptying → node.id.isVoid = false := by
    intro node inside
    simp [emptying] at inside
  have accepted : ((readIn "[1]" 0).model.outline.replay emptying).toOption.isSome = true := by
    decide +kernel
  obtain ⟨applied, w', events, ran, _, kept, tells, _⟩ :=
    (replay_iff_perform (reachable_readIn "[1]" 0) solid).2.1 (Except.exists_ok accepted)
  have none : (readIn "[1]" 0).events = [] := by decide +kernel
  refine ⟨applied, w', ran, ?_⟩
  rw [kept, none, List.append_nil, List.length_reverse, ← tells.length_eq]
  rfl

end DocSync
