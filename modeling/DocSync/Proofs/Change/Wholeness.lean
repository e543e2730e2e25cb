import DocSync.Proofs.Change.Performance
import DocSync.Proofs.Change.Replay
import DocSync.Proofs.Model.Built

/-!
Whether entries are carried out entirely or not at all. What the check refuses is not begun, and what
it accepts comes to an end, unless a creation among it gives an id that stands for nothing. The check
knows the new node by that id; the model makes it under a fresh one, and cannot go back.
-/

namespace DocSync

open Model Workspace

variable {entry : Entry} {entries : List Entry} {m m' : Model} {w : Workspace} {k : Key}

/-! ### The nodes that were ever made -/

/-- The id and the kind of every node that a model has ever held, in the order in which the nodes
were made. -/
def Model.tags (m : Model) : List (NodeId × Kind) :=
  (List.range m.nodes.size).map fun k => ((m.node k).id, (m.node k).kind)

/-- The id and the kind of the node that an entry calls for. -/
def Entry.made? : Entry → Option (NodeId × Kind)
  | .create node => some (node.id, node.kind)
  | _ => none

/-- A replay went through entirely, and has made a node for each creation under the very id that this
gives; or it failed and has left the model as it was. -/
def Whole (entries : List Entry) (before : Workspace) :
    EStateM.Result Error Workspace Applied → Prop
  | .ok _ after => after.model.tags = before.model.tags ++ entries.filterMap Entry.made?
  | .error _ after => after.model = before.model

instance (entries : List Entry) (before : Workspace) : DecidablePred (Whole entries before)
  | .ok _ after =>
    inferInstanceAs (Decidable (after.model.tags = before.model.tags ++ entries.filterMap Entry.made?))
  | .error _ after => inferInstanceAs (Decidable (after.model = before.model))

namespace Model

theorem tags_grown (m : Model) (id : NodeId) (kind : Kind) (content : Content) :
    (m.grown id kind content).tags = m.tags ++ [(id, kind)] := by
  rw [tags, size_grown, List.range_succ, List.map_append, List.map_singleton, node_grown,
    if_pos rfl]
  refine congrArg (· ++ _) (List.map_congr_left fun k inside => ?_)
  rw [node_grown, if_neg (Nat.ne_of_lt (List.mem_range.1 inside))]

theorem tags_congr (size : m'.nodes.size = m.nodes.size) (id : ∀ k, (m'.node k).id = (m.node k).id)
    (kind : ∀ k, (m'.node k).kind = (m.node k).kind) : m'.tags = m.tags := by
  simp only [tags, size, id, kind]

theorem tags_pruned (m : Model) (k : Key) : (m.pruned k).tags = m.tags := by
  have kept : ∀ j, ((m.pruned k).node j).id = (m.node j).id ∧
      ((m.pruned k).node j).kind = (m.node j).kind := by
    intro j
    rw [node_pruned]
    split
    · next here => rw [here.1]; exact ⟨rfl, rfl⟩
    · exact ⟨rfl, rfl⟩
  exact tags_congr (m.size_pruned k) (fun j => (kept j).1) fun j => (kept j).2

end Model

/-- An entry that nothing stands in the way of makes the node that it calls for, and no other. -/
theorem Does.tags (does : Does m entry m') (sound : m.Sound) :
    m'.tags = m.tags ++ entry.made?.toList := by
  have rehung : ∀ {p c edge made}, m.Holds p → m.Holds c → p ≠ c →
      (m.rehang p edge c made).tags = m.tags ++ [] := by
    intro p c edge made heldP heldC differ
    have same := Model.sameNodes_rehang edge heldP heldC differ made
    rw [tags_congr same.size same.id same.kind, List.append_nil]
  -- Only a creation adds to the tags of a model.
  cases does with
  | create node solid free => exact m.tags_grown _ _ _
  | delete id kind content held name root last leaf =>
    exact (m.tags_pruned _).trans (List.append_nil _).symm
  | addLink link heldP heldC nameP nameC named free root apart =>
    exact rehung heldP heldC fun same => apart (same ▸ .refl)
  | removeLink link heldP nameP nameC named leads =>
    obtain ⟨heldC, above⟩ := sound.back heldP leads
    exact rehung heldP heldC fun same => sound.not_over_parent heldC above (same ▸ .refl)
  | @changeField k change held name old =>
    have same := m.sameForest_withField k change.name change.new
    exact (tags_congr same.size same.id same.kind).trans (List.append_nil _).symm

theorem DoesAll.tags (does : DoesAll m entries m') (sound : m.Sound) :
    m'.tags = m.tags ++ entries.filterMap Entry.made? := by
  induction does with
  | nil => exact (List.append_nil _).symm
  | @cons m m₁ m' entry rest step _ ih =>
    rw [ih (step.sound sound), step.tags sound, List.append_assoc, List.filterMap_cons]
    cases entry.made? <;> rfl

/-! ### What a replay cannot go back on -/

/-- The id of the node that an entry makes or destroys. -/
def Entry.subject? : Entry → Option NodeId
  | .create node => some node.id
  | .delete id _ _ => some id
  | _ => none

/-- What is left of a model, however an entry ends: every node that was ever made has been made, and a
node is still held if it is not the one that the entry destroys. -/
structure Outlasts (m : Model) (entry : Entry) (m' : Model) : Prop where
  tags : m.tags <+: m'.tags
  held : ∀ {k}, m.Holds k → entry.subject?.map NodeId.name ≠ some (m.nameOf k) → m'.Holds k

theorem Outlasts.refl (m : Model) (entry : Entry) : Outlasts m entry m :=
  ⟨List.prefix_refl _, fun held _ => held⟩

theorem outlasts_grown (m : Model) (entry : Entry) (id : NodeId) (kind : Kind) (content : Content) :
    Outlasts m entry (m.grown id kind content) where
  tags := m.tags_grown id kind content ▸ List.prefix_append _ _
  held held _ := (m.holds_grown id kind content _).2 (.inl held)

theorem SameNodes.outlasts (same : SameNodes m m') (entry : Entry) : Outlasts m entry m' where
  tags := tags_congr same.size same.id same.kind ▸ List.prefix_refl _
  held held _ := (same.holds _).2 held

namespace Workspace

variable {α β : Type}

/-- A run that looks a node up first goes no further if there is none. -/
theorem endOf_lookup_bind {id : NodeId} (f : Key → EStateM Error Workspace β) :
    endOf (journal.lookup id >>= f) w =
      match w.model.find? id with
      | some k => endOf (f k) w
      | none => w := by
  have looked : journal.current w = .ok w.model w := rfl
  rw [endOf_bind]
  cases found : w.model.find? id with
  | some k => rw [lookup_eq_ok_iff.2 ⟨rfl, found⟩]
  | none =>
    simp only [Host.lookup, bind, EStateM.bind, looked, found]
    rfl

/-- An edit leads a workspace to where it leads the model. -/
theorem model_endOf_announce (change : Edit Event) :
    (endOf (do journal.notify (← journal.edit change)) w).model = endOf change w.model := by
  rw [endOf_bind]
  simp only [Host.edit, endOf, show journal.model w = w.model from rfl]
  cases change w.model <;> rfl

theorem model_endOf_announceWith (change : Edit (α × Event)) :
    (endOf (do
      let (a, event) ← journal.edit change
      journal.notify event
      return a) w).model = endOf change w.model := by
  rw [endOf_bind]
  simp only [Host.edit, endOf, show journal.model w = w.model from rfl]
  cases change w.model <;> rfl

/-- A node is created under the id that is given, or under a fresh one in place of none. -/
theorem endOf_createNode (id : NodeId) (kind : Kind) (content : Content) :
    (endOf (journal.createNode (some id) kind content) w).model =
      endOf (Model.createNode (if id.isVoid then freshId (w.supply + 1) else id) kind content)
        w.model := by
  by_cases void : id.isVoid
  · simp only [Host.createNode, Option.getD_some, void, if_true]
    rw [endOf_bind]
    exact model_endOf_announceWith _
  · simp only [Host.createNode, Option.getD_some, void]
    exact model_endOf_announceWith _

end Workspace

/-- However the replay of an entry ends, it destroys no node but the one that it names. -/
theorem outlasts_applyEntry (sound : w.model.Sound) (entry : Entry) :
    Outlasts w.model entry (endOf (journal.applyEntry entry) w).model := by
  -- An entry that fails leaves the model alone, and one that does not is one of five edits.
  cases entry with
  | create node =>
    simp only [Host.applyEntry]
    rw [endOf_bind_pure, endOf_discard, endOf_createNode]
    rcases w.model.createNode_cases (if node.id.isVoid then freshId (w.supply + 1) else node.id)
      node.kind node.content with ⟨_, ran⟩ | ⟨e, ran⟩ <;> rw [endOf, ran]
    · exact outlasts_grown _ _ _ _ _
    · exact .refl _ _
  | delete id kind content =>
    simp only [Host.applyEntry]
    rw [endOf_lookup_bind]
    cases found : w.model.find? id with
    | none => exact .refl _ _
    | some k =>
      obtain ⟨held, name⟩ := sound.find?_eq_some_iff.1 found
      have looked : journal.current w = .ok w.model w := rfl
      simp only
      rw [endOf_bind, looked]
      simp only
      rw [endOf_bind_pure, Host.deleteNode, model_endOf_announce]
      rcases Model.deleteNode_cases held.1 with ⟨_, root, last, leaf, ran⟩ | ⟨e, ran⟩ <;>
        rw [endOf, ran]
      · refine ⟨w.model.tags_pruned k ▸ List.prefix_refl _, fun {j} heldJ other => ?_⟩
        refine (holds_pruned _ _ _).2 ⟨heldJ, ?_⟩
        rintro rfl
        exact other (congrArg some name.symm)
      · exact .refl _ _
  | addLink link =>
    simp only [Host.applyEntry]
    rw [endOf_lookup_bind]
    cases foundP : w.model.find? link.parent with
    | none => exact .refl _ _
    | some p =>
      simp only
      rw [endOf_lookup_bind]
      cases foundC : w.model.find? link.child with
      | none => exact .refl _ _
      | some c =>
        have heldP := (sound.find?_eq_some_iff.1 foundP).1
        have heldC := (sound.find?_eq_some_iff.1 foundC).1
        simp only
        rw [endOf_bind_pure, Host.link, model_endOf_announce]
        rcases sound.link_cases p heldC link.slot with ⟨edge, named, free, root, apart, ran⟩ | ⟨_, _, ran⟩ <;>
          rw [endOf, ran]
        · have differ : p ≠ c := fun same =>
            apart ((sound.top_eq_iff heldP root).2 (same ▸ .refl))
          exact (Model.sameNodes_rehang edge heldP heldC differ true).outlasts _
        · exact .refl _ _
  | removeLink link =>
    simp only [Host.applyEntry]
    rw [endOf_lookup_bind]
    cases foundP : w.model.find? link.parent with
    | none => exact .refl _ _
    | some p =>
      have heldP := (sound.find?_eq_some_iff.1 foundP).1
      simp only
      rw [endOf_bind_pure, endOf_discard, Host.unlink, model_endOf_announceWith]
      rcases w.model.unlink_cases p link.slot with ⟨edge, c, named, leads, ran⟩ | ⟨e, ran⟩ <;>
        rw [endOf, ran]
      · obtain ⟨heldC, above⟩ := sound.back heldP leads
        have differ : p ≠ c := fun same => sound.not_over_parent heldC above (same ▸ .refl)
        exact (Model.sameNodes_rehang edge heldP heldC differ false).outlasts _
      · exact .refl _ _
  | changeField change =>
    simp only [Host.applyEntry]
    rw [endOf_lookup_bind]
    cases found : w.model.find? change.node with
    | none => exact .refl _ _
    | some k =>
      simp only
      rw [endOf_bind_pure, Host.setField, model_endOf_announce, endOf, setField_eq]
      have same := w.model.sameForest_withField k change.name change.new
      exact ⟨tags_congr same.size same.id same.kind ▸ List.prefix_refl _, fun held _ =>
        same.holds_iff.2 held⟩
  | other text => exact .refl _ _

/-- A node that was ever made keeps its id. -/
theorem Model.id_eq_of_tags (longer : m.tags <+: m'.tags) (inside : k < m.nodes.size) :
    (m'.node k).id = (m.node k).id := by
  have here : k < m.tags.length := by simpa [tags] using inside
  have there : k < m'.tags.length := Nat.lt_of_lt_of_le here longer.length_le
  have same : m'.tags[k] = m.tags[k] := (longer.getElem here).symm
  simpa [tags] using congrArg Prod.fst same

/-- However a run of entries ends, a node that none of them destroys is still held. -/
theorem outlasts_mapM_applyEntry (sound : w.model.Sound) (held : w.model.Holds k)
    (spared : ∀ entry ∈ entries, entry.subject?.map NodeId.name ≠ some (w.model.nameOf k)) :
    w.model.tags <+: (endOf (entries.mapM journal.applyEntry) w).model.tags ∧
      (endOf (entries.mapM journal.applyEntry) w).model.Holds k := by
  induction entries generalizing w with
  | nil => exact ⟨List.prefix_refl _, held⟩
  | cons entry rest ih =>
    have step := outlasts_applyEntry sound entry
    have kept := Host.Runs.applyEntry (Host.quiet_recording Error.edit) entry w sound
    rw [List.mapM_cons, endOf_bind]
    unfold endOf at step
    cases ran : journal.applyEntry entry w with
    | error e w₁ =>
      rw [ran] at step
      exact ⟨step.tags, step.held held (spared entry List.mem_cons_self)⟩
    | ok back w₁ =>
      rw [ran] at step kept
      simp only
      rw [endOf_bind_pure]
      -- The node keeps its name, so the entries that are left spare it too.
      have name : w₁.model.nameOf k = w.model.nameOf k :=
        congrArg NodeId.name (id_eq_of_tags step.tags held.1)
      obtain ⟨longer, last⟩ := ih kept (step.held held (spared entry List.mem_cons_self))
        fun other inside => name ▸ spared other (List.mem_cons_of_mem _ inside)
      exact ⟨step.tags.trans longer, last⟩

/-! ### All or nothing -/

/-- No id that is still to be handed out is that of a node that was ever made, or of one that an entry
makes or destroys. -/
def Unspent (entries : List Entry) (w : Workspace) : Prop :=
  ∀ n, w.supply < n → freshId n ∉ w.model.tags.map Prod.fst ∧
    ∀ entry ∈ entries, entry.subject? ≠ some (freshId n)

namespace Unspent

variable {n : Nat}

/-- An id of the name of a fresh one is that fresh one. -/
theorem eq_freshId {id : NodeId} (same : id.name = (freshId n).name) : id = freshId n :=
  NodeId.name_eq_text_iff.1 same

theorem find?_eq_none (unspent : Unspent entries w) (sound : w.model.Sound) (later : w.supply < n) :
    w.model.find? (freshId n) = none := by
  cases found : w.model.find? (freshId n) with
  | none => rfl
  | some k =>
    obtain ⟨held, name⟩ := sound.find?_eq_some_iff.1 found
    refine absurd (List.mem_map.2 ⟨_, List.mem_map_of_mem (List.mem_range.2 held.1), ?_⟩)
      (unspent n later).1
    exact eq_freshId name

/-- No entry destroys a node of a fresh id. -/
theorem spares (unspent : Unspent entries w) (later : w.supply < n) (inside : entry ∈ entries) :
    entry.subject?.map NodeId.name ≠ some (freshId n).name := by
  intro same
  obtain ⟨id, subject, name⟩ := Option.map_eq_some_iff.1 same
  exact (unspent n later).2 entry inside (eq_freshId name ▸ subject)

/-- What an entry makes under an id of its own takes no fresh one. -/
theorem told {m' : Model} {event : Event} (unspent : Unspent (entry :: entries) w)
    (tags : m'.tags = w.model.tags ++ entry.made?.toList) : Unspent entries (w.told m' event) := by
  intro n later
  obtain ⟨absent, named⟩ := unspent n later
  refine ⟨?_, fun other inside => named other (List.mem_cons_of_mem _ inside)⟩
  change freshId n ∉ m'.tags.map Prod.fst
  rw [tags, List.map_append, List.mem_append, not_or]
  refine ⟨absent, ?_⟩
  have apart := named entry List.mem_cons_self
  cases entry with
  | create node => simpa [Entry.made?, Entry.subject?, eq_comm] using apart
  | _ => simp [Entry.made?]

end Unspent

/-- A creation without an id to speak of makes a node under the next fresh id. -/
theorem applyEntry_create_of_void {node : Specimen} (void : node.id.isVoid = true)
    (free : w.model.find? (freshId (w.supply + 1)) = none) :
    ∃ back w₁, journal.applyEntry (.create node) w = .ok back w₁ ∧
      w₁.model = w.model.grown (freshId (w.supply + 1)) node.kind node.content := by
  let given := { w with supply := w.supply + 1 }
  have made : journal.createNode (some node.id) node.kind node.content w =
      .ok w.model.nodes.size (given.told (w.model.grown (freshId (w.supply + 1)) node.kind node.content)
        (.create (freshId (w.supply + 1)))) := by
    simp only [Host.createNode, Option.getD_some, void, if_true]
    refine EStateM.bind_eq_ok_iff.2 ⟨freshId (w.supply + 1), given, rfl, ?_⟩
    exact announceWith_eq_ok_iff.2 ⟨_, _, Model.createNode_eq _ _ free, rfl⟩
  exact ⟨_, _, EStateM.bind_eq_ok_iff.2 ⟨(), _, EStateM.discard_eq_ok_iff.2 ⟨_, made⟩, rfl⟩, rfl⟩

/-- A creation that the check has accepted, but that gives no id to speak of, leaves a node behind that
nothing will be able to name. -/
theorem left_over_of_void {o o' : Outline} {ks : List Key} {js : List Joint}
    (sound : w.model.Sound) (mirrors : Mirrors o w.model ks js)
    (accepted : o.replay entries = .ok o') (unspent : Unspent entries w)
    (void : ∃ node, Entry.create node ∈ entries ∧ node.id.isVoid = true) :
    ∃ before node after k n, entries = before ++ .create node :: after ∧ node.id.isVoid = true ∧
      w.supply < n ∧ w.model.tags ++ before.filterMap Entry.made? ++ [(freshId n, node.kind)] <+:
        (endOf (entries.mapM journal.applyEntry) w).model.tags ∧
      (endOf (entries.mapM journal.applyEntry) w).model.Holds k ∧
      ((endOf (entries.mapM journal.applyEntry) w).model.node k).id = freshId n := by
  induction entries generalizing w o ks js with
  | nil => simp at void
  | cons entry rest ih =>
    rw [Outline.replay] at accepted
    cases stepped : o.step entry with
    | error e => simp [stepped, bind, Except.bind] at accepted
    | ok o₁ =>
    simp only [stepped, bind, Except.bind] at accepted
    rw [List.mapM_cons, endOf_bind]
    by_cases here : ∃ node, entry = .create node ∧ node.id.isVoid = true
    · -- The node is made under a fresh id here, and no later entry gets at it.
      obtain ⟨node, rfl, empty⟩ := here
      have later := Nat.lt_succ_self w.supply
      obtain ⟨back, w₁, ran, same⟩ := applyEntry_create_of_void empty
        (unspent.find?_eq_none sound later)
      have name : w₁.model.nameOf w.model.nodes.size = (freshId (w.supply + 1)).name := by
        rw [same, nameOf, node_grown, if_pos rfl]
      have sound₁ : w₁.model.Sound := same ▸ sound.grown (Host.isVoid_freshId _)
        (unspent.find?_eq_none sound later) node.kind node.content
      have held : w₁.model.Holds w.model.nodes.size := by
        rw [same]
        exact (holds_grown _ _ _ _ _).2 (.inr rfl)
      obtain ⟨longer, last⟩ := outlasts_mapM_applyEntry sound₁ held
        fun other (inside : other ∈ rest) =>
          name ▸ unspent.spares later (List.mem_cons_of_mem _ inside)
      rw [ran]
      simp only
      rw [endOf_bind_pure]
      refine ⟨[], node, rest, _, _, rfl, empty, later, ?_, last, ?_⟩
      · rw [same, tags_grown] at longer
        simpa using longer
      · rw [id_eq_of_tags longer held.1, same, node_grown, if_pos rfl]
    · -- The entry is carried out as the check expects.
      obtain ⟨m', does⟩ := mirrors.does_of_step sound stepped fun node same => by
        by_contra empty
        exact here ⟨node, same, by simpa using empty⟩
      obtain ⟨o₂, ks', js', also, mirrors'⟩ := does.step sound mirrors
      obtain rfl : o₁ = o₂ := Except.ok.inj (stepped.symm.trans also)
      obtain ⟨event, -, -, back, ran⟩ := does.told sound
      obtain ⟨node, inside, void⟩ := void
      obtain inside := (List.mem_cons.1 inside).resolve_left fun same => here ⟨node, same.symm, void⟩
      obtain ⟨before, node, after, k, n, same, void, later, longer, held, id⟩ :=
        ih (w := w.told m' event) (does.sound sound) mirrors' accepted
          (unspent.told (does.tags sound)) ⟨node, inside, void⟩
      rw [ran]
      simp only
      rw [endOf_bind_pure]
      refine ⟨entry :: before, node, after, k, n, congrArg (entry :: ·) same, void, later, ?_, held, id⟩
      have tags : (w.told m' event).model.tags = w.model.tags ++ entry.made?.toList := does.tags sound
      rw [tags] at longer
      have made : (entry :: before).filterMap Entry.made? =
          entry.made?.toList ++ before.filterMap Entry.made? := by
        rw [List.filterMap_cons]
        cases entry.made? <;> rfl
      rw [made, ← List.append_assoc]
      exact longer

/-- A replay goes through entirely or changes nothing, unless the check accepts a creation under an id
that stands for nothing. In that case it does neither, however it ends: a node stays behind under a fresh
id, so long as fresh ids are not in use. -/
theorem whole_applyEntries (reached : Reachable w) :
    ((∀ o, w.model.outline.replay entries = .ok o →
        ∀ node, Entry.create node ∈ entries → node.id.isVoid = false) →
      Whole entries w (journal.applyEntries entries w)) ∧
    (Unspent entries w → ∀ o, w.model.outline.replay entries = .ok o →
      (∃ node, Entry.create node ∈ entries ∧ node.id.isVoid = true) →
        ¬ Whole entries w (journal.applyEntries entries w) ∧
          ∃ k n, w.supply < n ∧ (endOf (journal.applyEntries entries) w).model.Holds k ∧
            ((endOf (journal.applyEntries entries) w).model.node k).id = freshId n) := by
  have sound := reached.sound
  have mirrors := mirrors_outline sound
  have looked : journal.current w = .ok w.model w := rfl
  -- What is accepted is replayed entry by entry.
  have begun : ∀ o, w.model.outline.replay entries = .ok o → journal.applyEntries entries w =
      (do
        let backs ← entries.mapM journal.applyEntry
        return ⟨entries, backs⟩ : EStateM Error Workspace Applied) w := by
    intro o accepted
    simp only [Host.applyEntries, bind, EStateM.bind, looked, accepted]
  constructor
  · intro solid
    cases accepted : w.model.outline.replay entries with
    | error e =>
      simp only [Host.applyEntries, bind, EStateM.bind, looked, accepted]
      rfl
    | ok o =>
      obtain ⟨m', does⟩ := Mirrors.doesAll_of_replay sound mirrors accepted (solid o accepted)
      obtain ⟨_, backs, w', _, last, _, _, ran⟩ := does.told sound
      have whole : journal.applyEntries entries w = .ok ⟨entries, backs⟩ w' :=
        (begun o accepted).trans (EStateM.bind_eq_ok_iff.2 ⟨backs, w', ran, rfl⟩)
      rw [whole]
      change w'.model.tags = _
      rw [last, does.tags sound]
  · intro unspent o accepted void
    obtain ⟨before, node, after, k, n, split, void, later, longer, held, id⟩ :=
      left_over_of_void sound mirrors accepted unspent void
    have ended : endOf (journal.applyEntries entries) w =
        endOf (entries.mapM journal.applyEntry) w := by
      rw [endOf, begun o accepted]
      exact endOf_bind_pure (x := entries.mapM journal.applyEntry) fun backs => (⟨entries, backs⟩ : Applied)
    rw [ended]
    refine ⟨fun whole => ?_, k, n, later, held, id⟩
    rw [← ended] at longer
    unfold endOf at longer
    cases ran : journal.applyEntries entries w with
    | error e w' =>
      -- One node more has been made.
      rw [ran] at whole longer
      have same : w'.model = w.model := whole
      have short := longer.length_le
      simp only [same, List.length_append, List.length_singleton] at short
      omega
    | ok applied w' =>
      -- The creation asks for another id than the node was given.
      rw [ran] at whole longer
      have same : w'.model.tags = w.model.tags ++ entries.filterMap Entry.made? := whole
      simp only [same, split, List.filterMap_append, List.append_assoc,
        List.prefix_append_right_inj, List.filterMap_cons, Entry.made?, List.cons_prefix_cons,
        Prod.mk.injEq] at longer
      rw [← longer.1.1, Host.isVoid_freshId] at void
      cases void

/-- A scalar of an id put into the array of a document. -/
def filling (id : NodeId) : List Entry :=
  [.create ⟨id, .scalar, { fields := Dict.ofList [(valueName, "1")] }⟩, .addLink ⟨"n1", itemsSlot, id⟩]

theorem whole_applyEntries_filling :
    Whole (filling "x") (readIn "[]" 0) (journal.applyEntries (filling "x") (readIn "[]" 0)) ∧
      ¬ Whole (filling "") (readIn "[]" 0) (journal.applyEntries (filling "") (readIn "[]" 0)) ∧
      ∃ k n, (endOf (journal.applyEntries (filling "")) (readIn "[]" 0)).model.Holds k ∧ 1 < n ∧
        ((endOf (journal.applyEntries (filling "")) (readIn "[]" 0)).model.node k).id = freshId n := by
  have supply : (readIn "[]" 0).supply = 1 := by decide +kernel
  have tags : (readIn "[]" 0).model.tags.map Prod.fst = [freshId 1] := by decide +kernel
  have unspent : Unspent (filling "") (readIn "[]" 0) := by
    intro n later
    rw [supply] at later
    refine ⟨fun inside => ?_, fun entry inside => ?_⟩
    · rw [tags, List.mem_singleton] at inside
      have := Build.freshId_injective inside
      omega
    · have solid := Host.isVoid_freshId n
      rcases List.mem_cons.1 inside with rfl | inside
      · rintro same
        rw [← Option.some.inj same] at solid
        cases solid
      · rw [List.mem_singleton.1 inside]
        simp [Entry.subject?]
  have accepted : ((readIn "[]" 0).model.outline.replay (filling "")).toOption.isSome = true := by
    decide +kernel
  obtain ⟨o, accepted⟩ := Except.exists_ok accepted
  have whole : Whole (filling "x") (readIn "[]" 0) (journal.applyEntries (filling "x") (readIn "[]" 0)) :=
    (whole_applyEntries (reachable_readIn "[]" 0)).1 fun _ _ node inside => by
      simp only [filling, List.mem_cons, Entry.create.injEq, reduceCtorEq, List.not_mem_nil,
        or_false] at inside
      rw [inside]
      rfl
  obtain ⟨broken, k, n, later, held, id⟩ := (whole_applyEntries (reachable_readIn "[]" 0)).2 unspent o
    accepted ⟨_, List.mem_cons_self, rfl⟩
  exact ⟨whole, broken, k, n, held, supply ▸ later, id⟩

/-- The check accepts a scalar without an id to speak of and its link. The link then finds no such node,
and the scalar stays behind. -/
theorem not_whole_filling :
    ∃ e w', journal.applyEntries (filling "") (readIn "[]" 0) = .error e w' ∧
      (readIn "[]" 0).model.size = 1 ∧ w'.model.size = 2 := by
  obtain ⟨e, w', ran, size⟩ := EStateM.exists_error (s := readIn "[]" 0)
    (x := journal.applyEntries (filling "")) (p := fun _ w' => w'.model.size = 2) (by decide +kernel)
  exact ⟨e, w', ran, by decide +kernel, of_decide_eq_true size⟩

end DocSync
