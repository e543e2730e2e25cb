import DocSync.Proofs.Change.Linking
import DocSync.Proofs.Change.Undo
import DocSync.Proofs.Payload.Stored

/-!
The steps of restoring, told by entries. Each record of a stored model makes one node, and each reference in
it one link. A step succeeds just when its entries can be carried out, and then leads where they lead; else it
is refused, and what is refused is never the shape of a record.
-/

namespace DocSync

open Payload (Known Restore)

variable {α β : Type} {m m' : Model} {n : StoredNode} {record : Json} {known : Known} {w : Workspace}
variable {nodes : List StoredNode} {records : List Json}

/-- The failure is over what records say of one another or of their kinds, not over their shape. -/
def PayloadError.IsRefusal : PayloadError → Prop
  | .unknownKind _ | .absent _ | .inconsistent _ _ | .rootsDiffer => True
  | _ => False

/-- The link that is stored, by the ids of its ends. -/
def StoredLink.toLink (l : StoredLink) : Link := ⟨.text l.parent, l.slot, .text l.child⟩

/-- The node that a record makes, if its kind is known. -/
def StoredNode.specimen? (n : StoredNode) : Option Specimen :=
  (Kind.ofName? n.kind).map (⟨.text n.id, ·, n.content⟩)

/-- Records make nodes, one each. -/
abbrev Makes (nodes : List StoredNode) (come : List Specimen) : Prop :=
  List.Forall₂ (fun n node => n.specimen? = some node) nodes come

/-- A model without nodes. -/
def Model.Blank (m : Model) : Prop := m.nodes = #[] ∧ m.roots = []

theorem Model.Blank.sound (blank : m.Blank) : m.Sound := sound_of_empty blank.1 blank.2

namespace Payload

/-! ### Single steps -/

/-- The workspace with its model replaced. -/
def put (w : Workspace) (m : Model) : Workspace := { w with model := m }

theorem edit_of_ok {change : Edit α} {a : α} (ran : change w.model = .ok a m) :
    host.edit change w = .ok a (put w m) := by
  have looked : host.model w = w.model := rfl
  simp only [Host.edit, looked, ran]
  rfl

theorem createNode_of_free {id : NodeId} (solid : id.isVoid = false) (free : w.model.find? id = none)
    (kind : Kind) (content : Content) :
    host.createNode (some id) kind content w =
      .ok w.model.nodes.size (put w (w.model.grown id kind content)) := by
  have made := edit_of_ok (w := w) (Model.createNode_eq kind content free)
  simp only [Host.createNode, Option.getD_some, solid, Bool.false_eq_true, if_false]
  rw [pure_bind, EStateM.bind_of_ok made]
  rfl

theorem link_of_ok {parent child : Key} {slot : String} {event : Event}
    (ran : Model.link parent slot child w.model = .ok event m) :
    host.link parent slot child w = .ok () (put w m) := by
  rw [Host.link, EStateM.bind_of_ok (edit_of_ok ran)]
  rfl

theorem link_of_refused {parent child : Key} {slot : String} {subject : Subject} {fault : EditFault}
    (ran : Model.link parent slot child w.model = .error (.refused subject fault) m) :
    host.link parent slot child w =
      .error (.inconsistent (PayloadError.subjectText subject) fault) (put w m) := by
  have looked : host.model w = w.model := rfl
  refine EStateM.bind_of_error ?_ _
  simp only [Host.edit, looked, ran]
  rfl

theorem lift_ok (a : α) : lift (.ok a) = pure a := rfl

/-! ### Steps that do what entries do -/

/-- A step of restoring does what entries do: it leads where they lead, with a result that suits the model
reached, and it is refused where they cannot be carried out. -/
structure Performs (step : Restore α) (w : Workspace) (entries : List Entry) (post : α → Model → Prop) :
    Prop where
  done : ∀ {m'}, DoesAll w.model entries m' → ∃ a, step w = .ok a (put w m') ∧ post a m'
  refused : (¬ ∃ m', DoesAll w.model entries m') → ∃ e w', step w = .error e w' ∧ e.IsRefusal

namespace Performs

variable {step : Restore α} {entries later : List Entry} {post : α → Model → Prop}

theorem pure {a : α} (holds : post a w.model) : Performs (pure a) w [] post where
  done does := by
    cases does
    exact ⟨a, rfl, holds⟩
  refused none := absurd ⟨w.model, .nil _⟩ none

theorem bind {next : α → Restore β} {post' : β → Model → Prop} (first : Performs step w entries post)
    (second : ∀ a m₁, DoesAll w.model entries m₁ → post a m₁ → Performs (next a) (put w m₁) later post') :
    Performs (step >>= next) w (entries ++ later) post' where
  done does := by
    -- The entries of both steps lead through the model that the first step leads to.
    obtain ⟨m₁, does₁, does₂⟩ := does.exists_between
    obtain ⟨a, ran, holds⟩ := first.done does₁
    rw [EStateM.bind_of_ok ran]
    exact (second a m₁ does₁ holds).done does₂
  refused none := by
    -- If the entries of the first step can be carried out, then those of the second cannot.
    by_cases front : ∃ m₁, DoesAll w.model entries m₁
    · obtain ⟨m₁, does₁⟩ := front
      obtain ⟨a, ran, holds⟩ := first.done does₁
      rw [EStateM.bind_of_ok ran]
      exact (second a m₁ does₁ holds).refused fun ⟨m', does₂⟩ => none ⟨m', does₁.append does₂⟩
    · obtain ⟨e, w', ran, refusal⟩ := first.refused front
      exact ⟨e, w', EStateM.bind_of_error ran _, refusal⟩

theorem imp {post' : α → Model → Prop} (does : Performs step w entries post)
    (weaker : ∀ a m, post a m → post' a m) : Performs step w entries post' where
  done all := (does.done all).imp fun a => .imp_right (weaker a _)
  refused := does.refused

/-- A walk over a list does what its steps do one after the other. -/
theorem forM {xs : List β} {f : β → Restore Unit} {entries : β → List Entry} {inv : Model → Prop}
    (each : ∀ x ∈ xs, ∀ w, inv w.model → Performs (f x) w (entries x) fun _ => inv) (holds : inv w.model) :
    Performs (xs.forM f) w (xs.flatMap entries) fun _ => inv := by
  -- Each step is taken from where the one before it led, and there the invariant holds again.
  induction xs generalizing w with
  | nil => exact .pure holds
  | cons x rest ih =>
    rw [List.forall_mem_cons] at each
    exact (each.1 w holds).bind fun _ m₁ _ holds₁ => ih each.2 holds₁

end Performs

/-- A sound model with its nodes known by their names. -/
structure Ready (known : Known) (m : Model) : Prop where
  sound : m.Sound
  knows : ∀ name, known.lookup name = m.named? name

/-- Where there are no nodes, none are known. -/
theorem Ready.of_blank (blank : m.Blank) : Ready [] m :=
  ⟨blank.sound, fun name => by simp [Model.named?, blank.1]⟩

/-! ### Nodes -/

/-- The frames of a record are read and handed on. -/
theorem frames_bind (stored : n.StoredAs record) (next : Dict Frame → Restore α) :
    (match record.member? "tokens" with
      | some value =>
        if value.isVoid = true then (do
          let frames ← pure .empty
          next frames)
        else do
          let frames ← lift (dictOf readFrame value)
          next frames
      | none => do
        let frames ← pure .empty
        next frames) = next n.content.frames := by
  -- Frames that are missing are as good as none, and an empty object counts as nothing.
  rcases stored.frames with ⟨missing, empty⟩ | ⟨value, found, isStored⟩
  · rw [missing, empty]
    rfl
  · simp only [found]
    split
    · next void =>
      rw [eq_empty_of_stored isStored void]
      rfl
    · rw [dictOf_stored isStored fun _ _ => readFrame_stored]
      rfl

/-- Where the node of a record was read is read and handed on. -/
theorem origin_bind (stored : n.StoredAs record) (next : Option Origin → Restore α) :
    (match optional "meta" record with
      | some value => do
        let read ← lift (readOrigin value)
        let origin ← pure (some read)
        next origin
      | none => do
        let origin ← pure none
        next origin) = next n.content.origin := by
  rcases stored.origin with ⟨missing, none_⟩ | ⟨value, o, found, known, isStored⟩
  · rw [missing, none_]
    rfl
  · have given : optional "meta" record = some value := by
      obtain ⟨_, _, _, _, _, _, _, members, rfl, _⟩ := isStored
      simp only [optional, found]
    simp only [given, readOrigin_stored isStored, known]
    rfl

/-- A record is restored as a new node, unless its kind is unknown or its id is taken. -/
theorem restoreNode_eq (stored : n.StoredAs record) (filled : n.id ≠ "") :
    restoreNode known record w =
      match Kind.ofName? n.kind with
      | none => .error (.unknownKind (Json.str n.kind).shown) w
      | some kind =>
        if (w.model.find? (.text n.id)).isSome then
          .error (.inconsistent (NodeId.text n.id).shown .idExists) w
        else .ok ((.text n.id, w.model.nodes.size) :: known)
          (put w (w.model.grown (.text n.id) kind n.content)) := by
  have solid : (NodeId.text n.id).isVoid = false := by
    simp [NodeId.isVoid, NodeId.toJson, Json.isVoid, filled]
  have taken : takeId (.str n.id) w = .ok (.text n.id) w := by
    rw [takeId, if_neg (by rw [show (Json.str n.id).isVoid = false from solid]; decide)]
    rfl
  have kind : readKind ((record.member? "type").getD .null) =
      (Kind.ofName? n.kind).elim (.error (.unknownKind (Json.str n.kind).shown)) .ok := by
    simp only [stored.kind, Option.getD_some, readKind, Json.text?, Option.bind_some]
    cases Kind.ofName? n.kind <;> rfl
  have fields : readFields ((record.member? "fields").getD .null) = .ok n.content.fields := by
    obtain ⟨value, found, isStored⟩ := stored.fields
    rw [found]
    exact readFields_stored isStored
  -- The parts of the record are read one by one; then it is seen whether the id is taken.
  unfold restoreNode
  rw [required_eq stored.id, lift_ok, pure_bind, kind]
  cases Kind.ofName? n.kind with
  | none => rfl
  | some kind =>
    refine (congrFun (frames_bind stored _) w).trans ?_
    refine (congrFun (origin_bind stored _) w).trans ?_
    rw [EStateM.bind_of_ok taken]
    change (if (w.model.find? (.text n.id)).isSome = true then _ else _ : Restore Known) w = _
    split
    · rfl
    · next free =>
      rw [Option.not_isSome_iff_eq_none] at free
      rw [fields]
      exact EStateM.bind_of_ok (createNode_of_free solid free kind n.content) _

/-- A node that is made is known under its name. -/
theorem Ready.grown (ready : Ready known m) {id : NodeId} (solid : id.isVoid = false)
    (free : m.find? id = none) (kind : Kind) (content : Content) :
    Ready ((id.name, m.nodes.size) :: known) (m.grown id kind content) := by
  have sound := ready.sound.grown solid free kind content
  refine ⟨sound, fun name => Option.ext fun k => ?_⟩
  rw [sound.named?_eq_some_iff, Model.holds_grown, Model.node_grown]
  by_cases same : name = id.name
  · -- The name of the new node was that of none before.
    have other : ¬ (m.Holds k ∧ (m.node k).id.name = id.name) := fun is => by
      rw [ready.sound.find?_eq_some_iff.2 is] at free
      cases free
    rw [same, List.lookup_cons_self]
    by_cases new : k = m.nodes.size
    · simp [new]
    · simpa [new, Ne.symm new] using not_and.1 other
  · have unheld : ¬ m.Holds m.nodes.size := fun held => Nat.lt_irrefl _ held.1
    have passed : ((id.name, m.nodes.size) :: known).lookup name = known.lookup name := by
      rw [Assoc.lookup_cons, beq_false_of_ne same]
    rw [passed, ready.knows, ready.sound.named?_eq_some_iff]
    by_cases new : k = m.nodes.size
    · simp [new, unheld, Ne.symm same]
    · simp [new]

/-- The record of a known kind makes its node. -/
theorem restoreNode_performs (ready : Ready known w.model) (stored : n.StoredAs record)
    (filled : n.id ≠ "") {node : Specimen} (made : n.specimen? = some node) :
    Performs (restoreNode known record) w [.create node] Ready := by
  obtain ⟨kind, named, rfl⟩ := Option.map_eq_some_iff.1 made
  -- Its kind is known, so nothing but its id decides.
  have ran : restoreNode known record w = _ := restoreNode_eq stored filled
  simp only [named] at ran
  have solid : (NodeId.text n.id).isVoid = false := by
    simp [NodeId.isVoid, NodeId.toJson, Json.isVoid, filled]
  constructor
  · intro m' does
    cases does with
    | cons step rest =>
      cases rest
      cases step with
      | create _ _ free =>
        rw [free, Option.isSome_none, if_neg (by decide)] at ran
        exact ⟨_, ran, ready.grown solid free kind n.content⟩
  · intro none
    -- Only a taken id can stand in the way.
    cases taken : w.model.find? (.text n.id) with
    | none => exact absurd ⟨_, .cons (.create _ solid taken) (.nil _)⟩ none
    | some k =>
      rw [taken, Option.isSome_some, if_pos rfl] at ran
      exact ⟨_, _, ran, trivial⟩

/-- Records of known kinds make their nodes. -/
theorem restoreNodes_performs (ready : Ready known w.model)
    (stored : List.Forall₂ StoredNode.StoredAs nodes records) (filled : ∀ n ∈ nodes, n.id ≠ "")
    {come : List Specimen} (made : Makes nodes come) :
    Performs (restoreNodes known records) w (come.map .create) Ready := by
  -- What one record leaves behind is known and sound, so that the next one finds it so.
  induction stored generalizing known w come with
  | nil =>
    cases made
    exact .pure ready
  | cons first rest ih =>
    rw [List.forall_mem_cons] at filled
    cases made with
    | cons head tail =>
      exact (restoreNode_performs ready first filled.1 head).bind fun _ _ _ ready₁ =>
        ih ready₁ filled.2 tail

/-- Records are refused if one of them is of an unknown kind. -/
theorem restoreNodes_refused (stored : List.Forall₂ StoredNode.StoredAs nodes records)
    (filled : ∀ n ∈ nodes, n.id ≠ "") (unknown : ∃ n ∈ nodes, Kind.ofName? n.kind = none) :
    ∃ e w', restoreNodes known records w = .error e w' ∧ e.IsRefusal := by
  induction stored generalizing known w with
  | nil =>
    obtain ⟨_, inside, _⟩ := unknown
    cases inside
  | cons first rest ih =>
    rw [List.forall_mem_cons] at filled
    rw [List.exists_mem_cons_iff] at unknown
    have ran : restoreNode known _ w = _ := restoreNode_eq first filled.1
    -- The first record fails, or it is restored and one of the later ones fails.
    split at ran
    · exact ⟨_, _, EStateM.bind_of_error ran _, trivial⟩
    · next kind named =>
      split at ran
      · exact ⟨_, _, EStateM.bind_of_error ran _, trivial⟩
      · rw [restoreNodes, EStateM.bind_of_ok ran]
        refine ih filled.2 (unknown.resolve_left fun none => ?_)
        rw [none] at named
        cases named

/-! ### Links -/

/-- Links that are made leave the nodes known. -/
theorem Ready.addLinks (ready : Ready known m) {links : List Link}
    (does : DoesAll m (links.map .addLink) m') : Ready known m' := by
  -- A name is looked up among the nodes, and these stay.
  have sound := does.sound ready.sound
  have same := Model.sameNodes_of_doesAll does
  refine ⟨sound, fun name => Option.ext fun k => ?_⟩
  rw [ready.knows, ready.sound.named?_eq_some_iff, sound.named?_eq_some_iff, same.holds, same.id]

/-- A reference makes a link from a node that is known. -/
theorem link_performs {parent child slot : String} {p : Key} (ready : Ready known w.model)
    (from_ : known.lookup (.text parent) = some p) :
    Performs (do host.link p slot (← lift (resolve known (.str child)))) w
      [.addLink (StoredLink.toLink ⟨parent, slot, child⟩)] fun _ => Ready known := by
  have sound := ready.sound
  obtain ⟨heldP, nameP⟩ := sound.named?_eq_some_iff.1 ((ready.knows _).symm.trans from_)
  have resolved : resolve known (.str child) =
      (w.model.named? (.text child)).elim (.error (.absent (Json.str child).shown)) .ok := by
    rw [← ready.knows]
    simp only [resolve, Name.of?, NodeId.ofJson?, Option.map_some, NodeId.name]
    cases known.lookup (.text child) <;> rfl
  rw [resolved]
  constructor
  · -- The nodes that the link means are those that its ids are resolved to.
    intro m' does
    have one : DoesAll w.model ([StoredLink.toLink ⟨parent, slot, child⟩].map .addLink) m' := does
    refine ⟨(), ?_, ready.addLinks one⟩
    cases does with
    | cons step rest =>
      cases rest
      obtain ⟨p', e, c, means, free, root, apart, rfl⟩ := Model.exists_means_of_does step
      obtain rfl : p = p' := sound.named heldP means.parent (nameP.trans means.parentName.symm)
      have found : w.model.named? (.text child) = some c :=
        sound.named?_eq_some_iff.2 ⟨means.child, means.childName⟩
      simp only [found, Option.elim_some, lift_ok, pure_bind]
      exact link_of_ok (Model.link_eq sound means.child means.named free root
        (mt (sound.top_eq_iff heldP root).1 apart))
  · intro none
    cases ends : w.model.named? (.text child) with
    | none => exact ⟨_, _, rfl, trivial⟩
    | some c =>
      obtain ⟨heldC, nameC⟩ := sound.named?_eq_some_iff.1 ends
      -- A link that is not refused could have been made.
      rcases sound.link_cases p heldC slot with ⟨e, named, free, root, apart, -⟩ | ⟨subject, fault, ran⟩
      · have does := Does.addLink (StoredLink.toLink ⟨parent, slot, child⟩) heldP heldC nameP nameC named
          free root (mt (sound.top_eq_iff heldP root).2 apart)
        exact absurd ⟨_, .cons does (.nil _)⟩ none
      · exact ⟨_, _, link_of_refused ran, trivial⟩

/-- The slots of a record come in the order of their names, whatever their order in the record. -/
theorem stableSort_stored {slots : Dict (Option String)} {members : List (String × Json)}
    (stored : slots.StoredAs storedText? (.obj members)) :
    stableSort (fun a b => a.1 ≤ b.1) members =
      slots.entries.map fun entry => (entry.1, .ofText? entry.2) := by
  obtain ⟨entries, _, ⟨⟩, perm, all⟩ := stored
  have told : members = entries.map fun entry => (entry.1, .ofText? entry.2) := by
    rw [← List.forall₂_eq_eq_eq, List.forall₂_map_right_iff]
    exact all.flip.imp fun member entry same => Prod.ext same.1 same.2
  have among : (stableSort (fun a b => a.1 ≤ b.1) members).Perm
      (slots.entries.map fun entry => (entry.1, .ofText? entry.2)) :=
    (stableSort_perm _ members).trans (told ▸ perm.map _)
  have names : ((slots.entries.map fun entry => (entry.1, Json.ofText? entry.2)).map Prod.fst).Nodup := by
    rw [List.map_map]
    exact slots.nodup_keys
  have sorted : (stableSort (fun a b => a.1 ≤ b.1) members).Pairwise fun a b => a.1 ≤ b.1 := by
    refine (pairwise_stableSort members (fun a b c => ?_) fun a b => ?_).imp fun le => by simpa using le
    · simpa using String.le_trans
    · simpa using String.le_total a.1 b.1
  have ascending : (slots.entries.map fun entry => (entry.1, Json.ofText? entry.2)).Pairwise
      fun a b => a.1 ≤ b.1 := by
    rw [List.pairwise_map]
    exact slots.ascending.imp fun lt => String.not_lt.1 (String.lt_asymm lt)
  -- Two orders by names that differ are the same order.
  refine List.Perm.eq_of_pairwise ?_ sorted ascending among
  intro a b first second le ge
  exact List.inj_on_of_nodup_map names (among.mem_iff.1 first) second (String.le_antisymm le ge)

/-- The slots of a record are read and handed on. -/
theorem slots_bind {slots : Dict (Option String)} {value : Json} (found : record.member? "slots" = some value)
    (stored : slots.StoredAs storedText? value) (next : List (String × Json) → Restore α) :
    (match record.member? "slots" with
      | some value =>
        if value.isVoid = true then (do
          let slots ← pure []
          next slots)
        else do
          let slots ← lift (membersOf value)
          next slots
      | none => do
        let slots ← pure []
        next slots) = next value.members := by
  obtain ⟨_, members, rfl, _⟩ := stored
  simp only [found]
  split
  · next void =>
    obtain rfl := List.isEmpty_iff.1 (show members.isEmpty = true from void)
    rfl
  · rfl

/-- A reference followed: a null leads nowhere, and all else to a node that is linked to. -/
def refer (known : Known) (parent : Key) (slot : String) (child : Json) : Restore Unit :=
  match child with
  | .null => return
  | _ => do host.link parent slot (← lift (resolve known child))

/-- What stands in a record for the links of its node is followed slot by slot, and then to the sibling. -/
theorem restoreLinks_stored {p : Key} (stored : n.StoredAs record)
    (from_ : known.lookup (.text n.id) = some p) :
    restoreLinks known record = (do
      n.slots.entries.forM fun entry => refer known p entry.1 (.ofText? entry.2)
      refer known p nextName (.ofText? n.next)) := by
  obtain ⟨value, found, isStored⟩ := stored.slots
  -- The record's own node is known, and its slots are sorted before they are followed.
  have resolved : resolve known (.str n.id) = .ok p := by
    have name : Name.of? (.str n.id) = some (.text n.id) := rfl
    simp only [resolve, name, from_]
  have next : optional "next" record = n.next.map .str := by
    rw [optional, stored.next]
    cases n.next <;> rfl
  unfold restoreLinks
  rw [required_eq stored.id, lift_ok, pure_bind, resolved, lift_ok, pure_bind]
  refine (slots_bind found isStored _).trans ?_
  obtain ⟨_, members, rfl, _⟩ := id isStored
  rw [Json.members, stableSort_stored isStored, next]
  simp only [List.forM_eq_forM, List.forM_map]
  refine congrArg _ (funext fun _ => ?_)
  cases n.next <;> rfl

/-- A reference that may be missing makes a link if it is there. -/
theorem refer_performs {parent slot : String} {p : Key} (ready : Ready known w.model)
    (from_ : known.lookup (.text parent) = some p) (target : Option String) :
    Performs (refer known p slot (.ofText? target)) w
      ((target.toList.map (StoredLink.mk parent slot ·)).map fun l => .addLink l.toLink)
      fun _ => Ready known := by
  cases target with
  | none => exact .pure ready
  | some child => exact link_performs ready from_

/-- A record makes its links slot by slot, and then that to its sibling. -/
theorem restoreLinks_performs {p : Key} (ready : Ready known w.model) (stored : n.StoredAs record)
    (from_ : known.lookup (.text n.id) = some p) :
    Performs (restoreLinks known record) w (n.links.map fun l => .addLink l.toLink)
      fun _ => Ready known := by
  -- The entries come in the order in which the references are followed.
  have links : n.links.map (fun l => Entry.addLink l.toLink) =
      (n.slots.entries.flatMap fun entry => (entry.2.toList.map (StoredLink.mk n.id entry.1 ·)).map
        fun l => .addLink l.toLink) ++
      (n.next.toList.map (StoredLink.mk n.id nextName ·)).map fun l => .addLink l.toLink := by
    rw [StoredNode.links, List.map_append, List.filterMap_eq_flatMap_toList, List.map_flatMap]
    refine congrArg (· ++ _) (List.flatMap_congr fun entry _ => ?_)
    cases entry.2 <;> rfl
  rw [restoreLinks_stored stored from_, links]
  exact (Performs.forM (fun entry _ _ ready => refer_performs ready from_ entry.2) ready).bind
    fun _ _ _ ready => refer_performs ready from_ n.next

/-! ### All records -/

/-- Records make their links one record after the other. -/
theorem forM_restoreLinks_performs (ready : Ready known w.model)
    (stored : List.Forall₂ StoredNode.StoredAs nodes records)
    (from_ : ∀ n ∈ nodes, ∃ p, known.lookup (.text n.id) = some p) :
    Performs (records.forM (restoreLinks known)) w
      ((nodes.flatMap StoredNode.links).map fun l => .addLink l.toLink) fun _ => Ready known := by
  induction stored generalizing w with
  | nil => exact .pure ready
  | cons first rest ih =>
    rw [List.forall_mem_cons] at from_
    obtain ⟨⟨p, here⟩, later⟩ := from_
    rw [List.flatMap_cons, List.map_append]
    exact (restoreLinks_performs ready first here).bind fun _ _ _ ready₁ => ih ready₁ later

/-- A node that has been made is found under its name. -/
theorem exists_named_of_doesAll (sound : m.Sound) {come : List Specimen}
    (does : DoesAll m (come.map .create) m') {node : Specimen} (inside : node ∈ come) :
    ∃ k, m'.named? node.id.name = some k := by
  -- All of them can be made in one way only, each at its place behind the nodes that were there.
  obtain ⟨solid, apart, fresh⟩ := fresh_of_doesAll sound does
  obtain ⟨m₁, does₁, sound₁, holds, -, news, -⟩ := exists_grown sound come solid apart fresh
  obtain rfl := does₁.unique sound does
  obtain ⟨i, place⟩ := List.getElem?_of_mem inside
  refine ⟨m.nodes.size + i, sound₁.named?_eq_some_iff.2 ⟨(holds _).2 (.inr ⟨i, ?_, rfl⟩), ?_⟩⟩
  · exact (List.getElem?_eq_some_iff.1 place).1
  · rw [news i node place]

/-- Records of known kinds make all nodes and then all links. -/
theorem restoreAll_performs (ready : Ready [] w.model)
    (stored : List.Forall₂ StoredNode.StoredAs nodes records) (filled : ∀ n ∈ nodes, n.id ≠ "")
    {come : List Specimen} (made : Makes nodes come) :
    Performs (restoreAll records) w (come.map .create ++
      ((nodes.flatMap StoredNode.links).map StoredLink.toLink).map .addLink) fun _ => Model.Sound := by
  -- All nodes are there before the first link is looked at, so every record finds its own node.
  rw [List.map_map]
  refine (restoreNodes_performs ready stored filled made).bind fun known m₁ does₁ ready₁ => ?_
  refine (forM_restoreLinks_performs ready₁ stored fun n inside => ?_).imp fun _ _ ready => ready.sound
  obtain ⟨node, listed, same⟩ := made.exists_of_mem inside
  obtain ⟨k, found⟩ := exists_named_of_doesAll ready.sound does₁ listed
  obtain ⟨kind, -, rfl⟩ := Option.map_eq_some_iff.1 same
  exact ⟨k, (ready₁.knows _).trans found⟩

end Payload

namespace Restored

/-- Nodes and links apart, only the top level and the texts of the fields are looked at. -/
theorem ofJson_eq {members : List (String × Json)} {roots : List Json} (begin : Model) (supply : Nat)
    (listed : members.lookup "nodes" = some (.arr records))
    (tops : members.lookup "roots" = some (.arr roots))
    (begins : begin =
      { leading := Payload.textOf "leading" (.obj members)
        trailing := Payload.textOf "trailing" (.obj members)
        sourceHash := ((Json.obj members).member? "source_hash").bind Json.text?
        strays := .of isModelPart members })
    (texts : records.all Payload.hasTextFields = true) :
    ofJson (.obj members) supply =
      match Payload.restoreAll records { model := begin, supply := supply } with
      | .error e _ => .error e
      | .ok _ w =>
        if (⟨w.model, w.supply⟩ : Restored).rootNames ≠ roots.map Name.of? then .error .rootsDiffer
        else .ok ⟨w.model, w.supply⟩ := by
  simp only [ofJson, pure_bind, listed, tops, Json.parts?, ← begins, texts, if_true]
  cases Payload.restoreAll records { model := begin, supply := supply } with
  | error e w => rfl
  | ok _ w => rfl

end Restored

end DocSync
