import DocSync.Change.Replay
import DocSync.Proofs.Change.Joints
import DocSync.Proofs.Dict
import DocSync.Proofs.Model.Reachable
import DocSync.Proofs.Outcome

/-!
What each entry of a change set does to a sound model when nothing stands in its way: which nodes
and links there are afterwards, and that the replay carries it out.
-/

namespace DocSync

variable {m m' : Model} {j : Joint} {k p c : Key} {edge : Edge}

/-- An entry leads from one model to another; nothing stands in its way. -/
inductive Does (m : Model) : Entry → Model → Prop
  | create (node : Specimen) : node.id.isVoid = false → m.find? node.id = none →
    Does m (.create node) (m.grown node.id node.kind node.content)
  | delete {k : Key} (id : NodeId) (kind : Option Kind) (content : Content) :
    m.Holds k → (m.node k).id.name = id.name → (m.node k).parent = none →
      (m.node k).next = none → (m.node k).head = none →
    Does m (.delete id kind content) (m.pruned k)
  | addLink {p c : Key} {edge : Edge} (link : Link) : m.Holds p → m.Holds c →
      (m.node p).id.name = link.parent.name → (m.node c).id.name = link.child.name →
      (m.node p).edge? link.slot = some edge → (m.node p).target? edge = none →
      (m.node c).parent = none → ¬ m.Over c p →
    Does m (.addLink link) (m.rehang p edge c true)
  | removeLink {p c : Key} {edge : Edge} (link : Link) : m.Holds p →
      (m.node p).id.name = link.parent.name → (m.node c).id.name = link.child.name →
      (m.node p).edge? link.slot = some edge → (m.node p).target? edge = some c →
    Does m (.removeLink link) (m.rehang p edge c false)
  | changeField {k : Key} (change : FieldChange) : m.Holds k →
      (m.node k).id.name = change.node.name → (m.node k).fields.get? change.name = change.old →
    Does m (.changeField change) (m.withField k change.name change.new)

/-- Entries lead from one model to another, one after the other. -/
inductive DoesAll : Model → List Entry → Model → Prop
  | nil (m : Model) : DoesAll m [] m
  | cons {m m' m'' : Model} {entry : Entry} {rest : List Entry} :
    Does m entry m' → DoesAll m' rest m'' → DoesAll m (entry :: rest) m''

theorem DoesAll.append {m'' : Model} {first second : List Entry} (one : DoesAll m first m')
    (two : DoesAll m' second m'') : DoesAll m (first ++ second) m'' := by
  induction one with
  | nil => exact two
  | cons step _ ih => exact .cons step (ih two)

/-- Between two runs of entries there is a model that the first leads to and the second starts from. -/
theorem DoesAll.exists_between {m'' : Model} {first second : List Entry}
    (does : DoesAll m (first ++ second) m'') : ∃ m', DoesAll m first m' ∧ DoesAll m' second m'' := by
  induction first generalizing m with
  | nil => exact ⟨m, .nil m, does⟩
  | cons entry rest ih =>
    cases does with
    | cons step all =>
      obtain ⟨m', one, two⟩ := ih all
      exact ⟨m', .cons step one, two⟩

namespace Model

/-! ### The links after an edit -/

theorem joins_grown (id : NodeId) (kind : Kind) (content : Content) :
    (m.grown id kind content).Joins j ↔ m.Joins j := by
  rw [Joins, Joins, holds_grown, node_grown]
  by_cases new : j.parent = m.nodes.size
  · have outside : ¬ m.Holds j.parent := fun held => Nat.ne_of_lt held.1 new
    rw [if_pos new]
    cases j.edge <;> simp [outside, Node.target?]
  · simp [new]

theorem joins_pruned (leaf : ∀ e, (m.node k).target? e = none) :
    (m.pruned k).Joins j ↔ m.Joins j := by
  rw [Joins, Joins, holds_pruned]
  by_cases same : j.parent = k
  · rw [same]
    simp [leaf]
  · simp [same, node_pruned_of_ne (m := m) same]

section Rehang

variable (heldParent : m.Holds p) (heldChild : m.Holds c) (differ : p ≠ c)
include heldParent heldChild differ

theorem joins_rehang_true (free : (m.node p).target? edge = none) :
    (m.rehang p edge c true).Joins j ↔ m.Joins j ∨ j = ⟨p, edge, c⟩ := by
  obtain ⟨p', e, c'⟩ := j
  rw [Joins, Joins, holds_rehang _ heldParent heldChild differ,
    target?_rehang _ heldParent heldChild differ]
  simp only [Joint.mk.injEq, if_true]
  by_cases same : p' = p ∧ e = edge
  · obtain ⟨rfl, rfl⟩ := same
    simp [heldParent, free, eq_comm]
  · rw [if_neg same]
    exact ⟨.inl, fun either => either.elim id fun new => absurd ⟨new.1, new.2.1⟩ same⟩

theorem joins_rehang_false (leads : (m.node p).target? edge = some c) :
    (m.rehang p edge c false).Joins j ↔ m.Joins j ∧ j ≠ ⟨p, edge, c⟩ := by
  obtain ⟨p', e, c'⟩ := j
  rw [Joins, Joins, holds_rehang _ heldParent heldChild differ,
    target?_rehang _ heldParent heldChild differ]
  simp only [ne_eq, Joint.mk.injEq, Bool.false_eq_true, if_false]
  by_cases same : p' = p ∧ e = edge
  · obtain ⟨rfl, rfl⟩ := same
    simp [leads, eq_comm]
  · rw [if_neg same]
    exact ⟨fun old => ⟨old, fun new => same ⟨new.1, new.2.1⟩⟩, fun both => both.1⟩

end Rehang

theorem node_withField (m : Model) (k j : Key) (name : String) (value : Option String) :
    (m.withField k name value).node j =
      if j = k ∧ k < m.nodes.size then
        { m.node k with fields := (m.node k).fields.assign name value }
      else m.node j := by
  rw [withField, node_update]
  cases value <;> rfl

theorem joins_withField (m : Model) (k : Key) (name : String) (value : Option String) :
    (m.withField k name value).Joins j ↔ m.Joins j := by
  have same := m.sameForest_withField k name value
  rw [Joins, Joins, same.holds_iff, same.target]

end Model

/-! ### Entries carried out -/

theorem Does.sound {entry : Entry} (does : Does m entry m') (sound : m.Sound) : m'.Sound := by
  cases does with
  | create node solid free => exact sound.grown solid free node.kind node.content
  | delete id kind content held name root last leaf => exact sound.pruned root last leaf
  | addLink link heldP heldC nameP nameC named free root apart =>
    have top := mt (sound.top_eq_iff heldP root).1 apart
    exact sound.link heldP heldC named free root top
  | removeLink link heldP nameP nameC named leads => exact sound.unlink heldP leads
  | changeField change held name old => exact (m.sameForest_withField _ _ _).sound sound

/-- An entry leads to one model only: it names the nodes that it is about. -/
theorem Does.unique {entry : Entry} {m₁ m₂ : Model} (sound : m.Sound) (first : Does m entry m₁)
    (second : Does m entry m₂) : m₁ = m₂ := by
  -- An entry names the nodes it is about, and a name is that of one node only.
  cases first with
  | create node => cases second; rfl
  | delete id kind content held name =>
    cases second with
    | delete _ _ _ held' name' => rw [sound.named held held' (name.trans name'.symm)]
  | addLink link heldP heldC nameP nameC named =>
    cases second with
    | addLink _ heldP' heldC' nameP' nameC' named' =>
      obtain rfl := sound.named heldP heldP' (nameP.trans nameP'.symm)
      obtain rfl := sound.named heldC heldC' (nameC.trans nameC'.symm)
      cases named.symm.trans named'
      rfl
  | removeLink link heldP nameP nameC named leads =>
    cases second with
    | removeLink _ heldP' nameP' nameC' named' leads' =>
      obtain rfl := sound.named heldP heldP' (nameP.trans nameP'.symm)
      cases named.symm.trans named'
      cases leads.symm.trans leads'
      rfl
  | changeField change held name =>
    cases second with
    | changeField _ held' name' => rw [sound.named held held' (name.trans name'.symm)]

theorem DoesAll.sound {entries : List Entry} (does : DoesAll m entries m') (sound : m.Sound) : m'.Sound := by
  induction does with
  | nil => exact sound
  | cons step _ ih => exact ih (step.sound sound)

theorem DoesAll.unique {entries : List Entry} {m₁ m₂ : Model} (sound : m.Sound)
    (first : DoesAll m entries m₁) (second : DoesAll m entries m₂) : m₁ = m₂ := by
  induction first with
  | nil => cases second; rfl
  | cons step _ ih =>
    cases second with
    | cons step' later' =>
      obtain rfl := step.unique sound step'
      exact ih (step.sound sound) later'

/-- A node has the id that a node had before, or one that it was created under. -/
theorem Does.id_of_holds {entry : Entry} (does : Does m entry m') (sound : m.Sound)
    (held : m'.Holds k) : (∃ j, m.Holds j ∧ (m.node j).id = (m'.node k).id) ∨
      ∃ node, entry = .create node ∧ node.id = (m'.node k).id := by
  -- Only a creation brings an id; the other entries leave the ids of all nodes that stay.
  cases does with
  | create node solid free =>
    rw [Model.node_grown]
    rcases (Model.holds_grown _ _ _ _ _).1 held with before | new
    · exact .inl ⟨k, before, by rw [if_neg (Nat.ne_of_lt before.1)]⟩
    · exact .inr ⟨node, rfl, by rw [if_pos new]⟩
  | delete id kind content =>
    obtain ⟨before, differ⟩ := (Model.holds_pruned _ _ _).1 held
    exact .inl ⟨k, before, by rw [m.node_pruned_of_ne differ]⟩
  | @addLink p c edge link heldP heldC _ _ _ _ _ apart =>
    have differ : p ≠ c := fun same => apart (same ▸ .refl)
    exact .inl ⟨k, (Model.holds_rehang edge heldP heldC differ true k).1 held,
      (Model.bare_rehang edge heldP heldC differ true k).1.symm⟩
  | @removeLink p c edge link heldP _ _ _ leads =>
    obtain ⟨heldC, above⟩ := sound.back heldP leads
    have differ : p ≠ c := fun same => sound.not_over_parent heldC above (same ▸ .refl)
    exact .inl ⟨k, (Model.holds_rehang edge heldP heldC differ false k).1 held,
      (Model.bare_rehang edge heldP heldC differ false k).1.symm⟩
  | @changeField j change =>
    have same := m.sameForest_withField j change.name change.new
    exact .inl ⟨k, same.holds_iff.1 held, (same.id k).symm⟩

theorem DoesAll.id_of_holds {entries : List Entry} (does : DoesAll m entries m') (sound : m.Sound)
    (held : m'.Holds k) : (∃ j, m.Holds j ∧ (m.node j).id = (m'.node k).id) ∨
      ∃ node, Entry.create node ∈ entries ∧ node.id = (m'.node k).id := by
  induction does with
  | nil => exact .inl ⟨k, held, rfl⟩
  | cons step _ ih =>
    rcases ih (step.sound sound) held with ⟨j, heldJ, id⟩ | ⟨node, inside, id⟩
    · rw [← id]
      exact (step.id_of_holds sound heldJ).imp_right fun ⟨node, same, id⟩ =>
        ⟨node, same ▸ List.mem_cons_self, id⟩
    · exact .inr ⟨node, List.mem_cons_of_mem _ inside, id⟩

namespace Host

variable {σ : Type} {h : Host Error σ}

/-- The node of an id is found just when the model holds one; nothing else comes of it. -/
theorem lookup_eq_ok_iff {s s' : σ} {id : NodeId} :
    h.lookup id s = .ok k s' ↔ s' = s ∧ (h.model s).find? id = some k := by
  simp only [lookup, current, EStateM.bind_eq_ok_iff, EStateM.Result.ok.injEq]
  constructor
  · rintro ⟨_, _, ⟨rfl, rfl⟩, found⟩
    cases known : (h.model s).find? id with
    | none =>
      rw [known] at found
      cases found
    | some j =>
      rw [known] at found
      cases found
      exact ⟨rfl, rfl⟩
  · rintro ⟨rfl, known⟩
    refine ⟨_, _, ⟨rfl, rfl⟩, ?_⟩
    rw [known]
    rfl

theorem Gives.lookup {s : σ} {id : NodeId} (sound : (h.model s).Sound)
    (held : (h.model s).Holds k) (name : ((h.model s).node k).id.name = id.name) :
    h.Gives s (h.lookup id) k (h.model s) := by
  have found := sound.find?_eq_some_iff.2 ⟨held, name⟩
  refine (Gives.current h s).bind fun s' here => ?_
  rw [found]
  exact here ▸ Gives.pure h s' k

/-- An entry that nothing stands in the way of is carried out. -/
theorem Gives.applyEntry (quiet : h.Quiet) {entry : Entry} {s : σ} (sound : (h.model s).Sound)
    (does : Does (h.model s) entry m') : ∃ back, h.Gives s (h.applyEntry entry) back m' := by
  -- Each entry is looked up, carried out on the model as it stands, and answered with its inverse.
  cases does with
  | create node solid free =>
    exact ⟨_, (Gives.createNode quiet solid free).discard.bind fun s' here => here ▸ Gives.pure h s' _⟩
  | @delete k id kind content held name root last leaf =>
    let node := (h.model s).node k
    refine ⟨.create ⟨node.id, node.kind, node.toContent⟩,
      (Gives.lookup sound held name).bind fun s' here => ?_⟩
    refine (Gives.current h s').bind fun s'' there => ?_
    rw [here] at there ⊢
    have ran := Model.deleteNode_eq held root last leaf
    rw [← there] at ran
    refine (Gives.deleteNode quiet ran).bind fun s₃ end_ => ?_
    rw [there] at end_
    exact end_ ▸ Gives.pure h s₃ _
  | @addLink p c edge link heldP heldC nameP nameC named free root apart =>
    refine ⟨(Entry.addLink link).inverse?.getD (.addLink link),
      (Gives.lookup sound heldP nameP).bind fun s' here => ?_⟩
    refine (Gives.lookup (here ▸ sound) (here ▸ heldC) (here ▸ nameC)).bind fun s'' there => ?_
    have ran := Model.link_eq sound heldC named free root (mt (sound.top_eq_iff heldP root).1 apart)
    rw [here] at there
    rw [← there] at ran
    refine (Gives.link quiet ran).bind fun s₃ end_ => ?_
    rw [there] at end_
    exact end_ ▸ Gives.pure h s₃ _
  | @removeLink p c edge link heldP nameP nameC named leads =>
    refine ⟨(Entry.removeLink link).inverse?.getD (.removeLink link),
      (Gives.lookup sound heldP nameP).bind fun s' here => ?_⟩
    have ran := Model.unlink_eq named leads
    rw [← here] at ran
    refine (Gives.unlink quiet ran).discard.bind fun s₃ end_ => ?_
    rw [here] at end_
    exact end_ ▸ Gives.pure h s₃ _
  | @changeField k change held name old =>
    refine ⟨(Entry.changeField change).inverse?.getD (.changeField change),
      (Gives.lookup sound held name).bind fun s' here => ?_⟩
    refine (Gives.setField quiet s' _ _ _).bind fun s₃ end_ => ?_
    rw [← here, ← end_]
    exact Gives.pure h s₃ _

/-- Entries that nothing stands in the way of are carried out one after the other. -/
theorem Gives.mapM_applyEntry (quiet : h.Quiet) {entries : List Entry} {s : σ}
    (sound : (h.model s).Sound) (does : DoesAll (h.model s) entries m') :
    ∃ backs, h.Gives s (entries.mapM h.applyEntry) backs m' := by
  induction entries generalizing s with
  | nil =>
    cases does
    exact ⟨[], Gives.pure h s []⟩
  | cons entry rest ih =>
    cases does with
    | cons step later =>
      obtain ⟨back, s', ran, here⟩ := Gives.applyEntry quiet sound step
      subst here
      obtain ⟨backs, gives⟩ := ih (step.sound sound) later
      rw [List.mapM_cons]
      exact ⟨back :: backs, Gives.trans ran (gives.bind fun s'' last => last ▸ Gives.pure h s'' _)⟩

end Host

end DocSync
