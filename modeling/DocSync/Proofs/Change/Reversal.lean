import DocSync.Proofs.Change.Acceptance
import DocSync.Proofs.Change.Copied

/-!
Entries taken back. What an entry does to a model it does to a copy as well, and the entry that takes it
back leads to a copy of the model before. So entries are taken back from the last to the first, and
that in turn can be taken back.
-/

namespace DocSync

open Model

variable {m m' m₁ m₁' : Model} {carry : NodeId → NodeId} {image : Key → Key}
  {entry : Entry} {entries backs : List Entry} {c k p : Key} {edge : Edge}

/-! ### One edit of a model and of the model carried over -/

namespace CarriedOver

variable (carried : CarriedOver m₁ m carry image)
include carried

/-- What is carried over may be carried on. -/
theorem trans {m₂ : Model} {carry' : NodeId → NodeId} {image' : Key → Key}
    (other : CarriedOver m₂ m₁ carry' image') : CarriedOver m₂ m (carry' ∘ carry) (image' ∘ image) where
  holds held := other.holds (carried.holds held)
  onto held := by
    obtain ⟨b, heldB, rfl⟩ := other.onto held
    obtain ⟨a, heldA, rfl⟩ := carried.onto heldB
    exact ⟨a, heldA, rfl⟩
  injective heldA heldB same :=
    carried.injective heldA heldB (other.injective (carried.holds heldA) (carried.holds heldB) same)
  id held := (other.id (carried.holds held)).trans (congrArg carry' (carried.id held))
  kind held := (other.kind (carried.holds held)).trans (carried.kind held)
  fields held := (other.fields (carried.holds held)).trans (carried.fields held)
  target held e := by
    rw [Function.comp, other.target (carried.holds held), carried.target held, Option.map_map]

/-- Images of different nodes are different. -/
theorem image_ne (heldA : m.Holds p) (heldB : m.Holds c) (differ : p ≠ c) : image p ≠ image c :=
  fun equal => differ (carried.injective heldA heldB equal)

/-- A node that comes to both models. -/
theorem grown (sound : m.Sound) {id : NodeId} (same : carry id = id) (kind : Kind)
    (content : Content) : CarriedOver (m₁.grown id kind content) (m.grown id kind content) carry
      (fun b => if b = m.nodes.size then m₁.nodes.size else image b) := by
  have holds := m.holds_grown id kind content
  have holds₁ := m₁.holds_grown id kind content
  have outside : ∀ {b}, m.Holds b → b ≠ m.nodes.size := fun held => Nat.ne_of_lt held.1
  have outside₁ : ∀ {b}, m.Holds b → image b ≠ m₁.nodes.size := fun held =>
    Nat.ne_of_lt (carried.holds held).1
  -- What was there before is where it was, on both sides.
  have old : ∀ {b}, m.Holds b → (m.grown id kind content).node b = m.node b := fun {b} held => by
    rw [m.node_grown, if_neg (outside held)]
  have old₁ : ∀ {b}, m.Holds b → (m₁.grown id kind content).node (image b) = m₁.node (image b) :=
    fun {b} held => by rw [m₁.node_grown, if_neg (outside₁ held)]
  have bare : ∀ {b}, (m.grown id kind content).Holds b →
      ((m₁.grown id kind content).node (if b = m.nodes.size then m₁.nodes.size else image b)).id =
          carry ((m.grown id kind content).node b).id ∧
        ((m₁.grown id kind content).node (if b = m.nodes.size then m₁.nodes.size else image b)).kind =
          ((m.grown id kind content).node b).kind ∧
        ((m₁.grown id kind content).node (if b = m.nodes.size then m₁.nodes.size else image b)).fields =
          ((m.grown id kind content).node b).fields := by
    intro b held
    rcases (holds b).1 held with held | rfl
    · rw [if_neg (outside held), old held, old₁ held]
      exact ⟨carried.id held, carried.kind held, carried.fields held⟩
    · rw [if_pos rfl, m.node_grown, m₁.node_grown, if_pos rfl, if_pos rfl]
      exact ⟨same.symm, rfl, rfl⟩
  refine ⟨fun {b} held => ?_, fun {k} held => ?_, fun {a b} heldA heldB equal => ?_,
    fun held => (bare held).1, fun held => (bare held).2.1, fun held => (bare held).2.2,
    fun {b} held e => ?_⟩
  · rcases (holds b).1 held with held | rfl
    · rw [if_neg (outside held)]
      exact (holds₁ _).2 (.inl (carried.holds held))
    · rw [if_pos rfl]
      exact (holds₁ _).2 (.inr rfl)
  · rcases (holds₁ k).1 held with held | rfl
    · obtain ⟨b, heldB, rfl⟩ := carried.onto held
      exact ⟨b, (holds b).2 (.inl heldB), if_neg (outside heldB)⟩
    · exact ⟨m.nodes.size, (holds _).2 (.inr rfl), if_pos rfl⟩
  · rcases (holds a).1 heldA with heldA | rfl <;> rcases (holds b).1 heldB with heldB | rfl
    · rw [if_neg (outside heldA), if_neg (outside heldB)] at equal
      exact carried.injective heldA heldB equal
    · rw [if_neg (outside heldA), if_pos rfl] at equal
      exact absurd equal (outside₁ heldA)
    · rw [if_pos rfl, if_neg (outside heldB)] at equal
      exact absurd equal.symm (outside₁ heldB)
    · rfl
  · rcases (holds b).1 held with held | rfl
    · rw [if_neg (outside held), old held, old₁ held, carried.target held]
      cases target : (m.node b).target? e with
      | none => rfl
      | some c =>
        have heldC := (sound.back held target).1
        exact congrArg some (if_neg (outside heldC)).symm
    · rw [if_pos rfl, m.node_grown, m₁.node_grown, if_pos rfl, if_pos rfl]
      cases e <;> rfl

/-- A node that goes from both models. -/
theorem pruned (held : m.Holds k) :
    CarriedOver (m₁.pruned (image k)) (m.pruned k) carry image := by
  have holds := m.holds_pruned k
  have holds₁ := m₁.holds_pruned (image k)
  -- Every node but the one that goes is where it was, on both sides.
  have old : ∀ {b}, (m.pruned k).Holds b → m.Holds b ∧ (m.pruned k).node b = m.node b ∧
      (m₁.pruned (image k)).node (image b) = m₁.node (image b) := by
    intro b heldB
    obtain ⟨heldB, differ⟩ := (holds b).1 heldB
    exact ⟨heldB, m.node_pruned_of_ne differ, m₁.node_pruned_of_ne (carried.image_ne heldB held differ)⟩
  refine ⟨fun {b} heldB => ?_, fun {j} heldJ => ?_, fun heldA heldB equal =>
    carried.injective (old heldA).1 (old heldB).1 equal, fun {b} heldB => ?_, fun {b} heldB => ?_,
    fun {b} heldB => ?_, fun {b} heldB e => ?_⟩
  · obtain ⟨heldB, differ⟩ := (holds b).1 heldB
    exact (holds₁ _).2 ⟨carried.holds heldB, carried.image_ne heldB held differ⟩
  · obtain ⟨heldJ, differ⟩ := (holds₁ j).1 heldJ
    obtain ⟨b, heldB, rfl⟩ := carried.onto heldJ
    exact ⟨b, (holds b).2 ⟨heldB, fun same => differ (congrArg image same)⟩, rfl⟩
  all_goals
    obtain ⟨heldB, same, same₁⟩ := old heldB
    rw [same, same₁]
  · exact carried.id heldB
  · exact carried.kind heldB
  · exact carried.fields heldB
  · exact carried.target heldB e

/-- A link made or cut in both models. -/
theorem rehang (heldParent : m.Holds p) (heldChild : m.Holds c) (differ : p ≠ c) (made : Bool) :
    CarriedOver (m₁.rehang (image p) edge (image c) made) (m.rehang p edge c made) carry image := by
  have apart : image p ≠ image c := carried.image_ne heldParent heldChild differ
  have heldP := carried.holds heldParent
  have heldC := carried.holds heldChild
  have holds := holds_rehang edge heldParent heldChild differ made
  have holds₁ := holds_rehang edge heldP heldC apart made
  have bare := bare_rehang edge heldParent heldChild differ made
  have bare₁ := bare_rehang edge heldP heldC apart made
  refine ⟨fun {b} held => (holds₁ _).2 (carried.holds ((holds b).1 held)), fun {j} held => ?_,
    fun {a b} heldA heldB equal => carried.injective ((holds a).1 heldA) ((holds b).1 heldB) equal,
    fun {b} held => ?_, fun {b} held => ?_, fun {b} held => ?_, fun {b} held e => ?_⟩
  · obtain ⟨b, heldB, rfl⟩ := carried.onto ((holds₁ j).1 held)
    exact ⟨b, (holds b).2 heldB, rfl⟩
  · rw [(bare₁ _).1, (bare b).1, carried.id ((holds b).1 held)]
  · rw [(bare₁ _).2.1, (bare b).2.1, carried.kind ((holds b).1 held)]
  · have fields := congrArg Content.fields (bare b).2.2
    have fields₁ := congrArg Content.fields (bare₁ (image b)).2.2
    exact fields₁.trans ((carried.fields ((holds b).1 held)).trans fields.symm)
  · have heldB := (holds b).1 held
    -- Images differ as their nodes do, so the same slot is retargeted on either side.
    have here : image b = image p ↔ b = p :=
      ⟨fun equal => carried.injective heldB heldParent equal, congrArg image⟩
    rw [target?_rehang _ heldP heldC apart, target?_rehang _ heldParent heldChild differ,
      carried.target heldB]
    simp only [here]
    split
    · cases made <;> rfl
    · rfl

/-- A field set in both models. -/
theorem withField (held : m.Holds k) (name : String) (value : Option String) :
    CarriedOver (m₁.withField (image k) name value) (m.withField k name value) carry image := by
  have same := m.sameForest_withField k name value
  have same₁ := m₁.sameForest_withField (image k) name value
  refine ⟨fun {b} held => same₁.holds_iff.2 (carried.holds (same.holds_iff.1 held)), fun {j} held => ?_,
    fun {a b} heldA heldB equal =>
      carried.injective (same.holds_iff.1 heldA) (same.holds_iff.1 heldB) equal,
    fun {b} held => ?_, fun {b} held => ?_, fun {b} held' => ?_, fun {b} held e => ?_⟩
  · obtain ⟨b, heldB, rfl⟩ := carried.onto (same₁.holds_iff.1 held)
    exact ⟨b, same.holds_iff.2 heldB, rfl⟩
  · rw [same.id, same₁.id, carried.id (same.holds_iff.1 held)]
  · rw [same.kind, same₁.kind, carried.kind (same.holds_iff.1 held)]
  · have heldB := same.holds_iff.1 held'
    rw [node_withField, node_withField]
    by_cases here : b = k
    · subst here
      rw [if_pos ⟨rfl, (carried.holds held).1⟩, if_pos ⟨rfl, held.1⟩]
      exact congrArg (fun d => Dict.assign d name value) (carried.fields heldB)
    · rw [if_neg fun both => carried.image_ne heldB held here both.1, if_neg fun both => here both.1,
        carried.fields heldB]
  · rw [same.target, same₁.target, carried.target (same.holds_iff.1 held)]

end CarriedOver

/-! ### One edit of a model and of its copy -/

namespace Copied

/-- A copy told by the images of nodes, by what these are and hold, and by their links. -/
theorem of (holds : ∀ {b}, m.Holds b → m₁.Holds (image b))
    (onto : ∀ {k}, m₁.Holds k → ∃ b, m.Holds b ∧ image b = k)
    (injective : ∀ {a b}, m.Holds a → m.Holds b → image a = image b → a = b)
    (bare : ∀ {b}, m.Holds b → (m₁.node (image b)).id = carry (m.node b).id ∧
      (m₁.node (image b)).kind = (m.node b).kind ∧
      (m₁.node (image b)).toContent = (m.node b).toContent)
    (target : ∀ {b}, m.Holds b → ∀ e,
      (m₁.node (image b)).target? e = ((m.node b).target? e).map image) :
    Copied m₁ m carry image where
  holds := holds
  onto := onto
  injective := injective
  id held := (bare held).1
  kind held := (bare held).2.1
  fields held := congrArg Content.fields (bare held).2.2
  target := target
  content held := (bare held).2.2

variable (copied : Copied m₁ m carry image)
include copied

/-- A copy of a copy. -/
theorem trans {m₂ : Model} {carry' : NodeId → NodeId} {image' : Key → Key}
    (other : Copied m₂ m₁ carry' image') : Copied m₂ m (carry' ∘ carry) (image' ∘ image) where
  toCarriedOver := copied.toCarriedOver.trans other.toCarriedOver
  content held := (other.content (copied.holds held)).trans (copied.content held)

/-- A node that comes to a model and to its copy. -/
theorem grown (sound : m.Sound) {id : NodeId} (same : carry id = id) (kind : Kind)
    (content : Content) : Copied (m₁.grown id kind content) (m.grown id kind content) carry
      (fun b => if b = m.nodes.size then m₁.nodes.size else image b) where
  toCarriedOver := copied.toCarriedOver.grown sound same kind content
  content {b} held := by
    rcases (m.holds_grown id kind content b).1 held with held | rfl
    · rw [if_neg (Nat.ne_of_lt held.1), m.node_grown, if_neg (Nat.ne_of_lt held.1), m₁.node_grown,
        if_neg (Nat.ne_of_lt (copied.holds held).1)]
      exact copied.content held
    · rw [if_pos rfl, m.node_grown, m₁.node_grown, if_pos rfl, if_pos rfl]

/-- A node that goes from a model and from its copy. -/
theorem pruned (held : m.Holds k) : Copied (m₁.pruned (image k)) (m.pruned k) carry image where
  toCarriedOver := copied.toCarriedOver.pruned held
  content {b} heldB := by
    obtain ⟨heldB, differ⟩ := (m.holds_pruned k b).1 heldB
    rw [m.node_pruned_of_ne differ, m₁.node_pruned_of_ne (copied.image_ne heldB held differ)]
    exact copied.content heldB

/-- A link made or cut in a model and in its copy. -/
theorem rehang (heldParent : m.Holds p) (heldChild : m.Holds c) (differ : p ≠ c) (made : Bool) :
    Copied (m₁.rehang (image p) edge (image c) made) (m.rehang p edge c made) carry image where
  toCarriedOver := copied.toCarriedOver.rehang heldParent heldChild differ made
  content {b} held := by
    have apart := copied.image_ne heldParent heldChild differ
    rw [(bare_rehang edge (copied.holds heldParent) (copied.holds heldChild) apart made _).2.2,
      (bare_rehang edge heldParent heldChild differ made b).2.2]
    exact copied.content ((holds_rehang edge heldParent heldChild differ made b).1 held)

/-- A field set in a model and in its copy. -/
theorem withField (held : m.Holds k) (name : String) (value : Option String) :
    Copied (m₁.withField (image k) name value) (m.withField k name value) carry image where
  toCarriedOver := copied.toCarriedOver.withField held name value
  content {b} held' := by
    have heldB := (m.sameForest_withField k name value).holds_iff.1 held'
    have content := copied.content heldB
    rw [node_withField, node_withField]
    by_cases here : b = k
    · subst here
      rw [if_pos ⟨rfl, (copied.holds held).1⟩, if_pos ⟨rfl, held.1⟩]
      simp only [content]
    · rw [if_neg fun both => copied.image_ne heldB held here both.1, if_neg fun both => here both.1,
        content]

end Copied

/-- What an entry does to a model it does to the model carried over, and to a copy as to the model. -/
theorem Does.carried (does : Does m entry m') (carried : CarriedOver m₁ m id image) (sound : m.Sound)
    (sound₁ : m₁.Sound) : ∃ m₁' image', Does m₁ entry m₁' ∧ CarriedOver m₁' m' id image' ∧
      (Copied m₁ m id image → Copied m₁' m' id image') := by
  have name : ∀ {b}, m.Holds b → (m₁.node (image b)).id.name = (m.node b).id.name := fun held =>
    congrArg NodeId.name (carried.id held)
  have parent := fun {b} (held : m.Holds b) => carried.parent sound₁ sound held
  cases does with
  | create node solid free =>
    have free₁ : m₁.find? node.id = none := by
      -- A node of the name would be the image of one.
      cases found : m₁.find? node.id with
      | none => rfl
      | some q =>
        obtain ⟨heldQ, nameQ⟩ := sound₁.find?_eq_some_iff.1 found
        obtain ⟨b, heldB, rfl⟩ := carried.onto heldQ
        rw [sound.find?_eq_some_iff.2 ⟨heldB, (name heldB).symm.trans nameQ⟩] at free
        cases free
    exact ⟨_, _, .create node solid free₁, carried.grown sound rfl node.kind node.content,
      fun copied => copied.grown sound rfl node.kind node.content⟩
  | @delete k id kind content held nameK root last leaf =>
    have next := carried.target held .next
    have head := carried.target held .child
    simp only [Node.target?, last, leaf, Option.map_none] at next head
    exact ⟨_, _, .delete id kind content (carried.holds held) ((name held).trans nameK)
      (by rw [parent held, root]; rfl) next head, carried.pruned held, fun copied => copied.pruned held⟩
  | @addLink p c edge link heldP heldC nameP nameC named free root apart =>
    have apart₁ : ¬ m₁.Over (image c) (image p) :=
      mt (carried.over_iff sound₁ sound heldC heldP).1 apart
    have differ : p ≠ c := fun same => apart (same ▸ .refl)
    refine ⟨_, _, .addLink link (carried.holds heldP) (carried.holds heldC) ((name heldP).trans nameP)
      ((name heldC).trans nameC) ?_ ?_ (by rw [parent heldC, root]; rfl) apart₁,
      carried.rehang heldP heldC differ true, fun copied => copied.rehang heldP heldC differ true⟩
    · simpa only [Node.edge?, carried.kind heldP] using named
    · rw [carried.target heldP, free]
      rfl
  | @removeLink p c edge link heldP nameP nameC named leads =>
    obtain ⟨heldC, above⟩ := sound.back heldP leads
    have differ : p ≠ c := fun same => sound.not_over_parent heldC above (same ▸ .refl)
    refine ⟨_, _, .removeLink link (carried.holds heldP) ((name heldP).trans nameP)
      ((name heldC).trans nameC) ?_ ?_, carried.rehang heldP heldC differ false,
      fun copied => copied.rehang heldP heldC differ false⟩
    · simpa only [Node.edge?, carried.kind heldP] using named
    · rw [carried.target heldP, leads]
      rfl
  | @changeField k change held nameK old =>
    exact ⟨_, _, .changeField change (carried.holds held) ((name held).trans nameK)
      (by rw [carried.fields held, old]), carried.withField held change.name change.new,
      fun copied => copied.withField held change.name change.new⟩

/-! ### An entry and the entry that takes it back -/

/-- The entry that takes an entry back from a model on; a node that goes is brought back as it was. -/
def Entry.backIn (m : Model) : Entry → Entry
  | .delete id kind content =>
    match m.find? id with
    | some k => .create ⟨(m.node k).id, (m.node k).kind, (m.node k).toContent⟩
    | none => .delete id kind content
  | entry => entry.inverse?.getD entry

section Opposites

/-- A node that comes and goes. -/
theorem copied_pruned_grown (m : Model) (id_ : NodeId) (kind : Kind) (content : Content) :
    Copied ((m.grown id_ kind content).pruned m.nodes.size) m id id := by
  have holds := m.holds_grown id_ kind content
  have outside : ∀ {b}, m.Holds b → b ≠ m.nodes.size := fun held => Nat.ne_of_lt held.1
  have old : ∀ {b}, m.Holds b →
      ((m.grown id_ kind content).pruned m.nodes.size).node b = m.node b := fun {b} held => by
    rw [node_pruned_of_ne _ (outside held), m.node_grown, if_neg (outside held)]
  refine .of (fun {b} held => ?_) (fun {k} held => ?_) (fun _ _ same => same) (fun {b} held => ?_)
    (fun {b} held e => ?_)
  · exact (holds_pruned _ _ _).2 ⟨(holds b).2 (.inl held), outside held⟩
  · obtain ⟨held, differ⟩ := (holds_pruned _ _ _).1 held
    exact ⟨k, ((holds k).1 held).resolve_right differ, rfl⟩
  · rw [id, old held]
    exact ⟨rfl, rfl, rfl⟩
  · rw [id, old held, Option.map_id]
    rfl

/-- A node that goes and comes back, in a new place. -/
theorem copied_grown_pruned (sound : m.Sound) (held : m.Holds k) (root : (m.node k).parent = none)
    (last : (m.node k).next = none) (leaf : (m.node k).head = none) :
    Copied ((m.pruned k).grown (m.node k).id (m.node k).kind (m.node k).toContent) m id
      fun b => if b = k then m.nodes.size else b := by
  have outside : ∀ {b}, m.Holds b → b ≠ m.nodes.size := fun held => Nat.ne_of_lt held.1
  have node := (m.pruned k).node_grown (m.node k).id (m.node k).kind (m.node k).toContent
  rw [size_pruned] at node
  have holds : ∀ j, ((m.pruned k).grown (m.node k).id (m.node k).kind
      (m.node k).toContent).Holds j ↔ (m.Holds j ∧ j ≠ k) ∨ j = m.nodes.size := fun j => by
    rw [holds_grown, holds_pruned, size_pruned]
  have old : ∀ {b}, m.Holds b → b ≠ k → ((m.pruned k).grown (m.node k).id (m.node k).kind
      (m.node k).toContent).node b = m.node b := fun {b} heldB differ => by
    rw [node, if_neg (outside heldB), m.node_pruned_of_ne differ]
  refine .of (fun {b} heldB => ?_) (fun {j} heldJ => ?_) (fun {a b} heldA heldB equal => ?_)
    (fun {b} heldB => ?_) (fun {b} heldB e => ?_)
  · by_cases same : b = k
    · exact (holds _).2 (.inr (if_pos same))
    · rw [if_neg same]
      exact (holds _).2 (.inl ⟨heldB, same⟩)
  · rcases (holds j).1 heldJ with ⟨heldJ, differ⟩ | rfl
    · exact ⟨j, heldJ, if_neg differ⟩
    · exact ⟨k, held, if_pos rfl⟩
  · by_cases sameA : a = k <;> by_cases sameB : b = k <;>
      simp only [sameA, sameB, if_true, if_false] at equal
    · rw [sameA, sameB]
    · exact absurd equal.symm (outside heldB)
    · exact absurd equal (outside heldA)
    · exact equal
  · by_cases same : b = k
    · rw [if_pos same, node, if_pos rfl, same]
      exact ⟨rfl, rfl, rfl⟩
    · rw [if_neg same, old heldB same]
      exact ⟨rfl, rfl, rfl⟩
  · by_cases same : b = k
    · rw [if_pos same, node, if_pos rfl, same]
      cases e with
      | child => rw [show (m.node k).target? .child = none from leaf]; rfl
      | next => rw [show (m.node k).target? .next = none from last]; rfl
    · rw [if_neg same, old heldB same]
      cases target : (m.node b).target? e with
      | none => rfl
      | some c =>
        -- Nothing leads to a node at top level.
        have other : c ≠ k := by
          rintro rfl
          rw [(sound.back heldB target).2] at root
          cases root
        exact congrArg some (if_neg other).symm

/-- A link that is made and cut, or cut and made. -/
theorem copied_rehang_rehang (heldP : m.Holds p) (heldC : m.Holds c) (differ : p ≠ c) (made : Bool)
    (before : (m.node p).target? edge = if made then none else some c) :
    Copied ((m.rehang p edge c made).rehang p edge c (!made)) m id id := by
  have once := Model.sameNodes_rehang edge heldP heldC differ made
  have twice := once.trans (Model.sameNodes_rehang edge ((once.holds p).2 heldP) ((once.holds c).2 heldC)
    differ (!made))
  refine .of (fun {b} held => (twice.holds b).2 held)
    (fun {k} held => ⟨k, (twice.holds k).1 held, rfl⟩) (fun _ _ same => same)
    (fun {b} _ => ⟨twice.id b, twice.kind b, twice.content b⟩) (fun {b} held e => ?_)
  rw [id, target?_rehang _ ((once.holds p).2 heldP) ((once.holds c).2 heldC) differ,
    target?_rehang _ heldP heldC differ, Option.map_id, id]
  -- Only the one slot is retargeted, and at last it leads where it led before.
  by_cases here : b = p ∧ e = edge
  · obtain ⟨rfl, rfl⟩ := here
    rw [if_pos ⟨rfl, rfl⟩, before]
    cases made <;> rfl
  · rw [if_neg here, if_neg here]

/-- A field that is set and set back. -/
theorem copied_withField_withField (held : m.Holds k) (name : String) (value : Option String) :
    Copied ((m.withField k name value).withField k name ((m.node k).fields.get? name)) m id id := by
  have same := (m.sameForest_withField k name value).trans
    ((m.withField k name value).sameForest_withField k name ((m.node k).fields.get? name))
  refine .of (fun {b} held => same.holds_iff.2 held)
    (fun {k} held => ⟨k, same.holds_iff.1 held, rfl⟩) (fun _ _ equal => equal)
    (fun {b} _ => ⟨same.id b, same.kind b, ?_⟩) (fun {b} _ e => ?_)
  · have inside := ((m.sameForest_withField k name value).holds_iff.2 held).1
    rw [id, node_withField]
    by_cases here : b = k
    · -- The second change puts back what the first one replaced.
      have back : ((m.node k).fields.assign name value).assign name ((m.node k).fields.get? name) =
          (m.node k).fields := by
        refine Dict.ext_get? fun other => ?_
        rw [Dict.get?_assign, Dict.get?_assign]
        split
        · next equal => rw [equal]
        · rfl
      rw [if_pos ⟨here, inside⟩, node_withField, if_pos ⟨rfl, held.1⟩, here]
      simp only [back]
    · rw [if_neg fun both => here both.1, node_withField, if_neg fun both => here both.1]
  · rw [id, same.target, Option.map_id]
    rfl

end Opposites

/-- Nothing stands in the way of the entry that takes an entry back, and it leads to a copy of the
model before. -/
theorem Does.exists_back (does : Does m entry m') (sound : m.Sound) :
    ∃ m₀ image, Does m' (entry.backIn m) m₀ ∧ Copied m₀ m id image := by
  cases does with
  | create node solid free =>
    have here : (m.grown node.id node.kind node.content).node m.nodes.size =
        { node.content with id := node.id, kind := node.kind } := by rw [node_grown, if_pos rfl]
    exact ⟨_, id, .delete node.id (some node.kind) node.content ((holds_grown _ _ _ _ _).2 (.inr rfl))
      (by rw [here]) (by rw [here]) (by rw [here]) (by rw [here]), copied_pruned_grown _ _ _ _⟩
  | @delete k id_ kind content held name root last leaf =>
    have back : (Entry.delete id_ kind content).backIn m =
        .create ⟨(m.node k).id, (m.node k).kind, (m.node k).toContent⟩ := by
      simp only [Entry.backIn, sound.find?_eq_some_iff.2 ⟨held, name⟩]
    -- The name is free again once the node is gone.
    have free : (m.pruned k).find? (m.node k).id = none := by
      cases found : (m.pruned k).find? (m.node k).id with
      | none => rfl
      | some j =>
        obtain ⟨heldJ, nameJ⟩ := (sound.pruned root last leaf).find?_eq_some_iff.1 found
        obtain ⟨heldJ, differ⟩ := (holds_pruned _ _ _).1 heldJ
        rw [m.node_pruned_of_ne differ] at nameJ
        exact absurd (sound.named heldJ held nameJ) differ
    rw [back]
    exact ⟨_, _, .create _ (sound.solid held) free, copied_grown_pruned sound held root last leaf⟩
  | @addLink p c edge link heldP heldC nameP nameC named free root apart =>
    have differ : p ≠ c := fun same => apart (same ▸ .refl)
    have nodes := Model.sameNodes_rehang edge heldP heldC differ true
    refine ⟨_, id, .removeLink link ((nodes.holds p).2 heldP) (by rw [nodes.id, nameP])
      (by rw [nodes.id, nameC]) (by simpa only [Node.edge?, nodes.kind] using named) ?_,
      copied_rehang_rehang heldP heldC differ true free⟩
    rw [target?_rehang _ heldP heldC differ, if_pos ⟨rfl, rfl⟩, if_pos rfl]
  | @removeLink p c edge link heldP nameP nameC named leads =>
    obtain ⟨heldC, above⟩ := sound.back heldP leads
    have differ : p ≠ c := fun same => sound.not_over_parent heldC above (same ▸ .refl)
    have nodes := Model.sameNodes_rehang edge heldP heldC differ false
    -- No way up is new once a link is cut.
    have less : ∀ {x}, (m.rehang p edge c false).Over c x → m.Over c x := by
      intro x atop
      induction atop with
      | refl => exact .refl
      | step _ held parent ih =>
        rw [parent_rehang _ heldP heldC differ] at parent
        split at parent
        · cases parent
        · exact ih.step ((nodes.holds _).1 held) parent
    have apart : ¬ (m.rehang p edge c false).Over c p := fun atop =>
      sound.not_over_parent heldC above (less atop)
    refine ⟨_, id, .addLink link ((nodes.holds p).2 heldP) ((nodes.holds c).2 heldC)
      (by rw [nodes.id, nameP]) (by rw [nodes.id, nameC])
      (by simpa only [Node.edge?, nodes.kind] using named) ?_ ?_ apart,
      copied_rehang_rehang heldP heldC differ false leads⟩
    · rw [target?_rehang _ heldP heldC differ, if_pos ⟨rfl, rfl⟩]
      rfl
    · rw [parent_rehang _ heldP heldC differ, if_pos rfl]
      rfl
  | @changeField k change held name old =>
    have same := m.sameForest_withField k change.name change.new
    refine ⟨_, id, .changeField { change with old := change.new, new := change.old }
      (same.holds_iff.2 held) (by rw [same.id, name]) ?_, ?_⟩
    · rw [node_withField, if_pos ⟨rfl, held.1⟩, Dict.get?_assign, if_pos rfl]
    · rw [← old]
      exact copied_withField_withField held change.name change.new

/-! ### Runs of entries taken back -/

/-- Entries lead from one model to another, and leave behind the entries that take them back. -/
inductive Retraces : Model → List Entry → List Entry → Model → Prop
  | nil (m : Model) : Retraces m [] [] m
  | cons {m m' m'' : Model} {entry : Entry} {rest backs : List Entry} :
    Does m entry m' → Retraces m' rest backs m'' →
    Retraces m (entry :: rest) (entry.backIn m :: backs) m''

theorem DoesAll.exists_retraces (does : DoesAll m entries m') :
    ∃ backs, Retraces m entries backs m' := by
  induction does with
  | nil => exact ⟨[], .nil _⟩
  | cons step _ ih =>
    obtain ⟨backs, rest⟩ := ih
    exact ⟨_, .cons step rest⟩

namespace Retraces

theorem doesAll (retraces : Retraces m entries backs m') : DoesAll m entries m' := by
  induction retraces with
  | nil => exact .nil _
  | cons step _ ih => exact .cons step ih

theorem sound (retraces : Retraces m entries backs m') (sound : m.Sound) : m'.Sound := by
  induction retraces with
  | nil => exact sound
  | cons step _ ih => exact ih (step.sound sound)

/-- A node is only ever brought back under the id that it had. -/
theorem solid (retraces : Retraces m entries backs m') (sound : m.Sound) :
    ∀ node, Entry.create node ∈ backs → node.id.isVoid = false := by
  induction retraces with
  | nil => exact fun _ inside => nomatch inside
  | @cons m m' m'' entry rest backs step _ ih =>
    intro node inside
    -- Only a deletion is taken back by a creation, that of the node which was there.
    rcases List.mem_cons.1 inside with here | later
    · cases step with
      | @delete k id kind content held name =>
        rw [Entry.backIn, sound.find?_eq_some_iff.2 ⟨held, name⟩] at here
        cases here
        exact sound.solid held
      | create | addLink | removeLink | changeField => cases here
    · exact ih (step.sound sound) node later

/-- What is brought back was there, or came with one of the entries. -/
theorem id_of_back (retraces : Retraces m entries backs m') (sound : m.Sound) {node : Specimen}
    (inside : Entry.create node ∈ backs) : (∃ k, m.Holds k ∧ (m.node k).id = node.id) ∨
      ∃ made, Entry.create made ∈ entries ∧ made.id = node.id := by
  induction retraces with
  | nil => cases inside
  | @cons m m' m'' entry rest backs step _ ih =>
    rcases List.mem_cons.1 inside with here | later
    · cases step with
      | @delete k id kind content held name =>
        rw [Entry.backIn, sound.find?_eq_some_iff.2 ⟨held, name⟩] at here
        cases here
        exact .inl ⟨k, held, rfl⟩
      | create | addLink | removeLink | changeField => cases here
    · rcases ih (step.sound sound) later with ⟨k, held, id⟩ | ⟨made, among, id⟩
      · -- A node that was there after the first entry was there before, or came with it.
        rcases step.id_of_holds sound held with ⟨j, heldJ, same⟩ | ⟨made, rfl, same⟩
        · exact .inl ⟨j, heldJ, same.trans id⟩
        · exact .inr ⟨made, List.mem_cons_self, same.trans id⟩
      · exact .inr ⟨made, List.mem_cons_of_mem _ among, id⟩

/-- From a model carried over from where entries lead to, the entries that take them back, the last
first, lead to one carried over from where the entries began; and from a copy to a copy. -/
theorem exists_back (retraces : Retraces m entries backs m') (sound : m.Sound)
    (sound₁ : m₁.Sound) (carried : CarriedOver m₁ m' id image) :
    ∃ m₀ image₀, DoesAll m₁ backs.reverse m₀ ∧ m₀.Sound ∧ CarriedOver m₀ m id image₀ ∧
      (Copied m₁ m' id image → Copied m₀ m id image₀) := by
  induction retraces generalizing m₁ image with
  | nil => exact ⟨m₁, image, .nil m₁, sound₁, carried, fun copied => copied⟩
  | @cons m m' m'' entry rest backs step _ ih =>
    -- The later entries go first, and lead to the model right behind this one.
    obtain ⟨m₂, image₂, later, sound₂, carried₂, copied₂⟩ := ih (step.sound sound) sound₁ carried
    obtain ⟨m₃, image₃, back, copied₃⟩ := step.exists_back sound
    obtain ⟨m₀, image₀, does, carried₀, copied₀⟩ := back.carried carried₂ (step.sound sound) sound₂
    rw [List.reverse_cons]
    exact ⟨m₀, _, later.append (.cons does (.nil m₀)), does.sound sound₂,
      copied₃.toCarriedOver.trans carried₀, fun copied => copied₃.trans (copied₀ (copied₂ copied))⟩

/-- From a copy of where entries lead to, the entries that take them back lead to a copy of where the
entries began. -/
theorem exists_undone (retraces : Retraces m entries backs m') (sound : m.Sound)
    (sound₁ : m₁.Sound) (copied : Copied m₁ m' id image) :
    ∃ m₀ image₀, DoesAll m₁ backs.reverse m₀ ∧ m₀.Sound ∧ Copied m₀ m id image₀ := by
  obtain ⟨m₀, image₀, does, sound₀, -, copied₀⟩ :=
    retraces.exists_back sound sound₁ copied.toCarriedOver
  exact ⟨m₀, image₀, does, sound₀, copied₀ copied⟩

end Retraces

/-! ### Runs in a host -/

namespace Host

variable {σ : Type} {h : Host Error σ} {s s' : σ} {applied : Applied}

/-- The replay of an entry returns the entry that takes it back. -/
theorem back_of_applyEntry {back : Entry} (ran : h.applyEntry entry s = .ok back s') :
    back = entry.backIn (h.model s) := by
  -- What an entry returns is put together last, from the model as it was before.
  cases entry with
  | create node =>
    obtain ⟨_, _, _, done⟩ := EStateM.bind_eq_ok_iff.1 ran
    exact (EStateM.pure_eq_ok_iff.1 done).1.symm
  | delete id kind content =>
    obtain ⟨k, _, looked, rest⟩ := EStateM.bind_eq_ok_iff.1 ran
    obtain ⟨rfl, found⟩ := lookup_eq_ok_iff.1 looked
    obtain ⟨_, _, read, rest⟩ := EStateM.bind_eq_ok_iff.1 rest
    cases read
    obtain ⟨_, _, _, done⟩ := EStateM.bind_eq_ok_iff.1 rest
    rw [Entry.backIn, found]
    exact (EStateM.pure_eq_ok_iff.1 done).1.symm
  | addLink link =>
    obtain ⟨_, _, _, rest⟩ := EStateM.bind_eq_ok_iff.1 ran
    obtain ⟨_, _, _, rest⟩ := EStateM.bind_eq_ok_iff.1 rest
    obtain ⟨_, _, _, done⟩ := EStateM.bind_eq_ok_iff.1 rest
    exact (EStateM.pure_eq_ok_iff.1 done).1.symm
  | removeLink link =>
    obtain ⟨_, _, _, rest⟩ := EStateM.bind_eq_ok_iff.1 ran
    obtain ⟨_, _, _, done⟩ := EStateM.bind_eq_ok_iff.1 rest
    exact (EStateM.pure_eq_ok_iff.1 done).1.symm
  | changeField change =>
    obtain ⟨_, _, _, rest⟩ := EStateM.bind_eq_ok_iff.1 ran
    obtain ⟨_, _, _, done⟩ := EStateM.bind_eq_ok_iff.1 rest
    exact (EStateM.pure_eq_ok_iff.1 done).1.symm
  | other text => cases ran

/-- Entries that nothing stands in the way of return those that take them back. -/
theorem Gives.mapM_of_retraces (quiet : h.Quiet) (sound : (h.model s).Sound)
    (retraces : Retraces (h.model s) entries backs m') :
    h.Gives s (entries.mapM h.applyEntry) backs m' := by
  induction entries generalizing s backs with
  | nil =>
    cases retraces
    exact Gives.pure h s []
  | cons entry rest ih =>
    cases retraces with
    | cons step later =>
      obtain ⟨back, s', ran, here⟩ := Gives.applyEntry quiet sound step
      subst here
      obtain rfl := back_of_applyEntry ran
      rw [List.mapM_cons]
      exact Gives.trans ran ((ih (step.sound sound) later).bind fun s'' last =>
        last ▸ Gives.pure h s'' _)

/-- Entries that nothing stands in the way of are replayed. -/
theorem Gives.applyEntries_of_retraces (quiet : h.Quiet) (sound : (h.model s).Sound)
    (retraces : Retraces (h.model s) entries backs m') :
    h.Gives s (h.applyEntries entries) ⟨entries, backs⟩ m' := by
  obtain ⟨o, accepted⟩ := retraces.doesAll.replay sound (mirrors_outline sound)
  have looked : h.current s = .ok (h.model s) s := rfl
  refine Gives.trans looked ?_
  rw [accepted]
  exact (mapM_of_retraces quiet sound retraces).bind fun s' last => last ▸ Gives.pure h s' _

/-- What was replayed had nothing in its way. -/
theorem retraces_of_applyEntries (quiet : h.Quiet) (sound : (h.model s).Sound)
    (solid : ∀ node, Entry.create node ∈ entries → node.id.isVoid = false)
    (ran : h.applyEntries entries s = .ok applied s') :
    applied.entries = entries ∧ Retraces (h.model s) entries applied.inverses (h.model s') := by
  obtain ⟨m, _, looked, rest⟩ := EStateM.bind_eq_ok_iff.1 ran
  cases looked
  cases accepted : (h.model s).outline.replay entries with
  | error e =>
    rw [accepted] at rest
    cases rest
  | ok o =>
    obtain ⟨m', does⟩ := Mirrors.doesAll_of_replay sound (mirrors_outline sound) accepted solid
    obtain ⟨backs, retraces⟩ := does.exists_retraces
    obtain ⟨s'', also, rfl⟩ := Gives.applyEntries_of_retraces quiet sound retraces
    cases ran.symm.trans also
    exact ⟨rfl, retraces⟩

/-- Where no creation is under an id that stands for nothing, a replay that fails has not begun. -/
theorem eq_of_applyEntries_error {e : Error} (quiet : h.Quiet) (sound : (h.model s).Sound)
    (solid : ∀ node, Entry.create node ∈ entries → node.id.isVoid = false)
    (failed : h.applyEntries entries s = .error e s') : s' = s := by
  have looked : h.current s = .ok (h.model s) s := rfl
  cases checked : (h.model s).outline.replay entries with
  | error e =>
    -- The refusal comes before the first edit.
    simp only [applyEntries, bind, EStateM.bind, looked, checked] at failed
    cases failed
    rfl
  | ok o =>
    -- What the check has accepted is replayed to its end.
    obtain ⟨m', does⟩ := Mirrors.doesAll_of_replay sound (mirrors_outline sound) checked solid
    obtain ⟨backs, retraces⟩ := does.exists_retraces
    obtain ⟨s'', ran, -⟩ := Gives.applyEntries_of_retraces quiet sound retraces
    cases failed.symm.trans ran

end Host

end DocSync
