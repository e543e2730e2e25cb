import DocSync.Proofs.Change.Outline

/-!
The check before a replay lets nothing pass that the model could not do. An outline that mirrors a
sound model knows of no node, link or way up but those of the model, so an entry that it accepts has
nothing in its way, and one that it refuses is refused by a fault of the entry.
-/

namespace DocSync

variable {o o' : Outline} {m : Model} {ks : List Key} {js : List Joint} {j : Joint} {c k p : Key}
  {edge : Edge} {entry : Entry} {slot : String}

/-- A node that stands over another one links to something. -/
theorem Model.Linked.exists_target_of_over (linked : m.Linked) (atop : m.Over c p)
    (differ : c ≠ p) : ∃ e d, (m.node c).target? e = some d := by
  induction atop with
  | refl => exact absurd rfl differ
  | @step q p e above held parent ih =>
    by_cases same : c = q
    · subst same
      exact ⟨e, p, (linked.forth held parent).2⟩
    · exact ih same

/-- More steps up meet no less. -/
theorem Outline.isAboveFrom_mono {name : Name} {fuel more : Nat} {below : Option Name}
    (met : o.isAboveFrom name fuel below = true) (enough : fuel ≤ more) :
    o.isAboveFrom name more below = true := by
  induction fuel generalizing more below with
  | zero => simp [Outline.isAboveFrom] at met
  | succ fuel ih =>
    obtain ⟨more, rfl⟩ : ∃ n, more = n + 1 := ⟨more - 1, by omega⟩
    cases below with
    | none => simp [Outline.isAboveFrom] at met
    | some below =>
      rw [Outline.isAboveFrom, Bool.or_eq_true] at met ⊢
      exact met.imp_right fun above => ih above (by omega)

/-- The name of a slot that a node has is that of one of its edges. -/
theorem Node.exists_edge_of_slot {n : Node} (fits : slot = nextName ∨ n.kind.slot? = some slot) :
    ∃ edge, n.edge? slot = some edge := by
  by_cases next : slot = nextName
  · exact ⟨.next, by simp [Node.edge?, next]⟩
  · have own : n.kind.slot? = some slot := fits.resolve_left next
    exact ⟨.child, by simp [Node.edge?, next, own]⟩

/-- What the outline asks for before it accepts an entry. -/
def Outline.Admits (o : Outline) : Entry → Prop
  | .create node => o.node? node.id.name = none
  | .delete id _ _ =>
    (∃ x, o.node? id.name = some x) ∧ o.parent? id.name = none ∧ o.hasLink id.name = false
  | .addLink link => ∃ x y, o.node? link.parent.name = some x ∧ o.node? link.child.name = some y ∧
      (link.slot = nextName ∨ x.kind.slot? = some link.slot) ∧
      o.link? link.parent.name link.slot = none ∧ o.parent? link.child.name = none ∧
      o.isAbove link.child.name link.parent.name = false
  | .removeLink link => o.link? link.parent.name link.slot = some link.named
  | .changeField change =>
    ∃ x, o.node? change.node.name = some x ∧ x.fields.get? change.name = change.old
  | .other _ => False

theorem Outline.admits_of_step (accepted : o.step entry = .ok o') : o.Admits entry := by
  -- Each check that the outline makes either refuses the entry or leaves its condition behind.
  cases entry with
  | create node =>
    cases known : o.node? node.id.name with
    | none => exact known
    | some x => simp [Outline.step, known] at accepted
  | delete id kind content =>
    cases known : o.node? id.name with
    | none => simp [Outline.step, known, bind, Except.bind, discard, Functor.discard,
        Functor.mapConst, Except.map] at accepted
    | some x =>
      simp only [Outline.step, known, bind, Except.bind, discard, Functor.discard,
        Functor.mapConst, Except.map, Function.comp] at accepted
      split at accepted
      · cases accepted
      · next free =>
        simp only [Bool.or_eq_true, not_or, Bool.not_eq_true, Option.isSome_eq_false_iff,
          Option.isNone_iff_eq_none] at free
        exact ⟨⟨x, known⟩, free⟩
  | addLink link =>
    cases knownP : o.node? link.parent.name with
    | none => simp [Outline.step, knownP, bind, Except.bind] at accepted
    | some x =>
      cases knownC : o.node? link.child.name with
      | none => simp [Outline.step, knownP, knownC, bind, Except.bind, discard, Functor.discard,
          Functor.mapConst, Except.map] at accepted
      | some y =>
        simp only [Outline.step, knownP, knownC, bind, Except.bind, discard, Functor.discard,
          Functor.mapConst, Except.map, Function.comp] at accepted
        split_ifs at accepted with fits vacant alone apart
        rw [not_and_or, not_not, not_not] at fits
        exact ⟨x, y, knownP, knownC, fits, by simpa using vacant, by simpa using alone, by simpa using apart⟩
  | removeLink link =>
    simp only [Outline.step] at accepted
    split at accepted
    · cases accepted
    · next present => exact not_not.1 present
  | changeField change =>
    cases known : o.node? change.node.name with
    | none => simp [Outline.step, known, bind, Except.bind] at accepted
    | some x =>
      simp only [Outline.step, known, bind, Except.bind] at accepted
      split at accepted
      · cases accepted
      · next old => exact ⟨x, known, not_not.1 old⟩
  | other text => simp [Outline.step] at accepted

namespace Mirrors

variable (mirrors : Mirrors o m ks js) (sound : m.Sound)
include mirrors sound

omit sound in
/-- A node that the outline knows is a node of the model. -/
theorem exists_of_node? {name : Name} {x : Outlined} (known : o.node? name = some x) :
    ∃ k, m.Holds k ∧ m.nameOf k = name ∧ x = m.outlined k := by
  rw [Outline.node?, mirrors.nodes] at known
  obtain ⟨k, inside, rfl⟩ := List.mem_map.1 (List.mem_of_find?_eq_some known)
  have same : m.nameOf k = name := by simpa [Model.outlined] using List.find?_some known
  exact ⟨k, mirrors.held.1 inside, same, rfl⟩

omit sound in
/-- A link that the outline knows is a link of the model. -/
theorem exists_of_link? {parent : Name} {slot : String} {l : NamedLink}
    (known : o.link? parent slot = some l) :
    ∃ j, m.Joins j ∧ l = m.named j ∧ m.nameOf j.parent = parent ∧
      (m.node j.parent).edgeName j.edge = slot := by
  rw [Outline.link?, mirrors.links] at known
  obtain ⟨j, inside, rfl⟩ := List.mem_map.1 (List.mem_of_find?_eq_some known)
  have same := List.find?_some known
  simp only [Model.named, Bool.and_eq_true, beq_iff_eq] at same
  exact ⟨j, mirrors.joined.1 inside, rfl, same.1, same.2⟩

/-- A node that the outline knows no parent of has none. -/
theorem parent_eq_none (held : m.Holds c) (alone : o.parent? (m.nameOf c) = none) :
    (m.node c).parent = none := by
  cases parent : (m.node c).parent with
  | none => rfl
  | some above =>
    obtain ⟨q, e⟩ := above
    have known := mirrors.parent?_of_joins sound (j := ⟨q, e, c⟩) (sound.forth held parent)
    exact nomatch alone.symm.trans known

omit sound in
theorem hasLink_of_joins (joins : m.Joins j) : o.hasLink (m.nameOf j.parent) = true := by
  have member : m.nameOf j.parent ∈ o.holders :=
    mirrors.holders.mem_iff.2 (List.mem_map_of_mem (mirrors.joined.2 joins))
  simpa [Outline.hasLink] using member

omit sound in
/-- A node that links to nothing by the outline links to nothing. -/
theorem target?_eq_none (held : m.Holds k) (bare : o.hasLink (m.nameOf k) = false) (e : Edge) :
    (m.node k).target? e = none := by
  cases target : (m.node k).target? e with
  | none => rfl
  | some d =>
    have linked := mirrors.hasLink_of_joins (j := ⟨k, e, d⟩) ⟨held, target⟩
    exact nomatch bare.symm.trans linked

/-- Whoever stands over a node is met on the way up from it, after a step for each of some nodes
that all have parents. -/
theorem exists_climb (heldP : m.Holds p) (atop : m.Over c p) : ∃ climb : List Key, climb.Nodup ∧
    (∀ x ∈ climb, m.Over x p ∧ m.Holds x ∧ (m.node x).parent.isSome) ∧
      o.isAboveFrom (m.nameOf c) (climb.length + 1) (some (m.nameOf p)) = true := by
  induction atop with
  | refl => exact ⟨[], .nil, by simp, by simp [Outline.isAboveFrom]⟩
  | @step q p e above held parent ih =>
    obtain ⟨heldQ, target⟩ := sound.forth held parent
    obtain ⟨climb, nodup, upper, met⟩ := ih heldQ
    have up := mirrors.parent?_of_joins sound (j := ⟨q, e, p⟩) ⟨heldQ, target⟩
    refine ⟨p :: climb, List.nodup_cons.2 ⟨fun inside => ?_, nodup⟩, fun x inside => ?_, ?_⟩
    · -- The nodes of the climb so far stand over the parent, which the child does not.
      exact sound.not_over_parent held parent (upper p inside).1
    · rcases List.mem_cons.1 inside with same | later
      · subst same
        exact ⟨.refl, held, by simp [parent]⟩
      · obtain ⟨above, rest⟩ := upper x later
        exact ⟨above.step held parent, rest⟩
    · rw [List.length_cons, Outline.isAboveFrom, up, met, Bool.or_true]

/-- The outline counts enough steps to meet whoever stands over a node. -/
theorem isAbove_of_over (heldP : m.Holds p) (atop : m.Over c p) :
    o.isAbove (m.nameOf c) (m.nameOf p) = true := by
  by_cases same : c = p
  · simp [Outline.isAbove, same]
  have heldC := sound.holds_of_over heldP atop
  obtain ⟨e, d, target⟩ := sound.exists_target_of_over atop same
  have linked := mirrors.hasLink_of_joins (j := ⟨c, e, d⟩) ⟨heldC, target⟩
  obtain ⟨climb, nodup, upper, met⟩ := mirrors.exists_climb sound heldP atop
  -- Each node of the climb is the child of a link of its own.
  have inside : climb ⊆ js.map Joint.child := by
    intro x member
    obtain ⟨_, held, parent⟩ := upper x member
    obtain ⟨⟨q, e⟩, parent⟩ := Option.isSome_iff_exists.1 parent
    exact List.mem_map.2 ⟨⟨q, e, x⟩, mirrors.joined.2 (sound.forth held parent), rfl⟩
  have short : climb.length ≤ o.parents.length := by
    have bounded := (nodup.subperm inside).length_le
    rw [List.length_map] at bounded
    rw [mirrors.parents, List.length_map]
    exact bounded
  have climbed := Outline.isAboveFrom_mono met (Nat.succ_le_succ short)
  rw [Outline.isAbove, linked, Bool.true_and, climbed, Bool.or_true]

/-- An entry that the outline accepts has nothing in its way. -/
theorem does_of_step (accepted : o.step entry = .ok o')
    (solid : ∀ node, entry = .create node → node.id.isVoid = false) : ∃ m', Does m entry m' := by
  have admits := Outline.admits_of_step accepted
  cases entry with
  | create node =>
    refine ⟨_, .create node (solid node rfl) ?_⟩
    -- A node of that name would be known to the outline.
    cases found : m.find? node.id with
    | none => rfl
    | some k =>
      obtain ⟨held, name⟩ := sound.find?_eq_some_iff.1 found
      have known := mirrors.node?_nameOf sound held
      rw [Model.nameOf, name, show o.node? node.id.name = none from admits] at known
      cases known
  | delete id kind content =>
    obtain ⟨⟨x, known⟩, alone, bare⟩ := admits
    obtain ⟨k, held, name, -⟩ := mirrors.exists_of_node? known
    rw [← name] at alone bare
    have free := mirrors.target?_eq_none held bare
    exact ⟨_, .delete id kind content held name (mirrors.parent_eq_none sound held alone) (free .next)
      (free .child)⟩
  | addLink link =>
    obtain ⟨x, y, knownP, knownC, fits, vacant, alone, apart⟩ := admits
    obtain ⟨p, heldP, nameP, rfl⟩ := mirrors.exists_of_node? knownP
    obtain ⟨c, heldC, nameC, rfl⟩ := mirrors.exists_of_node? knownC
    obtain ⟨edge, named⟩ : ∃ edge, (m.node p).edge? link.slot = some edge := Node.exists_edge_of_slot fits
    rw [← nameP] at vacant apart
    rw [← nameC] at alone apart
    have free : (m.node p).target? edge = none := by
      cases target : (m.node p).target? edge with
      | none => rfl
      | some d =>
        have known := mirrors.link?_of_joins sound (j := ⟨p, edge, d⟩) ⟨heldP, target⟩
        simp only [Node.edgeName_of_edge? named, vacant] at known
        cases known
    refine ⟨_, .addLink link heldP heldC nameP nameC named free (mirrors.parent_eq_none sound heldC alone)
      fun atop => ?_⟩
    rw [mirrors.isAbove_of_over sound heldP atop] at apart
    cases apart
  | removeLink link =>
    obtain ⟨j, joins, same, nameP, slot⟩ := mirrors.exists_of_link? admits
    have held := joins.1
    have named : (m.node j.parent).edge? link.slot = some j.edge := by
      rw [← slot]
      refine Node.edge?_edgeName _ _ fun child => sound.slotted held ?_
      have target := joins.2
      rw [child] at target
      exact Option.isSome_iff_exists.2 ⟨_, target⟩
    exact ⟨_, .removeLink link held nameP (congrArg NamedLink.child same).symm named joins.2⟩
  | changeField change =>
    obtain ⟨x, known, old⟩ := admits
    obtain ⟨k, held, name, rfl⟩ := mirrors.exists_of_node? known
    exact ⟨_, .changeField change held name old⟩
  | other text => exact admits.elim

/-- An entry that the outline refuses has a fault. -/
theorem fault_of_step {e : Error} (refused : o.step entry = .error e) :
    ∃ fault, e = .entry entry fault := by
  cases entry with
  | create node =>
    simp only [Outline.step] at refused
    split at refused
    · cases refused
      exact ⟨_, rfl⟩
    · cases refused
  | delete id kind content =>
    cases known : o.node? id.name <;>
      simp only [Outline.step, known, bind, Except.bind, discard, Functor.discard,
        Functor.mapConst, Except.map, Function.comp] at refused
    · cases refused
      exact ⟨_, rfl⟩
    · split at refused <;> cases refused
      exact ⟨_, rfl⟩
  | addLink link =>
    cases knownP : o.node? link.parent.name <;> cases knownC : o.node? link.child.name <;>
      simp only [Outline.step, knownP, knownC, bind, Except.bind, discard, Functor.discard,
        Functor.mapConst, Except.map, Function.comp] at refused
    · cases refused
      exact ⟨_, rfl⟩
    · cases refused
      exact ⟨_, rfl⟩
    · cases refused
      exact ⟨_, rfl⟩
    · split_ifs at refused <;> cases refused <;> exact ⟨_, rfl⟩
  | removeLink link =>
    simp only [Outline.step] at refused
    split at refused
    · cases refused
      exact ⟨_, rfl⟩
    next present =>
    split at refused
    · next lost =>
      -- The child of a link that is present has a parent, the one that the link leaves.
      rw [ne_eq, not_not] at present
      obtain ⟨j, joins, same, -, -⟩ := mirrors.exists_of_link? present
      have known := mirrors.parent?_of_joins sound joins
      rw [show m.nameOf j.child = link.child.name from (congrArg NamedLink.child same).symm] at known
      simp [known] at lost
    · cases refused
  | changeField change =>
    cases known : o.node? change.node.name <;>
      simp only [Outline.step, known, bind, Except.bind] at refused
    · cases refused
      exact ⟨_, rfl⟩
    · split at refused <;> cases refused
      exact ⟨_, rfl⟩
  | other text =>
    cases refused
    exact ⟨_, rfl⟩

omit mirrors in
/-- A run of entries that the outline accepts has nothing in its way. -/
theorem doesAll_of_replay {entries : List Entry} (mirrors : Mirrors o m ks js)
    (accepted : o.replay entries = .ok o')
    (solid : ∀ node, Entry.create node ∈ entries → node.id.isVoid = false) :
    ∃ m', DoesAll m entries m' := by
  induction entries generalizing o m ks js with
  | nil => exact ⟨m, .nil m⟩
  | cons entry rest ih =>
    rw [Outline.replay] at accepted
    cases stepped : o.step entry with
    | error e => simp [stepped, bind, Except.bind] at accepted
    | ok o₁ =>
      simp only [stepped, bind, Except.bind] at accepted
      obtain ⟨m', does⟩ := mirrors.does_of_step sound stepped fun node same =>
        solid node (same ▸ List.mem_cons_self)
      -- What the outline has become is what it becomes of the entry carried out.
      obtain ⟨o₂, ks', js', also, mirrors'⟩ := does.step sound mirrors
      obtain rfl : o₁ = o₂ := Except.ok.inj (stepped.symm.trans also)
      obtain ⟨last, later⟩ := ih (does.sound sound) mirrors' accepted fun node inside =>
        solid node (List.mem_cons_of_mem _ inside)
      exact ⟨last, .cons does later⟩

omit mirrors in
/-- A run of entries that the outline refuses has one with a fault. -/
theorem fault_of_replay {entries : List Entry} {e : Error} (mirrors : Mirrors o m ks js)
    (refused : o.replay entries = .error e)
    (solid : ∀ node, Entry.create node ∈ entries → node.id.isVoid = false) :
    ∃ entry ∈ entries, ∃ fault, e = .entry entry fault := by
  induction entries generalizing o m ks js with
  | nil => cases refused
  | cons entry rest ih =>
    rw [Outline.replay] at refused
    cases stepped : o.step entry with
    | error e' =>
      simp only [stepped, bind, Except.bind, Except.error.injEq] at refused
      obtain ⟨fault, rfl⟩ := mirrors.fault_of_step sound stepped
      exact ⟨entry, List.mem_cons_self, fault, refused.symm⟩
    | ok o₁ =>
      simp only [stepped, bind, Except.bind] at refused
      obtain ⟨m', does⟩ := mirrors.does_of_step sound stepped fun node same =>
        solid node (same ▸ List.mem_cons_self)
      -- An accepted entry is carried out, and the outline mirrors what comes of it.
      obtain ⟨o₂, ks', js', also, mirrors'⟩ := does.step sound mirrors
      obtain rfl : o₁ = o₂ := Except.ok.inj (stepped.symm.trans also)
      obtain ⟨entry', inside, found⟩ := ih (does.sound sound) mirrors' refused
        fun node inside => solid node (List.mem_cons_of_mem _ inside)
      exact ⟨entry', List.mem_cons_of_mem _ inside, found⟩

end Mirrors

end DocSync
