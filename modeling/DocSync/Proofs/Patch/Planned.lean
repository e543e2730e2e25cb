import DocSync.Proofs.Patch.Asked

/-!
A plan part by part. Each part gives what the nodes ask for, or else fails in a way after which the
whole document is written anew; so a plan that is had consists of all that is asked for, but for what
lies in a node that is shown anew.
-/

namespace DocSync

/-- Failures after which the whole document is written anew. -/
def Error.Yields : Error → Prop
  | .stale .. => True
  | .conflict _ => True
  | _ => False

/-- A part of a plan gives what is said of it, or fails in a way that is allowed for. -/
def Meets {α : Type} (F : Error → Prop) (P : α → Prop) : Except Error α → Prop
  | .ok x => P x
  | .error e => F e

namespace Meets

variable {α β : Type} {F : Error → Prop} {P : α → Prop} {Q : β → Prop} {x : Except Error α}
  {f : α → Except Error β}

theorem mono {P' : α → Prop} (meets : Meets F P x) (weaker : ∀ a, P a → P' a) : Meets F P' x := by
  cases x with
  | ok a => exact weaker a meets
  | error e => exact meets

theorem relax {F' : Error → Prop} (meets : Meets F P x) (wider : ∀ e, F e → F' e) : Meets F' P x := by
  cases x with
  | ok a => exact meets
  | error e => exact wider e meets

theorem bind (first : Meets F P x) (second : ∀ a, P a → Meets F Q (f a)) : Meets F Q (x >>= f) := by
  cases x with
  | ok a => exact second a first
  | error e => exact first

theorem bind_ok {a : α} (second : Meets F Q (f a)) : Meets F Q (Except.ok a >>= f) := second

/-- What is given where a part does not fail. -/
theorem of_eq_ok (yields : Meets F (fun _ => True) x) (given : ∀ a, x = .ok a → P a) : Meets F P x := by
  cases x with
  | ok a => exact given a rfl
  | error e => exact yields

/-- What is said of a result is said of it as that result. -/
theorem with_eq (meets : Meets F P x) : Meets F (fun a => x = .ok a ∧ P a) x := by
  cases x with
  | ok a => exact ⟨rfl, meets⟩
  | error e => exact meets

/-- A walk over a list fails only as a step of it does, and each step gives its own. -/
theorem mapM_forall₂ {R : α → β → Prop} {xs : List α} (each : ∀ a ∈ xs, Meets F (R a) (f a)) :
    Meets F (List.Forall₂ R xs) (xs.mapM f) := by
  induction xs with
  | nil => exact List.Forall₂.nil
  | cons a xs ih =>
    rw [List.forall_mem_cons] at each
    rw [List.mapM_cons]
    exact bind each.1 fun _ first => bind (ih each.2) fun _ rest => List.Forall₂.cons first rest

theorem mapM {xs : List α} (each : ∀ a ∈ xs, Meets F Q (f a)) :
    Meets F (fun ys => ∀ y ∈ ys, Q y) (xs.mapM f) :=
  (mapM_forall₂ (R := fun _ => Q) each).mono fun _ all _ member =>
    (all.flip.exists_of_mem member).choose_spec.2

theorem forM {f : α → Except Error PUnit} {xs : List α}
    (each : ∀ a ∈ xs, Meets F (fun _ => True) (f a)) : Meets F (fun _ => True) (xs.forM f) := by
  induction xs with
  | nil => trivial
  | cons a xs ih =>
    rw [List.forall_mem_cons] at each
    exact bind each.1 fun _ _ => ih each.2

end Meets

namespace PatchTask

variable {t : PatchTask} {a b k : Key} {s : Splice} {name : String}

/-- The splice of the text beside the document, where that text differs. -/
def edge (read live : String) (start stop : Int) : List Splice :=
  if read = live then [] else [⟨start, stop, live⟩]

/-- The splice of the text before the document. -/
def leadingEdge (t : PatchTask) : List Splice :=
  edge t.read.leading t.live.leading 0 t.read.leading.length

/-- The splice of the text after the document. -/
def trailingEdge (t : PatchTask) : List Splice :=
  edge t.read.trailing t.live.trailing (t.text.length - t.read.trailing.length) t.text.length

/-- All that came to a node can be shown. -/
def ShowsCome (t : PatchTask) (b : Key) : Prop :=
  ∀ k ∈ t.live.children b, t.known k = false → ∃ text, t.liveText k = .ok text

/-- How a plan may fail: so that the document is written anew, or as a node that cannot be shown, a slot
that no frame can be had for, or a text beside the document that is none. -/
inductive Falters (t : PatchTask) : Error → Prop
  | yields {e : Error} : e.Yields → Falters t e
  | shown {e : Error} {k : Key} : t.live.Holds k → t.liveText k = .error e → Falters t e
  | framed {e : Error} {a : Key} {slot : String} : t.read.Holds a →
    (t.read.frame t.config a slot).mapError .misfit = .error e → Falters t e
  | beside {e : Error} : t.edgeSplices = .error e → Falters t e

/-- What a plan settles: the top level was kept, the splices are those that are asked for, and all that came
or is shown anew can be shown. -/
structure Carries (t : PatchTask) (plan : SplicePlan) : Prop where
  stayed : ∀ {a}, t.read.Holds a → (t.read.node a).owner = none → ∃ b, Partners t.read t.live a b
  known : ∀ {b}, t.live.Holds b → (t.live.node b).owner = none → ∃ a, Partners t.read t.live a b
  settled : ∃ edges, t.edgeSplices = .ok (edges.map Draft.ofSplice) ∧
    (∀ s ∈ edges, s.start = 0 ∧ s.stop = (t.read.leading.length : Int) ∨
      s.start = (t.text.length - t.read.trailing.length : Int) ∧ s.stop = (t.text.length : Int)) ∧
    t.Settled edges plan.splices
  came : ∀ {a b}, Partners t.read t.live a b → t.ShowsCome b
  anew : ∀ {a b}, Partners t.read t.live a b → t.Renewed a b → ∃ text, t.liveText b = .ok text

/-- A change of a field as the changes list it. -/
def fieldChange (t : PatchTask) (a b : Key) (name : String) : FieldChange :=
  ⟨(t.read.node a).id, name, (t.read.node a).fields.get? name, (t.live.node b).fields.get? name⟩

namespace Situated

variable (situated : t.Situated)
include situated

/-! ### The top level -/

/-- The top level is as it was, so nodes that no slot holds have partners. -/
theorem meets_checkTopLevel : Meets Error.Yields (fun _ =>
    (∀ {a}, t.read.Holds a → (t.read.node a).owner = none → ∃ b, Partners t.read t.live a b) ∧
      ∀ {b}, t.live.Holds b → (t.live.node b).owner = none → ∃ a, Partners t.read t.live a b)
    t.checkTopLevel := by
  refine Meets.of_eq_ok ?_ fun _ checked => situated.partners_of_checkTopLevel checked
  -- Every node that is listed is found, so all that can be raised is a conflict.
  · refine Meets.bind (Meets.forM fun node member => ?_) fun _ _ => Meets.forM fun node member => ?_
    · obtain ⟨ks, _, each, ids⟩ := situated.tells.deleted
      have id := List.mem_map_of_mem (f := Specimen.id) member
      rw [ids] at id
      obtain ⟨k, gone, same⟩ := List.mem_map.1 id
      rw [← same]
      refine Meets.bind (P := fun _ => True) ?_ fun _ _ => ?_
      · rw [nodeIn_id situated.soundRead ((each k).1 gone).1]
        trivial
      · split <;> trivial
    · obtain ⟨ks, _, each, same⟩ := situated.tells.created
      have id := List.mem_map_of_mem (f := fun node : Specimen =>
        (node.id, node.kind, node.content.fields)) member
      rw [same] at id
      obtain ⟨k, came, same⟩ := List.mem_map.1 id
      have called : (t.live.node k).id = node.id := congrArg Prod.fst same
      rw [← called]
      refine Meets.bind (P := fun _ => True) ?_ fun _ _ => ?_
      · rw [nodeIn_id situated.soundLive ((each k).1 came).1]
        trivial
      · split <;> trivial

/-! ### Fields -/

/-- The changes list each field of a node that another one has become and that has another text. -/
theorem mem_fieldChanges {change : FieldChange} : change ∈ t.changes.fieldChanges ↔
    ∃ a b name, Partners t.read t.live a b ∧
      (t.read.node a).fields.get? name ≠ (t.live.node b).fields.get? name ∧
        change = t.fieldChange a b name := by
  obtain ⟨ps, _, pairs, listed⟩ := situated.tells.changed
  rw [listed, List.mem_flatMap]
  constructor
  · rintro ⟨⟨a, b⟩, inside, member⟩
    obtain ⟨name, _, found⟩ := List.mem_filterMap.1 member
    split at found
    · cases found
    · next differ =>
      cases found
      exact ⟨a, b, name, (pairs a b).1 inside, differ, rfl⟩
  · rintro ⟨a, b, name, partners, differ, rfl⟩
    refine ⟨(a, b), (pairs a b).2 partners, List.mem_filterMap.2 ⟨name, ?_, if_neg differ⟩⟩
    -- A field that differs is set on one side at least, so its name is among those compared.
    rw [Dict.mem_keys_ofList, List.map_append, List.mem_append]
    cases old : (t.read.node a).fields.get? name with
    | some value => exact .inl (List.mem_map_of_mem (Dict.mem_entries_iff.2 old))
    | none =>
      cases new : (t.live.node b).fields.get? name with
      | some value => exact .inr (List.mem_map_of_mem (Dict.mem_entries_iff.2 new))
      | none => exact absurd (old.trans new.symm) differ

/-- A field that differs has another text, or it is there on one side only. -/
theorem retextedAt_or (partners : Partners t.read t.live a b)
    (differ : (t.read.node a).fields.get? name ≠ (t.live.node b).fields.get? name) :
    (∃ s, t.RetextedAt a b name s) ∨
      ((t.read.node a).fields.get? name).isSome ≠ ((t.live.node b).fields.get? name).isSome := by
  -- Both sides have the field, and then its text is replaced, or just one of them has.
  cases old : (t.read.node a).fields.get? name with
  | none =>
    cases new : (t.live.node b).fields.get? name with
    | none => exact absurd (old.trans new.symm) differ
    | some value => exact .inr (by simp)
  | some text =>
    cases new : (t.live.node b).fields.get? name with
    | none => exact .inr (by simp)
    | some value =>
      obtain ⟨lo, hi, written⟩ :=
        (situated.seated (partners.holds_left situated.soundRead)).exists_written old
      refine .inl ⟨_, text, value, lo, hi, old, new, ?_, written.field, rfl⟩
      rintro rfl
      exact differ (old.trans new.symm)

theorem fieldEdit_of_retextedAt (partners : Partners t.read t.live a b)
    (at_ : t.RetextedAt a b name s) :
    t.fieldEdit (t.fieldChange a b name) = .ok (.inl (.ofSplice s)) := by
  obtain ⟨text, value, lo, hi, old, new, _, ⟨origin', span, known', there, covers⟩, rfl⟩ := at_
  have held := partners.holds_left situated.soundRead
  obtain ⟨origin, found, known, _⟩ := situated.exists_origin held
  obtain rfl : origin' = origin := Option.some.inj (known'.symm.trans known)
  simp [fieldEdit, fieldChange, bind, Except.bind, nodeIn_id situated.soundRead held, found, old, new,
    there, covers.given, Draft.ofSplice, pure, Except.pure]

theorem fieldEdit_of_isSome_ne (partners : Partners t.read t.live a b)
    (differ : ((t.read.node a).fields.get? name).isSome ≠
      ((t.live.node b).fields.get? name).isSome) :
    t.fieldEdit (t.fieldChange a b name) = .ok (.inr a) := by
  have held := partners.holds_left situated.soundRead
  obtain ⟨origin, found, _, _⟩ := situated.exists_origin held
  cases old : (t.read.node a).fields.get? name <;>
    cases new : (t.live.node b).fields.get? name <;>
    simp [old, new] at differ <;>
    simp [fieldEdit, fieldChange, bind, Except.bind, nodeIn_id situated.soundRead held, found, old, new,
      pure, Except.pure]

/-- The edits of the fields: splices for those that have another text, and the nodes to show anew. -/
theorem exists_edits : ∃ edits, t.changes.fieldChanges.mapM t.fieldEdit = .ok edits ∧
    (∀ d, .inl d ∈ edits ↔ ∃ a b s, Partners t.read t.live a b ∧ t.Retexted a b s ∧ d = .ofSplice s) ∧
      ∀ a, .inr a ∈ edits ↔ ∃ b, Partners t.read t.live a b ∧ t.Renewed a b := by
  have each : ∀ change ∈ t.changes.fieldChanges, ∃ e, t.fieldEdit change = .ok e := by
    intro change member
    obtain ⟨a, b, name, partners, differ, rfl⟩ := situated.mem_fieldChanges.1 member
    rcases situated.retextedAt_or partners differ with ⟨s, at_⟩ | one
    · exact ⟨_, situated.fieldEdit_of_retextedAt partners at_⟩
    · exact ⟨_, situated.fieldEdit_of_isSome_ne partners one⟩
  obtain ⟨edits, ran⟩ := Except.exists_mapM each
  -- What an edit is tells which of the two its field did.
  have edit : ∀ e ∈ edits, (∃ a b name s, Partners t.read t.live a b ∧ t.RetextedAt a b name s ∧
      e = .inl (.ofSplice s)) ∨ ∃ a b, Partners t.read t.live a b ∧ t.Renewed a b ∧ e = .inr a := by
    intro e member
    obtain ⟨change, listed, had⟩ := Except.mem_of_mapM ran member
    obtain ⟨a, b, name, partners, differ, rfl⟩ := situated.mem_fieldChanges.1 listed
    rcases situated.retextedAt_or partners differ with ⟨s, at_⟩ | one
    · exact .inl ⟨a, b, name, s, partners, at_,
        Except.ok.inj (had.symm.trans (situated.fieldEdit_of_retextedAt partners at_))⟩
    · exact .inr ⟨a, b, partners, ⟨name, one⟩,
        Except.ok.inj (had.symm.trans (situated.fieldEdit_of_isSome_ne partners one))⟩
  have given : ∀ {a b name e}, Partners t.read t.live a b →
      (t.read.node a).fields.get? name ≠ (t.live.node b).fields.get? name →
        t.fieldEdit (t.fieldChange a b name) = .ok e → e ∈ edits := by
    intro a b name e partners differ had
    obtain ⟨e', member, had'⟩ := Except.exists_of_mapM ran
      (situated.mem_fieldChanges.2 ⟨a, b, name, partners, differ, rfl⟩)
    exact Except.ok.inj (had'.symm.trans had) ▸ member
  refine ⟨edits, ran, fun d => ⟨fun member => ?_, ?_⟩, fun a => ⟨fun member => ?_, ?_⟩⟩
  · rcases edit _ member with ⟨a, b, name, s, partners, at_, is⟩ | ⟨_, _, _, _, is⟩
    · exact ⟨a, b, s, partners, ⟨name, at_⟩, Sum.inl.inj is⟩
    · cases is
  · rintro ⟨a, b, s, partners, ⟨name, at_⟩, rfl⟩
    obtain ⟨text, value, _, _, old, new, changed, _⟩ := id at_
    refine given partners (fun same => changed ?_) (situated.fieldEdit_of_retextedAt partners at_)
    rw [old, new] at same
    exact Option.some.inj same
  · rcases edit _ member with ⟨_, _, _, _, _, _, is⟩ | ⟨a', b, partners, renewed, is⟩
    · cases is
    · cases is
      exact ⟨b, partners, renewed⟩
  · rintro ⟨b, partners, name, differ⟩
    exact given partners (fun same => differ (by rw [same]))
      (situated.fieldEdit_of_isSome_ne partners differ)

/-! ### Slots whose chains changed -/

omit situated in
/-- The slot of a link belongs to a node, or the chain is at top level. -/
theorem meets_slotOf {m : Model} (sound : m.Sound) (held : m.Holds k) (slot : String) :
    Meets Error.Yields (fun owned => m.Holds owned.1) (slotOf m k slot) := by
  unfold slotOf
  split
  · rw [Model.container?]
    cases owned : (m.node k).owner with
    | none => trivial
    | some owner => exact sound.holds_of_over held (sound.over_of_owner held owned).1
  · exact held

/-- The node that an added link starts from is found, if maybe under the id that another node had. -/
theorem exists_nodeIn_carry (held : t.live.Holds k) : ∃ p, t.live.Holds p ∧
    nodeIn t.live ((t.changes.newId? (t.changes.carry (t.live.node k).id)).getD
      (t.changes.carry (t.live.node k).id)) = .ok p ∧ ∀ a, Partners t.read t.live a k → p = k := by
  have maps := situated.tells.toMaps
  by_cases partner : ∃ a, Partners t.read t.live a k
  · -- It is listed under its partner's id, which leads back to it.
    obtain ⟨a, partners⟩ := partner
    refine ⟨k, held, ?_, fun _ _ => rfl⟩
    rw [maps.carry_of_partners situated.soundLive partners,
      maps.newId?_of_partners situated.soundRead partners]
    exact nodeIn_id situated.soundLive held
  · -- It is listed under its own id, which may be one that some other node had before.
    rw [maps.carry_of_lone situated.soundLive held (not_exists.1 partner)]
    cases found : t.changes.newId? (t.live.node k).id with
    | none => exact ⟨k, held, nodeIn_id situated.soundLive held, fun _ _ => rfl⟩
    | some id =>
      obtain ⟨⟨x, y⟩, entry, rfl⟩ := Option.map_eq_some_iff.1 found
      obtain ⟨a, p, partners, rfl, _⟩ := maps.mem_idMap.1 (List.mem_of_find?_eq_some entry)
      have heldP := partners.holds_right situated.soundLive
      exact ⟨p, heldP, nodeIn_id situated.soundLive heldP, fun a one => absurd ⟨a, one⟩ partner⟩

theorem meets_slotRemovedFrom {link : Link} (member : link ∈ t.changes.removedLinks) :
    Meets Error.Yields (fun slot => ∀ owned ∈ slot, ∃ b, Partners t.read t.live owned.1 b)
      (t.slotRemovedFrom link) := by
  obtain ⟨js, _, each, listed⟩ := situated.tells.removed
  rw [listed] at member
  obtain ⟨j, lost, rfl⟩ := List.mem_map.1 member
  have held := ((each j).1 lost).1.1
  -- The link is looked up where it was, and its slot counts only if the owner stayed.
  refine Meets.bind (P := (· = j.parent)) ?_ ?_
  · rw [nodeIn_id situated.soundRead held]
    exact rfl
  · rintro _ rfl
    refine (meets_slotOf situated.soundRead held _).bind ?_
    rintro ⟨owner, slot⟩ above
    change ∀ owned ∈ (if t.stayed owner then some (owner, slot) else none), _
    intro owned is
    split at is
    · next stays =>
      cases is
      exact (situated.stayed_iff above).1 stays
    · cases is

theorem meets_slotAddedTo {link : Link} (member : link ∈ t.changes.addedLinks) :
    Meets Error.Yields (fun slot => ∀ owned ∈ slot, ∃ b, Partners t.read t.live owned.1 b)
      (t.slotAddedTo link) := by
  obtain ⟨js, _, each, listed⟩ := situated.tells.added
  rw [listed] at member
  obtain ⟨j, came, rfl⟩ := List.mem_map.1 member
  obtain ⟨p, held, found, _⟩ := situated.exists_nodeIn_carry ((each j).1 came).1.1
  refine Meets.bind (P := (· = p)) ?_ ?_
  · rw [found]
    exact rfl
  · rintro _ rfl
    refine (meets_slotOf situated.soundLive held _).bind ?_
    rintro ⟨owner, slot⟩ above
    -- A slot of a new node is not one of the old text.
    by_cases partner : ∃ a, Partners t.read t.live a owner
    · obtain ⟨a, partners⟩ := partner
      simp only [situated.tells.oldId?_of_partners situated.soundLive partners,
        nodeIn_id situated.soundRead (partners.holds_left situated.soundRead)]
      intro owned is
      cases is
      exact ⟨owner, partners⟩
    · simp only [situated.tells.oldId?_of_lone situated.soundLive above (not_exists.1 partner)]
      exact fun _ none_ => nomatch none_

/-- Every slot that changed belongs to a node that stayed. -/
theorem meets_affectedSlots : Meets Error.Yields (fun slots => ∀ slot ∈ slots,
    ∃ b, Partners t.read t.live slot.1 b) t.affectedSlots := by
  refine Meets.bind (Meets.mapM fun link member => situated.meets_slotRemovedFrom member)
    fun removed each => Meets.bind (Meets.mapM fun link member => situated.meets_slotAddedTo member)
      fun added each' slot member => ?_
  obtain ⟨owned, inside, is⟩ := List.mem_filterMap.1 (List.mem_eraseDups.1 member)
  rcases List.mem_append.1 inside with early | late
  · exact each owned early slot is
  · exact each' owned late slot is

/-- The slot that was given a link is affected if the link's parent stayed. -/
theorem mem_affectedSlots_of_added {slots : List (Key × String)} {link : Joint}
    (affected : t.affectedSlots = .ok slots) (joins : t.live.Joins link)
    (came : ¬ ∃ link', t.read.Joins link' ∧ JointPartners t.read t.live link' link)
    (stayed : Partners t.read t.live k link.parent) (owned : (t.live.node link.child).owner = some b)
    (partners : Partners t.read t.live a b) : (a, (t.read.node a).edgeName .child) ∈ slots := by
  simp only [affectedSlots, bind, Except.bind, pure, Except.pure] at affected
  split at affected
  · cases affected
  · next removed fromRemoved =>
    split at affected
    · cases affected
    · next added fromAdded =>
      cases affected
      -- The link is one of those that the changes add, so its slot was looked for and found.
      obtain ⟨js, _, member, listed⟩ := situated.tells.added
      have inside := List.mem_map_of_mem (f := fun j : Joint =>
        (⟨t.changes.carry (t.live.node j.parent).id, (t.live.node j.parent).edgeName j.edge,
          t.changes.carry (t.live.node j.child).id⟩ : Link)) ((member link).2 ⟨joins, came⟩)
      rw [← listed] at inside
      obtain ⟨slot, there, found⟩ := Except.exists_of_mapM fromAdded inside
      obtain ⟨p, _, here, same⟩ := situated.exists_nodeIn_carry joins.1
      obtain rfl := same k stayed
      have sameName := Node.edgeName_congr partners.kind_eq .child
      have is : slot = some (a, (t.read.node a).edgeName .child) := by
        simp only [slotAddedTo, bind, Except.bind, here, slotOf_eq_ok situated.soundLive joins owned,
          situated.tells.oldId?_of_partners situated.soundLive partners,
          nodeIn_id situated.soundRead (partners.holds_left situated.soundRead), pure, Except.pure,
          ← sameName] at found
        exact (Except.ok.inj found).symm
      rw [List.mem_eraseDups, List.mem_filterMap]
      exact ⟨slot, List.mem_append_right _ there, by rw [is]; rfl⟩

omit situated in
/-- Where a link leads to belongs to the slot that the link belongs to. -/
theorem owner_of_target {m : Model} (sound : m.Sound) {p c : Key} {e : Edge} (held : m.Holds p)
    (leads : (m.node p).target? e = some c) : (m.node c).owner = m.ownerAt p e := by
  obtain ⟨child, parent⟩ := sound.back held leads
  rw [sound.owner child, parent]
  rfl

/-- In a slot that is not affected partners lead on to partners. -/
theorem exists_target_of_unaffected {slots : List (Key × String)} {p p' : Key} {e : Edge}
    (affected : t.affectedSlots = .ok slots) (partners : Partners t.read t.live a b)
    (free : (a, (t.read.node a).edgeName .child) ∉ slots) (one : Partners t.read t.live p p')
    (owned : t.read.ownerAt p e = some a) (owned' : t.live.ownerAt p' e = some b) :
    ((t.read.node p).target? e = none ∧ (t.live.node p').target? e = none) ∨
      ∃ c c', (t.read.node p).target? e = some c ∧ (t.live.node p').target? e = some c' ∧
        Partners t.read t.live c c' := by
  have heldP := one.holds_left situated.soundRead
  have heldP' := one.holds_right situated.soundLive
  cases leads : (t.read.node p).target? e with
  | some c =>
    refine .inr ⟨c, ?_⟩
    -- A link that is not there on the other side was lost, which makes the slot an affected one.
    by_contra none_
    have joins : t.read.Joins ⟨p, e, c⟩ := ⟨heldP, leads⟩
    refine free (situated.mem_affectedSlots_of_removed affected joins ?_
      ((owner_of_target situated.soundRead heldP leads).trans owned)
      ((situated.stayed_iff (partners.holds_left situated.soundRead)).2 ⟨b, partners⟩))
    rintro ⟨⟨q, e', c'⟩, joins', above, edge, below⟩
    obtain rfl : p' = q := one.right_unique situated.soundRead above
    obtain rfl : e = e' := edge
    exact none_ ⟨c', rfl, joins'.2, below⟩
  | none =>
    refine .inl ⟨rfl, ?_⟩
    cases leads' : (t.live.node p').target? e with
    | none => rfl
    | some c' =>
      have joins : t.live.Joins ⟨p', e, c'⟩ := ⟨heldP', leads'⟩
      refine absurd (situated.mem_affectedSlots_of_added affected joins ?_ one
        ((owner_of_target situated.soundLive heldP' leads').trans owned') partners) free
      rintro ⟨⟨q, e', c⟩, joins', above, edge, _⟩
      obtain rfl : q = p := above.left_unique situated.soundLive one
      obtain rfl : e' = e := edge
      rw [joins'.2] at leads
      cases leads

/-- A chain that is not affected became that of the partner, sibling by sibling. -/
theorem forall₂_children_of_unaffected {slots : List (Key × String)}
    (affected : t.affectedSlots = .ok slots) (partners : Partners t.read t.live a b)
    (free : (a, (t.read.node a).edgeName .child) ∉ slots) :
    List.Forall₂ (Partners t.read t.live) (t.read.children a) (t.live.children b) := by
  have soundRead := situated.soundRead
  have soundLive := situated.soundLive
  -- The induction is along the chain, from a sibling to the next one.
  have behind : ∀ {x}, t.read.Holds x → ∀ {x'}, Partners t.read t.live x x' →
      (t.read.node x).owner = some a → (t.live.node x').owner = some b →
        List.Forall₂ (Partners t.read t.live) (t.read.chainAt (some x))
          (t.live.chainAt (some x')) := by
    intro x held
    refine soundRead.descend (motive := fun x => ∀ {x'}, Partners t.read t.live x x' →
      (t.read.node x).owner = some a → (t.live.node x').owner = some b →
        List.Forall₂ (Partners t.read t.live) (t.read.chainAt (some x))
          (t.live.chainAt (some x'))) ?_ held
    intro x held ih x' one owned owned'
    have held' := one.holds_right soundLive
    rw [soundRead.chainAt_some held, soundLive.chainAt_some held']
    refine .cons one ?_
    rcases situated.exists_target_of_unaffected affected partners free (e := .next) one owned owned'
      with ⟨ends, ends'⟩ | ⟨c, c', leads, leads', next⟩
    · rw [show (t.read.node x).next = none from ends, show (t.live.node x').next = none from ends',
        Model.chainAt_none, Model.chainAt_none]
      exact .nil
    · rw [show (t.read.node x).next = some c from leads,
        show (t.live.node x').next = some c' from leads']
      exact ih c ⟨.next, leads⟩ next ((owner_of_target soundRead held leads).trans owned)
        ((owner_of_target soundLive held' leads').trans owned')
  have heldA := partners.holds_left soundRead
  have heldB := partners.holds_right soundLive
  rw [Model.children_eq, Model.children_eq]
  rcases situated.exists_target_of_unaffected affected partners free (e := .child) partners rfl rfl
    with ⟨ends, ends'⟩ | ⟨c, c', leads, leads', first⟩
  · rw [show (t.read.node a).head = none from ends, show (t.live.node b).head = none from ends',
      Model.chainAt_none, Model.chainAt_none]
    exact .nil
  · rw [show (t.read.node a).head = some c from leads,
      show (t.live.node b).head = some c' from leads']
    exact behind (first.holds_left soundRead) first (owner_of_target soundRead heldA leads)
      (owner_of_target soundLive heldB leads')

/-- In a slot that is not affected nothing came, and nothing is asked for. -/
theorem quiet_of_unaffected {slots : List (Key × String)} (affected : t.affectedSlots = .ok slots)
    (partners : Partners t.read t.live a b) (free : (a, (t.read.node a).edgeName .child) ∉ slots) :
    t.InOrder a b ∧ t.slotPlan a b = [] ∧ t.ShowsCome b := by
  have same := situated.forall₂_children_of_unaffected affected partners free
  obtain ⟨inOrder, unplanned⟩ := situated.inOrder_of_partners partners same
  refine ⟨inOrder, unplanned, fun k child came => ?_⟩
  obtain ⟨c, _, one⟩ := same.flip.exists_of_mem child
  have held := situated.holds_child_live (partners.holds_right situated.soundLive) child
  rw [(situated.known_iff held).2 ⟨c, one⟩] at came
  cases came

/-! ### Splices of slots -/

/-- The splices of a slot of a node that stayed are those of its gaps, if what stayed is in order, and all
that came can be shown. -/
theorem meets_slotSplices (partners : Partners t.read t.live a b) (slot : String) :
    Meets t.Falters (fun drafts => (slot ≠ (t.read.node a).edgeName .child → drafts = []) ∧
      (slot = (t.read.node a).edgeName .child → t.InOrder a b ∧
        drafts = (t.slotPlan a b).map Draft.ofSplice ∧ t.ShowsCome b)) (t.slotSplices a slot) := by
  have heldA := partners.holds_left situated.soundRead
  have heldB := partners.holds_right situated.soundLive
  by_cases own : slot = (t.read.node a).edgeName .child
  · subst own
    by_cases inOrder : t.InOrder a b
    · have slotted : t.read.Slotted a ∨ (t.read.node a).kind = .scalar := by
        by_cases kind : (t.read.node a).kind = .scalar
        · exact .inr kind
        · obtain ⟨_, _, rowed⟩ := (situated.seated heldA).exists_rowed kind
          exact .inl rowed.toSlotted
      obtain ⟨first, first', rest, rest', cut, gaps⟩ := situated.exists_cut partners inOrder
      rw [situated.slotSplices_eq slotted partners inOrder]
      -- A gap fails only as a node that came into it, and else all of these are shown.
      refine (Meets.mapM_forall₂ (R := fun gap draft => draft = .ofSplice (t.spliceOf a gap) ∧
        ∀ k ∈ gap.created, ∃ text, t.liveText k = .ok text) fun gap inside => ?_).mono
        fun drafts all => ⟨fun differ => absurd rfl differ, fun _ => ⟨inOrder, ?_, ?_⟩⟩
      · have member := (List.mem_filter.1 inside).1
        rw [gaps] at member
        have each : ∀ k ∈ gap.created, Meets t.Falters (fun _ => True) (t.liveText k) := by
          intro k came
          have held := situated.holds_child_live heldB ((cut.mem_children member).2.2.2 k came)
          cases had : t.liveText k with
          | ok text => trivial
          | error e => exact .shown held had
        cases had : gap.created.mapM t.liveText with
        | ok texts => exact ⟨rfl, fun k came => (Except.exists_of_mapM had came).imp fun _ => And.right⟩
        | error e =>
          have fails := Meets.mapM each
          rw [had] at fails
          exact fails
      · rw [slotPlan, List.map_map, ← List.forall₂_eq_eq_eq, List.forall₂_map_right_iff]
        exact all.flip.imp fun _ _ => And.left
      · intro k child came
        obtain ⟨gap, member, inside⟩ := situated.exists_gap_of_lone cut heldB child came
        rw [← gaps] at member
        have stirs : gap.stirred = true := by
          cases come : gap.created with
          | nil => simp [come] at inside
          | cons c rest => simp [Gap.stirred, come]
        obtain ⟨draft, _, _, shows⟩ := all.exists_of_mem (List.mem_filter.2 ⟨member, stirs⟩)
        exact shows k inside
    · -- What stayed but moved is a conflict.
      have newChain := situated.soundLive.childrenAt_edgeName heldB
      rw [← Node.edgeName_congr partners.kind_eq .child] at newChain
      unfold slotSplices
      rw [situated.becameOf_of_partners partners]
      simp only [bind, Except.bind, situated.soundRead.childrenAt_edgeName heldA, newChain]
      rw [if_pos (by simpa [InOrder] using inOrder)]
      exact .yields trivial
  · -- A node has no other slot.
    have none_ : ∀ {m : Model} {k : Key}, (m.node k).kind = (t.read.node a).kind →
        m.childrenAt k slot = [] := by
      intro m k kind
      refine if_neg fun named => own ?_
      rw [Node.edgeName, ← kind, named]
      rfl
    unfold slotSplices
    rw [situated.becameOf_of_partners partners]
    simp only [bind, Except.bind, none_ (m := t.read) rfl, none_ (m := t.live) partners.kind_eq.symm]
    rw [if_neg (by simp)]
    cases framed : (t.read.frame t.config a slot).mapError Error.misfit with
    | error e => exact .framed heldA framed
    | ok frame => exact ⟨fun _ => rfl, fun same => absurd same own⟩

/-- The splices of all slots that changed are those of the gaps of all nodes that stayed. -/
theorem meets_pieces {slots : List (Key × String)} (affected : t.affectedSlots = .ok slots)
    (owned : ∀ slot ∈ slots, ∃ b, Partners t.read t.live slot.1 b) :
    Meets t.Falters (fun pieces =>
      (∀ {a b}, Partners t.read t.live a b → t.InOrder a b ∧ t.ShowsCome b) ∧
        ∀ d, d ∈ pieces.flatten ↔
          ∃ a b s, Partners t.read t.live a b ∧ s ∈ t.slotPlan a b ∧ d = .ofSplice s)
      (slots.mapM fun slot => t.slotSplices slot.1 slot.2) := by
  have yields : Meets t.Falters (fun _ => True) (slots.mapM fun slot => t.slotSplices slot.1 slot.2) :=
    (Meets.mapM (Q := fun _ => True) fun slot member => by
      obtain ⟨b, partners⟩ := owned slot member
      exact (situated.meets_slotSplices partners slot.2).mono fun _ _ => trivial).mono
        fun _ _ => trivial
  refine yields.of_eq_ok fun pieces ran => ?_
  -- What the slot of a node that stayed gives, if the slot changed.
  have given : ∀ {a b}, Partners t.read t.live a b →
      (a, (t.read.node a).edgeName .child) ∈ slots → (t.InOrder a b ∧ t.ShowsCome b) ∧
        (t.slotPlan a b).map Draft.ofSplice ∈ pieces := by
    intro a b partners member
    obtain ⟨drafts, inside, had⟩ := Except.exists_of_mapM ran member
    have meets := situated.meets_slotSplices partners ((t.read.node a).edgeName .child)
    rw [had] at meets
    obtain ⟨inOrder, rfl, shows⟩ := meets.2 rfl
    exact ⟨⟨inOrder, shows⟩, inside⟩
  refine ⟨fun {a b} partners => ?_, fun d => ⟨fun member => ?_, ?_⟩⟩
  · by_cases member : (a, (t.read.node a).edgeName .child) ∈ slots
    · exact (given partners member).1
    · obtain ⟨inOrder, _, shows⟩ := situated.quiet_of_unaffected affected partners member
      exact ⟨inOrder, shows⟩
  · obtain ⟨piece, inside, member⟩ := List.mem_flatten.1 member
    obtain ⟨⟨a, slot⟩, listed, had⟩ := Except.mem_of_mapM ran inside
    obtain ⟨b, partners⟩ := owned _ listed
    have meets := situated.meets_slotSplices partners slot
    rw [had] at meets
    by_cases own : slot = (t.read.node a).edgeName .child
    · obtain ⟨_, rfl, _⟩ := meets.2 own
      obtain ⟨s, planned, rfl⟩ := List.mem_map.1 member
      exact ⟨a, b, s, partners, planned, rfl⟩
    · rw [meets.1 own] at member
      cases member
  · rintro ⟨a, b, s, partners, planned, rfl⟩
    by_cases member : (a, (t.read.node a).edgeName .child) ∈ slots
    · exact List.mem_flatten.2 ⟨_, (given partners member).2, List.mem_map_of_mem planned⟩
    · rw [(situated.quiet_of_unaffected affected partners member).2.1] at planned
      cases planned

/-! ### Nodes shown anew -/

/-- The nodes that are shown anew, each with the stretch that it takes up. -/
theorem meets_whole {renewed : List Key}
    (each : ∀ a, a ∈ renewed ↔ ∃ b, Partners t.read t.live a b ∧ t.Renewed a b) :
    Meets t.Falters (fun whole =>
      (∀ d, d ∈ whole.map Prod.fst ↔ ∃ a b, Partners t.read t.live a b ∧ t.Renewed a b ∧
        d = .ofSplice (t.wholeSplice a b)) ∧
      (∀ span ∈ whole.map Prod.snd, ∃ a b, Partners t.read t.live a b ∧ t.Renewed a b ∧
        span.Covers (t.read.startOf a) (t.read.stopOf a)) ∧
      ∀ {a b}, Partners t.read t.live a b → t.Renewed a b → (∃ text, t.liveText b = .ok text) ∧
        ∃ span ∈ whole.map Prod.snd, span.Covers (t.read.startOf a) (t.read.stopOf a))
      (renewed.mapM t.wholeNode) := by
  -- Every node that stayed has an origin, and all that may fail is to show what it became.
  have shows : ∀ {a b}, Partners t.read t.live a b → Meets t.Falters (fun p =>
      p.1 = .ofSplice (t.wholeSplice a b) ∧ p.2.Covers (t.read.startOf a) (t.read.stopOf a) ∧
        ∃ text, t.liveText b = .ok text) (t.wholeNode a) := by
    intro a b partners
    obtain ⟨origin, found, _, covers⟩ := situated.exists_origin (partners.holds_left situated.soundRead)
    simp only [wholeNode, bind, Except.bind, found, situated.becameOf_of_partners partners]
    cases had : t.liveText b with
    | error e => exact .shown (partners.holds_right situated.soundLive) had
    | ok text =>
      have same : t.shown b = text := by rw [PatchTask.shown, had]; rfl
      refine ⟨?_, covers, text, rfl⟩
      simp [wholeSplice, covers.given, Draft.ofSplice, same]
  refine (Meets.mapM_forall₂ (R := fun a p => ∃ b, Partners t.read t.live a b ∧ t.Renewed a b ∧
    p.1 = .ofSplice (t.wholeSplice a b) ∧ p.2.Covers (t.read.startOf a) (t.read.stopOf a) ∧
      ∃ text, t.liveText b = .ok text) fun a member => ?_).mono fun whole all => ?_
  · obtain ⟨b, partners, anew⟩ := (each a).1 member
    exact (shows partners).mono fun p had => ⟨b, partners, anew, had⟩
  have piece : ∀ p ∈ whole, ∃ a b, Partners t.read t.live a b ∧ t.Renewed a b ∧
      p.1 = .ofSplice (t.wholeSplice a b) ∧ p.2.Covers (t.read.startOf a) (t.read.stopOf a) := by
    intro p member
    obtain ⟨a, _, b, partners, anew, is, covers, _⟩ := all.flip.exists_of_mem member
    exact ⟨a, b, partners, anew, is, covers⟩
  have given : ∀ {a b}, Partners t.read t.live a b → t.Renewed a b → ∃ p ∈ whole,
      p.1 = .ofSplice (t.wholeSplice a b) ∧ p.2.Covers (t.read.startOf a) (t.read.stopOf a) ∧
        ∃ text, t.liveText b = .ok text := by
    intro a b partners anew
    obtain ⟨p, member, b', partners', _, had⟩ := all.exists_of_mem ((each a).2 ⟨b, partners, anew⟩)
    obtain rfl := partners.right_unique situated.soundRead partners'
    exact ⟨p, member, had⟩
  refine ⟨fun d => ⟨fun member => ?_, ?_⟩, fun span member => ?_, fun partners anew => ?_⟩
  · obtain ⟨p, inside, rfl⟩ := List.mem_map.1 member
    obtain ⟨a, b, partners, anew, is, _⟩ := piece p inside
    exact ⟨a, b, partners, anew, is⟩
  · rintro ⟨a, b, partners, anew, rfl⟩
    obtain ⟨p, member, is, _⟩ := given partners anew
    exact List.mem_map.2 ⟨p, member, is⟩
  · obtain ⟨p, inside, rfl⟩ := List.mem_map.1 member
    obtain ⟨a, b, partners, anew, _, covers⟩ := piece p inside
    exact ⟨a, b, partners, anew, covers⟩
  · obtain ⟨p, member, _, covers, shown⟩ := given partners anew
    exact ⟨shown, p.2, List.mem_map_of_mem member, covers⟩

end Situated

/-! ### The whole plan -/

theorem edgeSplice_eq (read live : String) (place : Nat → Int × Int) :
    edgeSplice (.str read) (.str live) place = .ok ((edge read live (place read.length).1
      (place read.length).2).map Draft.ofSplice) := by
  unfold edgeSplice edge
  by_cases same : read = live
  · rw [if_pos (Json.alike_str.2 same), if_pos same]
    rfl
  · rw [if_neg fun alike => same (Json.alike_str.1 alike), if_neg same]
    rfl

theorem edgeSplices_eq (plain : t.read.strays = []) (plain' : t.live.strays = []) :
    t.edgeSplices = .ok ((t.leadingEdge ++ t.trailingEdge).map Draft.ofSplice) := by
  simp [edgeSplices, Model.givenLeading, Model.givenTrailing, plain, plain', edgeSplice_eq, bind,
    Except.bind, pure, Except.pure, leadingEdge, trailingEdge]

/-- The texts beside the document are replaced where they stand. -/
theorem exists_edges {drafts : List Draft} (plain : t.read.strays = [])
    (ran : t.edgeSplices = .ok drafts) : ∃ edges : List Splice, drafts = edges.map Draft.ofSplice ∧
      ∀ s ∈ edges, s.start = 0 ∧ s.stop = (t.read.leading.length : Int) ∨
        s.start = (t.text.length - t.read.trailing.length : Int) ∧ s.stop = (t.text.length : Int) := by
  -- Either text is left alone, or taken up as a whole.
  have one : ∀ {read : String} {live : Json} {place : Nat → Int × Int} {drafts : List Draft},
      edgeSplice (.str read) live place = .ok drafts → ∃ edges : List Splice,
        drafts = edges.map Draft.ofSplice ∧ ∀ s ∈ edges, (s.start, s.stop) = place read.length := by
    intro read live place drafts ran
    unfold edgeSplice at ran
    split at ran
    · cases ran
      exact ⟨[], rfl, by simp⟩
    · cases live with
      | str text =>
        cases ran
        exact ⟨[⟨(place read.length).1, (place read.length).2, text⟩], rfl, by simp⟩
      | _ => cases ran
  simp only [edgeSplices, bind, Except.bind, Model.givenLeading, Model.givenTrailing, plain,
    List.lookup_nil, Option.getD_none] at ran
  split at ran
  · cases ran
  · next leading front =>
    split at ran
    · cases ran
    · next trailing back =>
      cases ran
      obtain ⟨first, rfl, starts⟩ := one front
      obtain ⟨last, rfl, stops⟩ := one back
      refine ⟨first ++ last, List.map_append.symm, fun s member => ?_⟩
      rcases List.mem_append.1 member with early | late
      · exact .inl (Prod.mk.inj (starts s early))
      · exact .inr (Prod.mk.inj (stops s late))

theorem eq_of_mem_edge {read live : String} {start stop : Int}
    (member : s ∈ edge read live start stop) : s = ⟨start, stop, live⟩ := by
  unfold edge at member
  split at member
  · cases member
  · exact List.mem_singleton.1 member

theorem ordered_of_mem_edges (member : s ∈ t.leadingEdge ++ t.trailingEdge) : s.start ≤ s.stop := by
  rcases List.mem_append.1 member with first | last
  · obtain rfl := eq_of_mem_edge first
    simp only
    omega
  · obtain rfl := eq_of_mem_edge last
    simp only
    omega

/-- Drafts whose bounds are positions are splices. -/
theorem exists_splices {drafts : List Draft} (all : ∀ d ∈ drafts, ∃ s, d = .ofSplice s) :
    ∃ splices : List Splice, drafts = splices.map Draft.ofSplice ∧
      drafts.mapM Draft.splice? = some splices := by
  induction drafts with
  | nil => exact ⟨[], rfl, rfl⟩
  | cons d drafts ih =>
    rw [List.forall_mem_cons] at all
    obtain ⟨s, rfl⟩ := all.1
    obtain ⟨splices, rfl, read⟩ := ih all.2
    refine ⟨s :: splices, rfl, ?_⟩
    rw [List.mapM_cons, Draft.splice?_ofSplice, read]
    rfl

theorem ofSplice_injective : Function.Injective Draft.ofSplice := fun s s' same => by
  have both := congrArg Draft.splice? same
  rw [Draft.splice?_ofSplice, Draft.splice?_ofSplice] at both
  exact Option.some.inj both

/-- They are settled as splices are merged. -/
theorem settle_eq {drafts : List Draft} {splices : List Splice} {covering : List Span} (length : Nat)
    (read : drafts.mapM Draft.splice? = some splices) (plain : ∀ span ∈ covering, span.strays = []) :
    Draft.settle length drafts covering =
      (Splice.merge splices (covering.map Span.toLocation)).map fun kept => ⟨kept, []⟩ := by
  unfold Draft.settle
  rw [read]
  simp only
  rw [if_pos (by simpa using plain)]
  cases Splice.merge splices (covering.map Span.toLocation) <;> rfl

theorem meets_merge (splices : List Splice) (covering : List Location) :
    Meets Error.Yields (fun _ => True) (Splice.merge splices covering) := by
  unfold Splice.merge
  simp only
  split <;> trivial

namespace Situated

variable (situated : t.Situated)
include situated

/-- What is left when all that is asked for is merged is what counts. -/
theorem settled_of_merge {asked edges kept : List Splice} {covering : List Span}
    (inOrder : ∀ {a b}, Partners t.read t.live a b → t.InOrder a b)
    (mem : ∀ s, s ∈ asked ↔ s ∈ edges ∨ ∃ a, t.Asks a s) (ordered : ∀ s ∈ edges, s.start ≤ s.stop)
    (spans : ∀ span ∈ covering, ∃ a b, Partners t.read t.live a b ∧ t.Renewed a b ∧
      span.Covers (t.read.startOf a) (t.read.stopOf a))
    (covered : ∀ {a b}, Partners t.read t.live a b → t.Renewed a b →
      ∃ span ∈ covering, span.Covers (t.read.startOf a) (t.read.stopOf a))
    (merged : Splice.merge asked (covering.map Span.toLocation) = .ok kept) :
    t.Settled edges kept := by
  have proper : ∀ s ∈ asked, s.start ≤ s.stop := by
    intro s member
    rcases (mem s).1 member with beside | ⟨a, asks⟩
    · exact ordered s beside
    · exact (situated.within_of_asks inOrder asks).2.1
  obtain ⟨apart, left⟩ := Splice.merge_eq_ok proper merged
  refine ⟨apart, fun s => ?_, inOrder⟩
  rw [left, mem]
  refine and_congr_right fun _ => ⟨fun free a b span one renewed start stop => ?_,
    fun outside place listed => ?_⟩
  · -- Any span of a node shown anew covers as much as the one that was merged with.
    obtain ⟨span', member, covers⟩ := covered one renewed
    rw [Splice.coveredBy_congr (start.trans covers.start.symm) (stop.trans covers.stop.symm)]
    exact free _ (List.mem_map_of_mem member)
  · obtain ⟨span, member, rfl⟩ := List.mem_map.1 listed
    obtain ⟨a, b, one, renewed, covers⟩ := spans span member
    exact outside one renewed covers.start covers.stop

/-- A plan is had, and it consists of all that is asked for, with all shown that came or is shown anew. -/
theorem meets_plan (plain : t.read.strays = []) : Meets t.Falters t.Carries t.plan := by
  obtain ⟨edits, edited, texts, anew⟩ := situated.exists_edits
  have renewed : ∀ a, a ∈ (edits.filterMap fun edit => edit.getRight?).eraseDups ↔
      ∃ b, Partners t.read t.live a b ∧ t.Renewed a b := by
    intro a
    rw [List.mem_eraseDups, ← anew, List.mem_filterMap]
    simp [Sum.getRight?_eq_some_iff]
  unfold plan
  simp only [edited]
  split
  · exact .yields trivial
  · refine (situated.meets_checkTopLevel.relax fun _ => .yields).bind fun _ top => Meets.bind_ok
      ((situated.meets_affectedSlots.relax fun _ => .yields).with_eq.bind ?_)
    rintro slots ⟨affected, owned⟩
    refine (situated.meets_pieces affected owned).bind ?_
    rintro pieces ⟨each, planned⟩
    refine (situated.meets_whole renewed).bind ?_
    rintro whole ⟨splices, spans, covered⟩
    cases beside : t.edgeSplices with
    | error e => exact .beside beside
    | ok edgeDrafts =>
    obtain ⟨edges, rfl, bounds⟩ := exists_edges plain beside
    refine Meets.bind_ok ?_
    -- All that is asked for, and nothing else, is among the drafts.
    have among : ∀ d, d ∈ edits.filterMap Sum.getLeft? ++ pieces.flatten ++ whole.map Prod.fst ++
        edges.map Draft.ofSplice ↔ ∃ s, d = .ofSplice s ∧ (s ∈ edges ∨ ∃ a, t.Asks a s) := by
      intro d
      have text : d ∈ edits.filterMap Sum.getLeft? ↔ .inl d ∈ edits := by
        simp [List.mem_filterMap, Sum.getLeft?_eq_some_iff]
      rw [List.mem_append, List.mem_append, List.mem_append, text, texts, planned, splices,
        List.mem_map]
      constructor
      · rintro (((⟨a, b, s, one, asks, rfl⟩ | ⟨a, b, s, one, asks, rfl⟩) | ⟨a, b, one, asks, rfl⟩) |
          ⟨s, member, rfl⟩)
        · exact ⟨s, rfl, .inr ⟨a, b, one, .inl asks⟩⟩
        · exact ⟨s, rfl, .inr ⟨a, b, one, .inr (.inl asks)⟩⟩
        · exact ⟨_, rfl, .inr ⟨a, b, one, .inr (.inr ⟨asks, rfl⟩)⟩⟩
        · exact ⟨s, rfl, .inl member⟩
      · rintro ⟨s, rfl, member | ⟨a, b, one, asks | asks | ⟨asks, rfl⟩⟩⟩
        · exact .inr ⟨s, member, rfl⟩
        · exact .inl (.inl (.inl ⟨a, b, s, one, asks, rfl⟩))
        · exact .inl (.inl (.inr ⟨a, b, s, one, asks, rfl⟩))
        · exact .inl (.inr ⟨a, b, one, asks, rfl⟩)
    obtain ⟨asked, isAsked, read⟩ := exists_splices fun d member => by
      obtain ⟨s, is, _⟩ := (among d).1 member
      exact ⟨s, is⟩
    have mem : ∀ s, s ∈ asked ↔ s ∈ edges ∨ ∃ a, t.Asks a s := by
      intro s
      rw [← List.mem_map_of_injective ofSplice_injective, ← isAsked, among]
      constructor
      · rintro ⟨s', same, member⟩
        exact ofSplice_injective same ▸ member
      · exact fun member => ⟨s, rfl, member⟩
    rw [settle_eq t.text.length read fun span member => by
      obtain ⟨_, _, _, _, covers⟩ := spans span member
      exact covers.plain]
    have yields := meets_merge asked ((whole.map Prod.snd).map Span.toLocation)
    cases merged : Splice.merge asked ((whole.map Prod.snd).map Span.toLocation) with
    | error e =>
      rw [merged] at yields
      exact .yields yields
    | ok kept =>
      have ordered : ∀ s ∈ edges, s.start ≤ s.stop := fun s member => by
        have := bounds s member
        omega
      exact ⟨top.1, top.2, ⟨edges, beside, bounds, situated.settled_of_merge (fun one => (each one).1) mem
        ordered spans (fun one renewed => (covered one renewed).2) merged⟩, fun one => (each one).2,
        fun one renewed => (covered one renewed).1⟩

end Situated

/-- What no plan is had for is written anew as a whole, if that is allowed. -/
theorem patch_of_yields {e : Error} (fallback : t.config.allowFullRender = true)
    (failed : t.plan = .error e) (yields : e.Yields) : t.patch = t.renderWhole e := by
  unfold patch
  rw [failed]
  cases e with
  | stale id cause => exact if_pos fallback
  | conflict cause => exact if_pos fallback
  | _ => exact yields.elim

/-- A plan is had, and it consists of all that is asked for, or else the document is written anew. -/
theorem Ready.meets_plan (ready : t.Ready) (plain : t.read.strays = []) (plain' : t.live.strays = []) :
    Meets Error.Yields (fun plan =>
      ((∀ {a}, t.read.Holds a → (t.read.node a).owner = none → ∃ b, Partners t.read t.live a b) ∧
        ∀ {b}, t.live.Holds b → (t.live.node b).owner = none → ∃ a, Partners t.read t.live a b) ∧
      t.Settled (t.leadingEdge ++ t.trailingEdge) plan.splices) t.plan := by
  have beside := edgeSplices_eq plain plain'
  refine ((ready.toSituated.meets_plan plain).relax fun e falters => ?_).mono fun plan carries => ?_
  · -- All nodes can be shown, there is a frame for any slot, and the texts beside are texts.
    cases falters with
    | yields yields => exact yields
    | shown held failed =>
      rw [(ready.renders_shown held).1] at failed
      cases failed
    | framed held failed =>
      obtain ⟨frame, framed, _⟩ := (Model.plainFrames_of_seated ready.seated).exists_frame ready.soundRead
        ready.generates held _
      rw [framed] at failed
      cases failed
    | beside failed =>
      rw [beside] at failed
      cases failed
  · obtain ⟨edges, had, _, settled⟩ := carries.settled
    rw [beside] at had
    obtain rfl := List.map_injective_iff.2 ofSplice_injective (Except.ok.inj had)
    exact ⟨⟨carries.stayed, carries.known⟩, settled⟩

end PatchTask

end DocSync
