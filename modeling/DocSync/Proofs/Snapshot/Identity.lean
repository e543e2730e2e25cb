import DocSync.Proofs.Alignment
import DocSync.Proofs.Snapshot.Depiction
import DocSync.Snapshot.Identity

/-!
Stabilization: the old picture relabelled so that two nodes share a label just when the alignment
pairs them. Pairs are one to one and join nodes of one kind.
-/

namespace DocSync

variable {old new : Model} {a b c d : Key}

/-- What a node shows of itself, wherever it stands. -/
def Model.contentOf (m : Model) (k : Key) : Kind × Dict String :=
  ((m.node k).kind, (m.node k).fields)

/-- The places in two models that the alignment of their contents pairs. -/
def contentPairs (old new : Model) : List (Nat × Nat) :=
  Alignment.pairs Prod.fst (old.canonicalOrder.map old.contentOf)
    (new.canonicalOrder.map new.contentOf)

/-- Two nodes of two models that the alignment pairs. -/
def Partners (old new : Model) (a b : Key) : Prop :=
  ∃ i j, (i, j) ∈ contentPairs old new ∧ old.canonicalOrder[i]? = some a ∧
    new.canonicalOrder[j]? = some b

theorem pairing_contentPairs (old new : Model) :
    Alignment.Pairing Prod.fst (old.canonicalOrder.map old.contentOf)
      (new.canonicalOrder.map new.contentOf) 0 0 (contentPairs old new) :=
  Alignment.pairing_pairs _ _ _

/-- In a list without repetitions an element stands at one place. -/
theorem getElem?_unique {α : Type} {xs : List α} (nodup : xs.Nodup) {x : α} {i j : Nat}
    (first : xs[i]? = some x) (second : xs[j]? = some x) : i = j := by
  obtain ⟨inside, rfl⟩ := List.getElem?_eq_some_iff.1 first
  obtain ⟨inside', same⟩ := List.getElem?_eq_some_iff.1 second
  exact ((List.Nodup.getElem_inj_iff nodup).1 same).symm

namespace Partners

/-- Partners are of one kind. -/
theorem kind_eq (partners : Partners old new a b) : (old.node a).kind = (new.node b).kind := by
  obtain ⟨i, j, paired, atI, atJ⟩ := partners
  obtain ⟨u, v, left, right, same⟩ := (pairing_contentPairs old new).exists_of_mem paired
  rw [List.getElem?_map, atI] at left
  rw [List.getElem?_map, atJ] at right
  cases left
  cases right
  exact same

theorem right_unique (sound : old.Sound) (first : Partners old new a b)
    (second : Partners old new a c) : b = c := by
  obtain ⟨i, j, paired, atI, atJ⟩ := first
  obtain ⟨i', j', paired', atI', atJ'⟩ := second
  have same := getElem?_unique sound.nodup_canonicalOrder atI atI'
  have pair := List.inj_on_of_nodup_map (pairing_contentPairs old new).firsts paired paired' same
  cases pair
  rw [atJ] at atJ'
  exact Option.some.inj atJ'

theorem left_unique (sound : new.Sound) (first : Partners old new a c)
    (second : Partners old new b c) : a = b := by
  obtain ⟨i, j, paired, atI, atJ⟩ := first
  obtain ⟨i', j', paired', atI', atJ'⟩ := second
  have same := getElem?_unique sound.nodup_canonicalOrder atJ atJ'
  have pair := List.inj_on_of_nodup_map (pairing_contentPairs old new).seconds paired paired' same
  cases pair
  rw [atI] at atI'
  exact Option.some.inj atI'

theorem holds_left (sound : old.Sound) (partners : Partners old new a b) : old.Holds a := by
  obtain ⟨i, j, _, atI, _⟩ := partners
  exact sound.mem_canonicalOrder.1 (List.mem_of_getElem? atI)

theorem holds_right (sound : new.Sound) (partners : Partners old new a b) : new.Holds b := by
  obtain ⟨i, j, _, _, atJ⟩ := partners
  exact sound.mem_canonicalOrder.1 (List.mem_of_getElem? atJ)

end Partners

namespace Snapshot

/-! ### New labels -/

/-- A label that is found is not in use. -/
theorem not_mem_of_probe {id kind : String} {line : Int} {inUse : List String} {limit : Json}
    {fuel probes : Nat} {label : String}
    (found : probe id kind line inUse limit fuel probes = .ok label) : label ∉ inUse := by
  induction fuel generalizing probes with
  | zero =>
    unfold probe at found
    split at found
    · cases found
    · simp only at found
      split at found
      · cases found
      · next free =>
        cases found
        simpa using free
  | succ fuel ih =>
    -- A label is taken only when it is found free.
    unfold probe at found
    split at found
    · cases found
    · simp only at found
      split at found
      · simp only [bind, Except.bind] at found
        split at found
        · cases found
        · split at found
          · cases found
          · exact ih found
      · next free =>
        cases found
        simpa using free

theorem not_mem_of_renumber {id label : String} {move : Int → Int} {inUse : List String}
    {limit : Json} (found : renumber id move inUse limit = .ok label) : label ∉ inUse := by
  unfold renumber at found
  simp only at found
  split at found
  · cases found
  · exact not_mem_of_probe found

/-- New labels differ from one another and from those in use, one for each record. -/
theorem renumberAll_spec {move : Int → Int} {limit : Json} {records : List (Record String)}
    {inUse : List String} {moved : Renaming}
    (found : renumberAll move limit records inUse = .ok moved) :
    moved.map Prod.fst = records.map Record.id ∧ (moved.map Prod.snd).Nodup ∧
      ∀ label ∈ moved.map Prod.snd, label ∉ inUse := by
  induction records generalizing inUse moved with
  | nil =>
    cases found
    simp
  | cons r rest ih =>
    simp only [renumberAll, bind, Except.bind] at found
    split at found
    · cases found
    · next label fresh =>
      split at found
      · cases found
      · next later rested =>
        cases found
        -- A label that was given counts as used for the records that follow.
        obtain ⟨ids, nodup, apart⟩ := ih rested
        have free := not_mem_of_renumber fresh
        refine ⟨by simp [ids], ?_, ?_⟩
        · rw [List.map_cons, List.nodup_cons]
          exact ⟨fun member => apart label member List.mem_cons_self, nodup⟩
        · intro name member
          rcases List.mem_cons.1 member with same | inside
          · exact same ▸ free
          · exact fun used => apart name inside (List.mem_cons_of_mem _ used)

/-! ### Stabilization -/

/-- The labels of records that belong together. -/
def pairedLabels (old new : Snapshot) : Renaming :=
  (recordPairs old.records new.records).filterMap fun (i, j) =>
    match old.records[i]?, new.records[j]? with
    | some a, some b => some (a.id, b.id)
    | _, _ => none

/-- The old records without a partner. -/
def singles (old new : Snapshot) : List (Record String) :=
  (old.records.zipIdx.filter fun r =>
    !(recordPairs old.records new.records).any (·.1 == r.2)).map Prod.fst

theorem singles_sublist (old new : Snapshot) : (singles old new).Sublist old.records := by
  have kept := (List.filter_sublist (p := fun r => !(recordPairs old.records new.records).any (·.1 == r.2))
    (l := old.records.zipIdx)).map Prod.fst
  rwa [List.zipIdx_map_fst] at kept

/-- Stabilization gives paired records their partner's label, and each other record one of its own
that the new side does not use. -/
theorem exists_moved_of_stabilize {config : Config} {old new s : Snapshot}
    (stable : old.stabilize config new = .ok s) :
    ∃ moved : Renaming, s = old.rename (pairedLabels old new ++ moved).reverse ∧
      moved.map Prod.fst = (singles old new).map Record.id ∧ (moved.map Prod.snd).Nodup ∧
      ∀ label ∈ moved.map Prod.snd,
        label ∉ new.ids.map Prod.fst ++ (pairedLabels old new).map Prod.snd := by
  unfold stabilize at stable
  change (if (singles old new).isEmpty then
      .ok (old.rename (pairedLabels old new ++ []).reverse)
    else renumberAll _ _ (singles old new)
        (new.ids.map Prod.fst ++ (pairedLabels old new).map Prod.snd) >>= fun moved =>
      .ok (old.rename (pairedLabels old new ++ moved).reverse)) = Except.ok s at stable
  by_cases none : (singles old new).isEmpty
  · rw [if_pos none] at stable
    cases stable
    exact ⟨[], rfl, by simpa using none, by simp, by simp⟩
  · rw [if_neg none] at stable
    simp only [bind, Except.bind] at stable
    split at stable
    · cases stable
    · next moved found =>
      cases stable
      exact ⟨moved, rfl, renumberAll_spec found⟩

end Snapshot

section Pictures

variable (soundOld : old.Sound) (soundNew : new.Sound)
include soundOld soundNew

theorem recordPairs_snapshot :
    Snapshot.recordPairs old.snapshot.records new.snapshot.records = contentPairs old new := by
  unfold Snapshot.recordPairs contentPairs
  rw [soundOld.depicts_snapshot.records, soundNew.depicts_snapshot.records, List.map_map,
    List.map_map]
  rfl

/-- Paired labels are those of partners. -/
theorem mem_pairedLabels {x y : String} :
    (x, y) ∈ Snapshot.pairedLabels old.snapshot new.snapshot ↔
      ∃ a b, Partners old new a b ∧ x = old.labelOf a ∧ y = new.labelOf b := by
  unfold Snapshot.pairedLabels
  rw [recordPairs_snapshot soundOld soundNew, soundOld.depicts_snapshot.records,
    soundNew.depicts_snapshot.records, List.mem_filterMap]
  -- A pair of places is one of nodes, and a node is told by its place.
  constructor
  · rintro ⟨⟨i, j⟩, paired, found⟩
    simp only [List.getElem?_map] at found
    cases atI : old.canonicalOrder[i]? with
    | none => simp [atI] at found
    | some a =>
      cases atJ : new.canonicalOrder[j]? with
      | none => simp [atI, atJ] at found
      | some b =>
        simp only [atI, atJ, Option.map_some, Option.some.injEq, Prod.mk.injEq] at found
        exact ⟨a, b, ⟨i, j, paired, atI, atJ⟩, found.1.symm, found.2.symm⟩
  · rintro ⟨a, b, ⟨i, j, paired, atI, atJ⟩, rfl, rfl⟩
    exact ⟨(i, j), paired, by simp only [List.getElem?_map, atI, atJ, Option.map_some]; rfl⟩

/-- The records without a partner are those of nodes without a partner. -/
theorem mem_singles_id {x : String} :
    x ∈ (Snapshot.singles old.snapshot new.snapshot).map Record.id ↔
      ∃ a, old.Holds a ∧ (∀ b, ¬ Partners old new a b) ∧ x = old.labelOf a := by
  unfold Snapshot.singles
  rw [recordPairs_snapshot soundOld soundNew, soundOld.depicts_snapshot.records]
  -- A place that is paired on the old side is paired with a node.
  have partner : ∀ {i a}, old.canonicalOrder[i]? = some a →
      ((contentPairs old new).any (·.1 == i) = true ↔ ∃ b, Partners old new a b) := by
    intro i a atI
    rw [List.any_eq_true]
    constructor
    · rintro ⟨⟨i', j⟩, paired, same⟩
      obtain rfl : i' = i := by simpa using same
      obtain ⟨_, _, -, right, -⟩ := (pairing_contentPairs old new).exists_of_mem paired
      rw [List.getElem?_map, Option.map_eq_some_iff] at right
      obtain ⟨b, atJ, _⟩ := right
      exact ⟨b, i', j, paired, atI, atJ⟩
    · rintro ⟨b, i', j, paired, atI', _⟩
      obtain rfl := getElem?_unique soundOld.nodup_canonicalOrder atI atI'
      exact ⟨(i, j), paired, by simp⟩
  simp only [List.mem_map, List.mem_filter, Prod.exists]
  constructor
  · rintro ⟨r, ⟨r', i, ⟨inside, alone⟩, rfl⟩, rfl⟩
    have place := List.mem_zipIdx_iff_getElem?.1 inside
    rw [List.getElem?_map, Option.map_eq_some_iff] at place
    obtain ⟨a, atI, rfl⟩ := place
    refine ⟨a, soundOld.mem_canonicalOrder.1 (List.mem_of_getElem? atI), fun b partners => ?_, rfl⟩
    simp [(partner atI).2 ⟨b, partners⟩] at alone
  · rintro ⟨a, held, alone, rfl⟩
    obtain ⟨i, atI⟩ := List.getElem?_of_mem (soundOld.mem_canonicalOrder.2 held)
    refine ⟨_, ⟨old.shown old.labelOf a, i, ⟨?_, ?_⟩, rfl⟩, rfl⟩
    · exact List.mem_zipIdx_iff_getElem?.2 (by simp [atI])
    · have none : ¬ (contentPairs old new).any (·.1 == i) = true := fun found =>
        let ⟨b, partners⟩ := (partner atI).1 found
        alone b partners
      simpa only [Bool.not_eq_true'] using Bool.eq_false_iff.2 none

omit soundNew in
theorem nodup_singles_id :
    ((Snapshot.singles old.snapshot new.snapshot).map Record.id).Nodup := by
  have all : (old.snapshot.records.map Record.id).Nodup := by
    rw [soundOld.depicts_snapshot.map_id_records]
    exact soundOld.depicts_snapshot.nodup_labels
  exact all.sublist ((Snapshot.singles_sublist _ _).map Record.id)

section Names

variable {names moved : Renaming} (among : ∀ {x y}, (x, y) ∈ names ↔
    (x, y) ∈ Snapshot.pairedLabels old.snapshot new.snapshot ∨ (x, y) ∈ moved)
  (keys : moved.map Prod.fst = (Snapshot.singles old.snapshot new.snapshot).map Record.id)
include among keys

/-- A node with a partner goes by its label. -/
theorem apply_of_partners {a b : Key} (partners : Partners old new a b) :
    names.apply (old.labelOf a) = new.labelOf b := by
  have held := partners.holds_left soundOld
  have found := Assoc.lookup_of_mem
    (among.2 (.inl ((mem_pairedLabels soundOld soundNew).2 ⟨a, b, partners, rfl, rfl⟩)))
    fun other inside => by
      rcases among.1 inside with pair | alone
      · obtain ⟨a', b', partners', same, rfl⟩ := (mem_pairedLabels soundOld soundNew).1 pair
        obtain rfl := soundOld.labelOf_injective held (partners'.holds_left soundOld) same
        rw [partners.right_unique soundOld partners']
      · obtain ⟨a', held', none, same⟩ := (mem_singles_id soundOld soundNew).1
          (keys ▸ List.mem_map_of_mem (f := Prod.fst) alone)
        obtain rfl := soundOld.labelOf_injective held held' same
        exact absurd partners (none b)
  rw [Renaming.apply, found]
  rfl

/-- A node without partner goes by the label it was given. -/
theorem mem_moved_of_alone {a : Key} (held : old.Holds a) (none : ∀ b, ¬ Partners old new a b) :
    (old.labelOf a, names.apply (old.labelOf a)) ∈ moved := by
  have inside : old.labelOf a ∈ moved.map Prod.fst :=
    keys ▸ (mem_singles_id soundOld soundNew).2 ⟨a, held, none, rfl⟩
  obtain ⟨⟨x, y⟩, given, rfl⟩ := List.mem_map.1 inside
  have found := Assoc.lookup_of_mem (among.2 (.inr given)) fun other also => by
    rcases among.1 also with pair | alone
    · obtain ⟨a', b', partners', same, rfl⟩ := (mem_pairedLabels soundOld soundNew).1 pair
      obtain rfl := soundOld.labelOf_injective held (partners'.holds_left soundOld) same
      exact absurd partners' (none b')
    · have nodup : (moved.map Prod.fst).Nodup := keys ▸ nodup_singles_id soundOld
      have same := List.inj_on_of_nodup_map nodup alone given rfl
      exact (Prod.mk.inj same).2
  rw [Renaming.apply, found]
  exact given

end Names

/-- After stabilization the old picture shares labels with the new one just for partners. -/
theorem depicts_of_stabilize {config : Config} {s : Snapshot}
    (stable : old.snapshot.stabilize config new.snapshot = .ok s) :
    ∃ label, s.Depicts old old.canonicalOrder label ∧
      ∀ {a b}, old.Holds a → new.Holds b → (label a = new.labelOf b ↔ Partners old new a b) := by
  obtain ⟨moved, rfl, keys, fresh, apart⟩ := Snapshot.exists_moved_of_stabilize stable
  obtain ⟨names, whole⟩ : ∃ names : Renaming,
      names = (Snapshot.pairedLabels old.snapshot new.snapshot ++ moved).reverse := ⟨_, rfl⟩
  rw [← whole]
  have among : ∀ {x y}, (x, y) ∈ names ↔
      (x, y) ∈ Snapshot.pairedLabels old.snapshot new.snapshot ∨ (x, y) ∈ moved := by
    simp [whole, or_comm]
  have paired : ∀ {a b}, Partners old new a b → names.apply (old.labelOf a) = new.labelOf b :=
    fun partners => apply_of_partners soundOld soundNew among keys partners
  have lone : ∀ {a}, old.Holds a → (∀ b, ¬ Partners old new a b) →
      (old.labelOf a, names.apply (old.labelOf a)) ∈ moved :=
    fun held none => mem_moved_of_alone soundOld soundNew among keys held none
  have unused : ∀ {a b}, old.Holds a → (∀ b, ¬ Partners old new a b) → new.Holds b →
      names.apply (old.labelOf a) ≠ new.labelOf b := by
    intro a b held none heldB same
    refine apart _ (List.mem_map_of_mem (lone held none)) (List.mem_append_left _ ?_)
    rw [soundNew.depicts_snapshot.ids, List.map_map]
    exact List.mem_map.2 ⟨b, soundNew.mem_canonicalOrder.2 heldB, same.symm⟩
  refine ⟨_, soundOld.depicts_snapshot.rename (fun {a b} heldA heldB same => ?_),
    fun {a b} heldA heldB => ⟨fun same => ?_, paired⟩⟩
  · -- A label comes from a partner or is given to one node alone, and never both.
    by_cases partnerA : ∃ c, Partners old new a c <;> by_cases partnerB : ∃ c, Partners old new b c
    · obtain ⟨c, partnerA⟩ := partnerA
      obtain ⟨d, partnerB⟩ := partnerB
      rw [paired partnerA, paired partnerB] at same
      obtain rfl := soundNew.labelOf_injective (partnerA.holds_right soundNew)
        (partnerB.holds_right soundNew) same
      exact partnerA.left_unique soundNew partnerB
    · obtain ⟨c, partnerA⟩ := partnerA
      rw [paired partnerA] at same
      exact absurd same.symm
        (unused heldB (not_exists.1 partnerB) (partnerA.holds_right soundNew))
    · obtain ⟨c, partnerB⟩ := partnerB
      rw [paired partnerB] at same
      exact absurd same (unused heldA (not_exists.1 partnerA) (partnerB.holds_right soundNew))
    · have pair := List.inj_on_of_nodup_map fresh (lone heldA (not_exists.1 partnerA))
        (lone heldB (not_exists.1 partnerB)) same
      exact soundOld.labelOf_injective heldA heldB (Prod.mk.inj pair).1
  · by_contra none
    by_cases partner : ∃ c, Partners old new a c
    · obtain ⟨c, partner⟩ := partner
      rw [paired partner] at same
      obtain rfl := soundNew.labelOf_injective (partner.holds_right soundNew) heldB same
      exact none partner
    · exact unused heldA (not_exists.1 partner) heldB same

end Pictures

end DocSync
