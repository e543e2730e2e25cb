import DocSync.Dict
import DocSync.Proofs.Assoc

/-!
What stands under a name of a map after one name has been set or removed. A map is determined by what
stands under each name.
-/

namespace DocSync.Dict

variable {α : Type} {name other : String} {value : α} {d d' : Dict α}

/-- A map with a name set to a value, or removed. -/
def assign (d : Dict α) (name : String) : Option α → Dict α
  | some value => d.insert name value
  | none => d.erase name

theorem lookup_insertEntry (entries : List (String × α)) :
    (insertEntry name value entries).lookup other =
      if other = name then some value else entries.lookup other := by
  induction entries with
  | nil =>
    by_cases same : other = name
    · simp [insertEntry, same]
    · simp [insertEntry, Assoc.lookup_cons, same, beq_false_of_ne same]
  | cons entry rest ih =>
    unfold insertEntry
    -- The entry is put in front of the first name above its own, or takes the place of an equal one.
    by_cases same : other = name
    · subst same
      split
      · simp
      · split
        · simp
        · next differ =>
          simpa [Assoc.lookup_cons, beq_false_of_ne differ] using ih
    · have apart : (other == name) = false := beq_false_of_ne same
      rw [if_neg same] at ih ⊢
      split
      · simp [Assoc.lookup_cons, apart]
      · split
        · next here =>
          simp [Assoc.lookup_cons, apart, ← here]
        · cases found : other == entry.1 <;> simp [Assoc.lookup_cons, found, ih]

theorem get?_insert : (d.insert name value).get? other =
    if other = name then some value else d.get? other := lookup_insertEntry d.entries

theorem get?_erase : (d.erase name).get? other =
    if other = name then none else d.get? other := by
  change (d.entries.filter _).lookup other = if _ then _ else d.entries.lookup other
  induction d.entries with
  | nil => simp
  | cons entry rest ih =>
    by_cases here : entry.1 = name
    · rw [List.filter_cons_of_neg (by simpa using here), ih]
      by_cases same : other = name
      · simp [same]
      · have apart : (other == entry.1) = false := beq_false_of_ne (here ▸ same)
        simp [same, Assoc.lookup_cons, apart]
    · rw [List.filter_cons_of_pos (by simpa using here)]
      by_cases same : other = entry.1
      · have kept : other ≠ name := same ▸ here
        simp [Assoc.lookup_cons, same, here]
      · simp only [Assoc.lookup_cons, beq_false_of_ne same, ih]

theorem get?_assign (value : Option α) : (d.assign name value).get? other =
    if other = name then value else d.get? other := by
  cases value with
  | none => exact get?_erase
  | some value => exact get?_insert

theorem nodup_keys (d : Dict α) : d.keys.Nodup :=
  List.pairwise_map.2 (d.ascending.imp fun {a b} (less : a.1 < b.1) (same : a.1 = b.1) =>
    String.lt_irrefl b.1 (same ▸ less))

theorem mem_entries_iff : (name, value) ∈ d.entries ↔ d.get? name = some value :=
  (Assoc.lookup_eq_some_iff d.nodup_keys).symm

/-- A name is one of a map's just when something stands under it. -/
theorem mem_keys_iff : name ∈ d.keys ↔ (d.get? name).isSome = true := by
  rw [keys, List.mem_map, Option.isSome_iff_exists]
  constructor
  · rintro ⟨⟨_, value⟩, member, rfl⟩
    exact ⟨value, mem_entries_iff.1 member⟩
  · rintro ⟨value, stands⟩
    exact ⟨(name, value), mem_entries_iff.2 stands, rfl⟩

theorem get?_eq_none_iff : d.get? name = none ↔ name ∉ d.keys := by
  rw [mem_keys_iff, Option.not_isSome_iff_eq_none]

/-- Maps with the same values under all names are equal. -/
theorem ext_get? (same : ∀ name, d.get? name = d'.get? name) : d = d' := by
  have members : ∀ entry, entry ∈ d.entries ↔ entry ∈ d'.entries := fun ⟨name, value⟩ => by
    rw [mem_entries_iff, mem_entries_iff, same]
  have once : ∀ d : Dict α, d.entries.Nodup := fun d => d.nodup_keys.of_map _
  have entries : d.entries = d'.entries :=
    ((List.perm_ext_iff_of_nodup (once d) (once d')).2 members).eq_of_pairwise
      (fun a b _ _ less more => absurd (String.lt_trans less more) (String.lt_irrefl _))
      d.ascending d'.ascending
  cases d
  cases d'
  cases entries
  rfl

@[simp] theorem get?_empty : (empty : Dict α).get? name = none := rfl

@[simp] theorem get?_ofList_singleton : (ofList [(name, value)]).get? name = some value := by
  change ((empty : Dict α).insert name value).get? name = _
  rw [get?_insert, if_pos rfl]

/-- What a list of entries has under a name is one of the entries. -/
theorem mem_of_get?_ofList {entries : List (String × α)}
    (found : (ofList entries).get? name = some value) : (name, value) ∈ entries := by
  -- A later entry may hide an earlier one, so the claim is about every table that is added to.
  suffices general : ∀ d : Dict α, (entries.foldl (fun d entry => d.insert entry.1 entry.2) d).get?
      name = some value → d.get? name = some value ∨ (name, value) ∈ entries by
    rcases general empty found with none_ | member
    · cases none_
    · exact member
  clear found
  intro d stands
  induction entries generalizing d with
  | nil => exact .inl stands
  | cons entry rest ih =>
    rcases ih _ stands with early | late
    · rw [get?_insert] at early
      split at early
      · next same =>
        cases early
        exact .inr (same ▸ List.mem_cons_self)
      · exact .inl early
    · exact .inr (List.mem_cons_of_mem _ late)

/-- The map of a list of entries has the names of the list. -/
theorem mem_keys_ofList {entries : List (String × α)} :
    name ∈ (ofList entries).keys ↔ name ∈ entries.map Prod.fst := by
  have inserted : ∀ (d : Dict α) n v, name ∈ (d.insert n v).keys ↔ name ∈ d.keys ∨ name = n := by
    intro d n v
    rw [mem_keys_iff, mem_keys_iff, get?_insert]
    by_cases same : name = n <;> simp [same]
  suffices general : ∀ d : Dict α, name ∈ (entries.foldl
      (fun d entry => d.insert entry.1 entry.2) d).keys ↔
        name ∈ d.keys ∨ name ∈ entries.map Prod.fst by
    simpa [ofList, empty, keys] using general empty
  induction entries with
  | nil => simp
  | cons entry rest ih =>
    intro d
    rw [List.foldl_cons, ih, inserted, List.map_cons, List.mem_cons, or_assoc]

end DocSync.Dict
