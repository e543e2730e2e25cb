/-! Finite maps from names to values, kept in ascending order of the names. -/

namespace DocSync

/-- A finite map keyed by names. The order is part of the type, so equal maps are equal values. -/
structure Dict (α : Type) where
  entries : List (String × α) := []
  ascending : entries.Pairwise (fun a b => a.1 < b.1) := by exact .nil

namespace Dict

variable {α : Type}

/-- The map without entries. -/
def empty : Dict α := {}

instance : Inhabited (Dict α) := ⟨empty⟩

instance [DecidableEq α] : DecidableEq (Dict α) := fun a b =>
  if same : a.entries = b.entries then
    isTrue (by cases a; cases b; cases same; rfl)
  else isFalse fun equal => same (equal ▸ rfl)

/-- The value stored under a name. -/
def get? (d : Dict α) (name : String) : Option α := d.entries.lookup name

/-- An ordered list of entries with one entry added or replaced. -/
def insertEntry (name : String) (value : α) : List (String × α) → List (String × α)
  | [] => [(name, value)]
  | entry :: rest =>
    if name < entry.1 then (name, value) :: entry :: rest
    else if name = entry.1 then (name, value) :: rest
    else entry :: insertEntry name value rest

/-- An insertion brings in the given name and no other. -/
theorem mem_insertEntry {name : String} {value : α} {entries : List (String × α)}
    {entry : String × α} (found : entry ∈ insertEntry name value entries) :
    entry = (name, value) ∨ entry ∈ entries := by
  induction entries with
  | nil => simpa [insertEntry] using found
  | cons head rest ih =>
    unfold insertEntry at found
    split at found
    · simpa using found
    · split at found
      · rcases List.mem_cons.1 found with same | later
        · exact .inl same
        · exact .inr (List.mem_cons_of_mem _ later)
      · rcases List.mem_cons.1 found with same | later
        · exact .inr (same ▸ List.mem_cons_self)
        · exact (ih later).imp_right (List.mem_cons_of_mem _)

/-- An insertion keeps the names ascending. -/
theorem insertEntry_ascending (name : String) (value : α) {entries : List (String × α)}
    (sorted : entries.Pairwise (fun a b => a.1 < b.1)) :
    (insertEntry name value entries).Pairwise (fun a b => a.1 < b.1) := by
  induction entries with
  | nil => exact List.pairwise_singleton _ _
  | cons head rest ih =>
    obtain ⟨above, tail⟩ := List.pairwise_cons.1 sorted
    unfold insertEntry
    split
    · next below =>
      refine List.pairwise_cons.2 ⟨fun entry member => ?_, sorted⟩
      rcases List.mem_cons.1 member with same | later
      · exact same ▸ below
      · exact String.lt_trans below (above entry later)
    · next notBelow =>
      split
      · next same =>
        exact List.pairwise_cons.2 ⟨fun entry member => same ▸ above entry member, tail⟩
      · next differ =>
        refine List.pairwise_cons.2 ⟨fun entry member => ?_, ih tail⟩
        rcases mem_insertEntry member with same | later
        · -- Neither below nor equal, so the new name lies above the head.
          subst same
          exact String.not_le.1 fun le => differ (String.le_antisymm le (String.not_lt.1 notBelow))
        · exact above entry later

/-- The map with one name set to a value. -/
def insert (d : Dict α) (name : String) (value : α) : Dict α :=
  ⟨insertEntry name value d.entries, insertEntry_ascending name value d.ascending⟩

/-- The map without a name. -/
def erase (d : Dict α) (name : String) : Dict α :=
  ⟨d.entries.filter (·.1 ≠ name), d.ascending.filter _⟩

/-- The map holding the given entries; of two with one name the later counts. -/
def ofList (entries : List (String × α)) : Dict α :=
  entries.foldl (fun d entry => d.insert entry.1 entry.2) empty

/-- The names, ascending. -/
def keys (d : Dict α) : List String := d.entries.map Prod.fst

end Dict

end DocSync
