/-! Lists of values under names, in the order in which the names first came. -/

namespace DocSync.Assoc

variable {κ α : Type} [DecidableEq κ]

/-- The list with one name set to a value: a name that is there keeps its place, a new one comes
last. -/
def set (name : κ) (value : α) : List (κ × α) → List (κ × α)
  | [] => [(name, value)]
  | entry :: rest =>
    if entry.1 = name then (name, value) :: rest else entry :: set name value rest

/-- A name is looked up in the entries in turn. -/
theorem lookup_cons (name : κ) (entry : κ × α) (rest : List (κ × α)) :
    (entry :: rest).lookup name =
      match name == entry.1 with
      | true => some entry.2
      | false => rest.lookup name := List.lookup_cons

/-- A name that was set is found with its new value. -/
theorem lookup_set_self (name : κ) (value : α) (entries : List (κ × α)) :
    (set name value entries).lookup name = some value := by
  induction entries with
  | nil => simp [set]
  | cons entry rest ih =>
    unfold set
    split
    · simp
    · next differ =>
      -- The head stays in front, and it goes by another name.
      have other : (name == entry.1) = false := beq_false_of_ne (Ne.symm differ)
      simp [lookup_cons, other, ih]

/-- Setting one name leaves the others alone. -/
theorem lookup_set_of_ne {name other : κ} (value : α) (entries : List (κ × α))
    (differ : other ≠ name) : (set name value entries).lookup other = entries.lookup other := by
  have apart : (other == name) = false := beq_false_of_ne differ
  induction entries with
  | nil => simp [set, lookup_cons, apart]
  | cons entry rest ih =>
    unfold set
    split
    · next same => simp [lookup_cons, apart, same]
    · cases found : other == entry.1 <;> simp [lookup_cons, found, ih]

end DocSync.Assoc
