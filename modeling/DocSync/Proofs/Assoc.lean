import DocSync.Assoc
import Mathlib.Data.List.Nodup

/-! Lists of values under names that all differ: what stands under a name is what was put there. -/

namespace DocSync.Assoc

variable {κ α : Type} [DecidableEq κ]

/-- A lookup finds the value that alone stands under a name. -/
theorem lookup_of_mem {entries : List (κ × α)} {name : κ} {value : α}
    (member : (name, value) ∈ entries) (only : ∀ other, (name, other) ∈ entries → other = value) :
    entries.lookup name = some value := by
  cases found : entries.lookup name with
  | none =>
    exact absurd rfl (bne_iff_ne.1 (List.lookup_eq_none_iff.1 found _ member))
  | some other =>
    obtain ⟨before, behind, split, _⟩ := List.lookup_eq_some_iff.1 found
    rw [only other (by rw [split]; simp)]

/-- In a list of different names a lookup finds each entry. -/
theorem lookup_eq_some_iff {entries : List (κ × α)} (nodup : (entries.map Prod.fst).Nodup)
    {name : κ} {value : α} : entries.lookup name = some value ↔ (name, value) ∈ entries := by
  induction entries with
  | nil => simp
  | cons entry rest ih =>
    obtain ⟨key, stored⟩ := entry
    obtain ⟨fresh, tail⟩ := List.nodup_cons.1 nodup
    by_cases same : name = key
    · subst same
      have later : (name, value) ∉ rest := fun member => fresh (List.mem_map.2 ⟨_, member, rfl⟩)
      simp [lookup_cons, later, eq_comm]
    · have other : (name == key) = false := beq_false_of_ne same
      simp [lookup_cons, other, ih tail, same]

/-- What names no entry is not found. -/
theorem lookup_eq_none_iff {entries : List (κ × α)} {name : κ} :
    entries.lookup name = none ↔ ∀ entry ∈ entries, entry.1 ≠ name := by
  rw [List.lookup_eq_none_iff]
  exact forall₂_congr fun entry _ => bne_iff_ne.trans ne_comm

/-- A new name is set behind the others. -/
theorem set_of_not_mem {name : κ} (value : α) {entries : List (κ × α)}
    (fresh : name ∉ entries.map Prod.fst) : set name value entries = entries ++ [(name, value)] := by
  induction entries with
  | nil => rfl
  | cons entry rest ih =>
    simp only [List.map_cons, List.mem_cons, not_or] at fresh
    rw [set, if_neg (Ne.symm fresh.1), ih fresh.2]
    rfl

/-- Setting names that all differ lists them in turn. -/
theorem foldl_set {entries : List (κ × α)} (nodup : (entries.map Prod.fst).Nodup) :
    entries.foldl (fun acc entry => set entry.1 entry.2 acc) [] = entries := by
  -- Entries are put behind those that are there already, so the claim is about these too.
  suffices general : ∀ before, ((before ++ entries).map Prod.fst).Nodup →
      entries.foldl (fun acc entry => set entry.1 entry.2 acc) before = before ++ entries by
    simpa using general [] (by simpa using nodup)
  induction entries with
  | nil => simp
  | cons entry rest ih =>
    intro before all
    have fresh : entry.1 ∉ before.map Prod.fst := by
      rw [List.map_append, List.map_cons] at all
      exact fun member => (List.nodup_append.1 all).2.2 _ member _ List.mem_cons_self rfl
    rw [List.foldl_cons, set_of_not_mem _ fresh,
      ih (List.nodup_cons.1 nodup).2 (before ++ [entry]) (by simpa using all)]
    simp

end DocSync.Assoc
