import DocSync.Proofs.Patch.Gaps

/-!
What each node of a text asks for when it became another: its fields that changed for their new texts,
its chain for the splices of its gaps, and a node that lost or was given a field for all of it to be
shown anew. All of this lies inside of the node.
-/

namespace DocSync

open Lexer (Blanks Lexeme)

namespace Model

variable {m : Model} {source : List Char} {fingerprint : String} {k c : Key} {name value : String}
  {lo hi lo' hi' : Nat}

/-- A field stands at one place. -/
theorem FieldAt.unique (one : m.FieldAt k name lo hi) (other : m.FieldAt k name lo' hi') :
    lo = lo' ∧ hi = hi' := by
  obtain ⟨origin, span, known, there, start, stop, _⟩ := one
  obtain ⟨origin', span', known', there', start', stop', _⟩ := other
  obtain rfl : origin = origin' := Option.some.inj (known ▸ known')
  obtain rfl : span = span' := Option.some.inj (there ▸ there')
  omega

/-- Where a field of a node stands, and what it shows there. -/
structure Written (m : Model) (source : List Char) (k : Key) (name value : String) (lo hi : Nat) :
    Prop where
  field : m.FieldAt k name lo hi
  lower : m.startOf k ≤ lo
  some_ : lo < hi
  upper : hi ≤ m.stopOf k
  occurs : Occurs source lo value.toList
  length : hi = lo + value.toList.length
  /-- What hangs on the node comes behind. -/
  ahead : ∀ c ∈ m.children k, hi ≤ m.startOf c

/-- Every field of a node stands in the text of the node. -/
theorem Seated.exists_written (seated : m.Seated source fingerprint k)
    (known : (m.node k).fields.get? name = some value) :
    ∃ lo hi, m.Written source k name value lo hi := by
  have start := seated.placed.some_
  cases seated with
  | @scalar _ text placed _ isValue fields childless occurs stop field =>
    rw [fields] at known
    obtain ⟨rfl, rfl⟩ : name = valueName ∧ value = String.ofList text := by
      simpa using Dict.mem_of_get?_ofList known
    refine ⟨_, _, field, Nat.le_refl _, start, Nat.le_refl _, ?_, ?_, ?_⟩
    · rwa [String.toList_ofList]
    · rwa [String.toList_ofList]
    · simp [childless]
  | container _ _ fields _ _ _ _ _ _ _ _ =>
    rw [fields] at known
    cases known
  | @pair _ key frame placed _ lexeme _ _ _ _ opens field stands below =>
    obtain ⟨first, tail, rfl, _⟩ := lexeme
    rw [List.length_cons] at stands field
    -- Every pair has its key, which stands before whatever hangs on the pair.
    have keyed : name = keyField → value = String.ofList (first :: tail) →
        (∀ c ∈ m.children k, m.startOf k + (tail.length + 1) ≤ m.startOf c) →
          m.startOf k + (tail.length + 1) ≤ m.stopOf k →
            ∃ lo hi, m.Written source k name value lo hi := by
      rintro rfl shows ahead upper
      refine ⟨_, _, field, Nat.le_refl _, by omega, upper, ?_, ?_, ahead⟩
      · rw [shows, String.toList_ofList]
        exact opens.left
      · rw [shows, String.toList_ofList, List.length_cons]
    rcases stands with ⟨text, ⟨_, ⟨_, _, rfl, _⟩, _⟩, occurs, stop, childless, field', fields⟩ |
      ⟨c, children, starts, stop, fields⟩
    · rw [List.length_cons] at stop
      rw [fields] at known
      rcases List.mem_cons.1 (Dict.mem_of_get?_ofList known) with named | named
      · exact keyed (congrArg Prod.fst named) (congrArg Prod.snd named) (by simp [childless]) (by omega)
      · obtain ⟨rfl, rfl⟩ := Prod.mk.inj (List.mem_singleton.1 named)
        refine ⟨_, _, field', by omega, by omega, Nat.le_refl _, ?_, ?_, by simp [childless]⟩
        · rwa [String.toList_ofList]
        · rwa [String.toList_ofList, List.length_cons]
    · have some_ := (below c (by rw [children]; exact List.mem_singleton_self c)).placed.some_
      rw [fields] at known
      have named := List.mem_singleton.1 (Dict.mem_of_get?_ofList known)
      refine keyed (congrArg Prod.fst named) (congrArg Prod.snd named) (fun x child => ?_) (by omega)
      obtain rfl : x = c := by simpa [children] using child
      omega

end Model

namespace PatchTask

variable {t : PatchTask} {a b c : Key} {s : Splice} {name old new : String} {lo hi : Nat}

/-- A field that has another text asks for this text where it stands. -/
def RetextedAt (t : PatchTask) (a b : Key) (name : String) (s : Splice) : Prop :=
  ∃ old new lo hi, (t.read.node a).fields.get? name = some old ∧
    (t.live.node b).fields.get? name = some new ∧ old ≠ new ∧ t.read.FieldAt a name lo hi ∧
      s = ⟨lo, hi, new⟩

/-- Some field of a node has another text. -/
def Retexted (t : PatchTask) (a b : Key) (s : Splice) : Prop := ∃ name, t.RetextedAt a b name s

/-- A node that lost or was given a field is shown anew. -/
def Renewed (t : PatchTask) (a b : Key) : Prop :=
  ∃ name, ((t.read.node a).fields.get? name).isSome ≠ ((t.live.node b).fields.get? name).isSome

/-- The splice of a node that is shown anew. -/
def wholeSplice (t : PatchTask) (a b : Key) : Splice :=
  ⟨t.read.startOf a, t.read.stopOf a, t.shown b⟩

/-- A node that became another asks for a splice. -/
def Asks (t : PatchTask) (a : Key) (s : Splice) : Prop :=
  ∃ b, Partners t.read t.live a b ∧
    (t.Retexted a b s ∨ s ∈ t.slotPlan a b ∨ t.Renewed a b ∧ s = t.wholeSplice a b)

/-- A splice lies in no node that is shown anew. -/
def Outside (t : PatchTask) (s : Splice) : Prop :=
  ∀ {a b} {span : Location}, Partners t.read t.live a b → t.Renewed a b →
    span.start = t.read.startOf a → span.stop = t.read.stopOf a → s.coveredBy span = false

/-- The splices that count are those that nodes ask for and those beside the document, but none in a
node that is shown anew; what stayed in a slot is in order. -/
structure Settled (t : PatchTask) (edges kept : List Splice) : Prop where
  ordered : kept.Pairwise Splice.Before
  mem_iff : ∀ s, s ∈ kept ↔ (s ∈ edges ∨ ∃ a, t.Asks a s) ∧ t.Outside s
  inOrder : ∀ {a b}, Partners t.read t.live a b → t.InOrder a b

/-- Only a field that a node has can have another text. -/
theorem retexted_iff {entries : List (String × String)}
    (fields : (t.read.node a).fields = Dict.ofList entries) :
    t.Retexted a b s ↔ ∃ entry ∈ entries, t.RetextedAt a b entry.1 s := by
  constructor
  · rintro ⟨name, old, new, lo, hi, known, rest⟩
    have member : (name, old) ∈ entries := Dict.mem_of_get?_ofList (by rwa [fields] at known)
    exact ⟨(name, old), member, old, new, lo, hi, known, rest⟩
  · rintro ⟨entry, _, at_⟩
    exact ⟨entry.1, at_⟩

/-- A field is replaced where it has another text. -/
theorem exists_carried_field (written : t.read.Written t.text.toList a name old lo hi)
    (known : (t.read.node a).fields.get? name = some old)
    (known' : (t.live.node b).fields.get? name = some new) :
    ∃ E, Splice.Carried t.text.toList lo hi E new.toList ∧ ∀ s, s ∈ E ↔ t.RetextedAt a b name s := by
  by_cases same : old = new
  · -- Where the text is the same, no splice is asked for.
    subst same
    refine ⟨[], ?_, fun s => iff_of_false List.not_mem_nil ?_⟩
    · rw [written.length]
      exact .keep written.occurs
    · rintro ⟨old', new', _, _, found, found', differ, _⟩
      rw [known] at found
      rw [known'] at found'
      exact differ (Option.some.inj (found.symm.trans found'))
  · have some_ := written.some_
    refine ⟨[⟨lo, hi, new⟩], .replace (by omega) ?_ new, fun s => ?_⟩
    · rw [written.length]
      exact written.occurs.le
    · rw [List.mem_singleton]
      constructor
      · rintro rfl
        exact ⟨old, new, lo, hi, known, known', same, written.field, rfl⟩
      · rintro ⟨old', new', lo', hi', _, found', _, field, rfl⟩
        obtain ⟨rfl, rfl⟩ := field.unique written.field
        rw [known'] at found'
        cases found'
        rfl

namespace Situated

variable (situated : t.Situated)
include situated

/-- What a field asks for stands where the field was, before all that hangs on the node. -/
theorem written_of_retexted (partners : Partners t.read t.live a b) (retexted : t.Retexted a b s) :
    ∃ name old new lo hi, t.read.Written t.text.toList a name old lo hi ∧ s = ⟨lo, hi, new⟩ := by
  obtain ⟨name, old, new, lo, hi, known, _, _, field, rfl⟩ := retexted
  obtain ⟨lo', hi', written⟩ :=
    (situated.seated (partners.holds_left situated.soundRead)).exists_written known
  obtain ⟨rfl, rfl⟩ := field.unique written.field
  exact ⟨name, old, new, lo, hi, written, rfl⟩

/-- What a node asks for lies between its ends. -/
theorem within_of_asks (inOrder : ∀ {a b}, Partners t.read t.live a b → t.InOrder a b)
    (asks : t.Asks a s) : t.read.startOf a ≤ s.start ∧ s.start ≤ s.stop ∧ s.stop ≤ t.read.stopOf a := by
  obtain ⟨b, partners, retexted | planned | ⟨_, rfl⟩⟩ := asks
  · obtain ⟨name, old, new, lo, hi, written, rfl⟩ := situated.written_of_retexted partners retexted
    obtain ⟨_, lower, some_, upper, _, _, _⟩ := written
    simp only
    omega
  · have fitting := situated.fitting_of_mem_slotPlan partners (inOrder partners) planned
    exact ⟨fitting.lower, fitting.ordered, fitting.upper⟩
  · have some_ := (situated.seated (partners.holds_left situated.soundRead)).placed.some_
    simp only [wholeSplice]
    omega

end Situated

namespace Ready

variable (ready : t.Ready)
include ready

/-- What a node asks for lies inside of it. -/
theorem inside_of_asks (inOrder : ∀ {a b}, Partners t.read t.live a b → t.InOrder a b)
    (asks : t.Asks a s) : s.Inside (t.read.startOf a) (t.read.stopOf a) := by
  obtain ⟨b, partners, retexted | planned | ⟨_, rfl⟩⟩ := asks
  · obtain ⟨name, old, new, lo, hi, written, rfl⟩ := ready.written_of_retexted partners retexted
    obtain ⟨_, lower, some_, upper, _, _, _⟩ := written
    constructor <;> simp only <;> omega
  · exact (ready.inside_of_mem_slotPlan partners (inOrder partners) planned).1
  · have some_ := (ready.seated (partners.holds_left ready.soundRead)).placed.some_
    constructor <;> simp only [wholeSplice] <;> omega

/-- Short of being shown anew, a node asks for nothing that would take part of a child away. -/
theorem spares_of_asks (inOrder : ∀ {a b}, Partners t.read t.live a b → t.InOrder a b)
    (partners : Partners t.read t.live a b) (asks : t.Retexted a b s ∨ s ∈ t.slotPlan a b)
    (member : c ∈ t.read.children a) : s.Spares (t.read.startOf c) (t.read.stopOf c) := by
  rcases asks with retexted | planned
  · obtain ⟨name, old, new, lo, hi, written, rfl⟩ := ready.written_of_retexted partners retexted
    have ahead := written.ahead c member
    exact .inl (by simp only; omega)
  · exact (ready.inside_of_mem_slotPlan partners (inOrder partners) planned).2 c member

end Ready

end PatchTask

end DocSync
