import Mathlib.Data.List.Sort
import DocSync.Patch.Splice
import DocSync.Proofs.Render.Fidelity
import DocSync.Proofs.Sorting

/-!
Splices carried out in a stretch of a text. Stretches that lie one behind the other are dealt with one
by one, and what comes of them is put together. The splices that are merged for a text are in order and
do not touch one another, so they are told by which of them there are.
-/

namespace DocSync

namespace Splice

variable {source x y : List Char} {lo mid hi at_ : Nat} {s s' : Splice} {E F : List Splice}

/-- One splice ends before another starts, and the two are not at one point. -/
structure Before (a b : Splice) : Prop where
  first : a.start ≤ a.stop
  apart : a.stop ≤ b.start
  second : b.start ≤ b.stop
  differ : a.start < b.start ∨ a.stop < b.stop

theorem Before.trans {a b c : Splice} (left : Before a b) (right : Before b c) : Before a c := by
  obtain ⟨_, _, _, _⟩ := left
  obtain ⟨_, _, _, _⟩ := right
  constructor <;> omega

theorem Before.asymm {a b : Splice} (left : Before a b) : ¬ Before b a := by
  rintro ⟨_, _, _, _⟩
  obtain ⟨_, _, _, _⟩ := left
  omega

/-- A splice replaces text of a stretch, or puts something between two characters of it. -/
structure Inside (lo hi : Nat) (s : Splice) : Prop where
  ordered : s.start ≤ s.stop
  lower : lo ≤ s.start
  upper : s.stop ≤ hi
  touches : s.start < s.stop ∨ lo < s.start ∧ s.stop < hi

theorem Inside.mono {lo' hi' : Nat} (inside : s.Inside lo hi) (lower : lo' ≤ lo) (upper : hi ≤ hi') :
    s.Inside lo' hi' := by
  obtain ⟨_, _, _, _⟩ := inside
  constructor <;> omega

/-- A splice takes nothing of a stretch away, and puts nothing in between two characters of it. -/
def Beside (lo hi : Nat) (s : Splice) : Prop := s.stop ≤ lo ∨ hi ≤ s.start

/-- A splice takes no part of a stretch away: it lies beside the stretch, or takes all of it. -/
def Spares (lo hi : Nat) (s : Splice) : Prop :=
  s.stop ≤ lo ∨ hi ≤ s.start ∨ s.start ≤ lo ∧ hi ≤ s.stop

theorem Beside.mono {lo' hi' : Nat} (beside : s.Beside lo hi) (lower : lo ≤ lo') (upper : hi' ≤ hi) :
    s.Beside lo' hi' := by
  unfold Beside at beside ⊢
  omega

theorem Beside.spares (beside : s.Beside lo hi) : s.Spares lo hi := beside.imp_right .inl

theorem Spares.mono {lo' hi' : Nat} (spares : s.Spares lo hi) (lower : lo ≤ lo') (upper : hi' ≤ hi) :
    s.Spares lo' hi' := by
  unfold Spares at spares ⊢
  omega

/-- A splice that is inside of a stretch lies beside every stretch that is disjoint from it. -/
theorem Inside.spares {lo' hi' : Nat} (inside : s.Inside lo hi) (apart : hi ≤ lo' ∨ hi' ≤ lo) :
    s.Spares lo' hi' := by
  obtain ⟨_, _, _, _⟩ := inside
  unfold Spares
  omega

theorem Spares.not_coveredBy (spares : s.Spares lo hi) (proper : s.start ≤ s.stop) (_ : lo < hi)
    {span : Location} (start : span.start = lo) (stop : span.stop = hi) :
    s.coveredBy span = false := by
  unfold Spares at spares
  unfold coveredBy
  split
  · simp only [Bool.and_eq_false_iff, decide_eq_false_iff_not]
    omega
  · simp only [Bool.and_eq_false_iff, decide_eq_false_iff_not, Bool.not_eq_false', Bool.and_eq_true,
      beq_iff_eq]
    omega

/-- Whether a span covers a splice depends on its bounds only. -/
theorem coveredBy_congr {span span' : Location} (start : span.start = span'.start)
    (stop : span.stop = span'.stop) : s.coveredBy span = s.coveredBy span' := by
  unfold coveredBy
  rw [start, stop]

/-! ### Carrying splices out -/

/-- Splices carried out in a stretch of a text, which is left alone otherwise, make another text of
it. -/
structure Carried (source : List Char) (lo hi : Nat) (splices : List Splice) (out : List Char) :
    Prop where
  within : lo ≤ hi ∧ hi ≤ source.length
  inside : ∀ s ∈ splices, lo ≤ s.start ∧ s.start ≤ s.stop ∧ s.stop ≤ hi
  ordered : splices.Pairwise Before
  /-- What stands before the stretch is copied, and what follows is up to the splices that follow. -/
  applies : ∀ (cursor : Nat) (rest : List Splice), cursor ≤ lo →
    (∀ s ∈ rest.head?, hi ≤ s.start) → applyFrom source cursor (splices ++ rest) =
      Text.slice source cursor lo ++ (out ++ applyFrom source hi rest)

/-- A stretch up to a position is one up to another position and what follows. -/
theorem slice_split {a b : Nat} {c : Int} (first : a ≤ b) (second : b ≤ c)
    (bound : b ≤ source.length) :
    Text.slice source a c = Text.slice source a b ++ Text.slice source b c := by
  have ends : b ≤ Text.clamp source.length c := by
    unfold Text.clamp
    split <;> omega
  simp only [Text.slice, Text.clamp_ofNat bound, Text.clamp_ofNat (first.trans bound)]
  generalize Text.clamp source.length c = stop at ends
  rw [show stop - a = (b - a) + (stop - b) by omega, List.take_add, List.drop_drop,
    show a + (b - a) = b by omega]

/-- A text from a position on is what stands up to another position, and the text from there on. -/
theorem applyFrom_split {a b : Nat} {rest : List Splice} (first : a ≤ b)
    (bound : b ≤ source.length) (behind : ∀ s ∈ rest.head?, b ≤ s.start) :
    applyFrom source a rest = Text.slice source a b ++ applyFrom source b rest := by
  cases rest with
  | nil =>
    -- Nothing follows, so it is the rest of the text that is cut in two.
    simp only [applyFrom, Text.sliceFrom, Text.slice, Text.clamp_ofNat bound,
      Text.clamp_ofNat (first.trans bound)]
    conv => lhs; rw [← List.take_append_drop (b - a) (source.drop a)]
    rw [List.drop_drop, show a + (b - a) = b by omega]
  | cons s rest =>
    -- It is what is copied up to the next splice that is cut in two.
    simp only [applyFrom]
    rw [slice_split first (behind s rfl) bound]
    simp

namespace Carried

/-- Without splices a stretch stays as it is. -/
theorem keep (occurs : Occurs source lo x) : Carried source lo (lo + x.length) [] x where
  within := ⟨Nat.le_add_right _ _, occurs.le⟩
  inside := by simp
  ordered := .nil
  applies cursor rest first behind := by
    have bound := occurs.le
    rw [List.nil_append, applyFrom_split (first.trans (Nat.le_add_right _ _)) bound behind,
      slice_split first (by omega) (by omega), occurs.slice, List.append_assoc]

/-- A stretch is replaced as a whole. -/
theorem replace (within : lo ≤ hi) (bound : hi ≤ source.length) (text : String) :
    Carried source lo hi [⟨lo, hi, text⟩] text.toList where
  within := ⟨within, bound⟩
  inside := by
    intro s member
    obtain rfl := List.mem_singleton.1 member
    simp only
    omega
  ordered := List.pairwise_singleton _ _
  applies cursor rest _ _ := by simp [applyFrom]

/-- Two stretches, of which not both have a splice at the point where they meet. -/
theorem append (left : Carried source lo mid E x) (right : Carried source mid hi F y)
    (apart : (∀ s ∈ E, s.start < mid) ∨ ∀ s ∈ F, mid < s.stop) :
    Carried source lo hi (E ++ F) (x ++ y) where
  within := ⟨left.within.1.trans right.within.1, right.within.2⟩
  inside := by
    intro s member
    have := left.within.1
    have := right.within.1
    rcases List.mem_append.1 member with early | late
    · have := left.inside s early
      omega
    · have := right.inside s late
      omega
  ordered := by
    rw [List.pairwise_append]
    refine ⟨left.ordered, right.ordered, fun s early s' late => ?_⟩
    -- At the point where the stretches meet there is a splice of one of them only.
    have := left.inside s early
    have := right.inside s' late
    have : s.start < mid ∨ mid < s'.stop := apart.imp (· s early) (· s' late)
    constructor <;> omega
  applies cursor rest first behind := by
    -- The first stretch is followed by the splices of the second one, or by what follows both.
    have next : ∀ s ∈ (F ++ rest).head?, mid ≤ s.start := by
      intro s head
      cases F with
      | nil =>
        have := behind s head
        have := right.within.1
        omega
      | cons s' F =>
        obtain rfl := Option.some.inj head
        exact (right.inside _ List.mem_cons_self).1
    rw [List.append_assoc, left.applies cursor (F ++ rest) first next,
      right.applies mid rest (Nat.le_refl _) behind]
    simp [Text.slice]

/-- Splices that are carried out in all of a text make another text of it. -/
theorem applyAll {source : String} {out : List Char}
    (carried : Carried source.toList 0 source.toList.length E out) :
    applyAll source E = String.ofList out := by
  have applied := carried.applies 0 [] (Nat.le_refl _) (by simp)
  rw [List.append_nil] at applied
  rw [Splice.applyAll, show (0 : Int) = (0 : Nat) from rfl, applied]
  simp [Text.slice, applyFrom, Text.sliceFrom, Text.clamp_ofNat (Nat.le_refl _)]

end Carried

/-! ### Splices that count -/

/-- Splices in order of position of which no neighbours clash follow one another. -/
theorem pairwise_before_of_sorted {kept : List Splice}
    (proper : ∀ s ∈ kept, s.start ≤ s.stop)
    (sorted : kept.Pairwise fun a b => a.atOrBefore b = true) (free : firstClash? kept = none) :
    kept.Pairwise Before := by
  induction kept with
  | nil => exact .nil
  | cons a rest ih =>
    cases rest with
    | nil => exact List.pairwise_singleton _ _
    | cons b rest =>
      rw [firstClash?] at free
      split at free
      · cases free
      · next apart =>
        rw [List.pairwise_cons] at sorted
        rw [List.forall_mem_cons] at proper
        have later := ih proper.2 sorted.2 free
        have order := sorted.1 b List.mem_cons_self
        have wide := proper.2 b List.mem_cons_self
        have wide' := proper.1
        -- Neighbours are told apart by the check; others by what stands between them.
        have first : Before a b := by
          simp only [atOrBefore, clashes, Bool.or_eq_true, Bool.and_eq_true, decide_eq_true_eq,
            beq_iff_eq, not_or, not_and, not_lt] at order apart
          constructor <;> omega
        refine List.pairwise_cons.2 ⟨fun c member => ?_, later⟩
        rcases List.mem_cons.1 member with rfl | member
        · exact first
        · exact first.trans ((List.pairwise_cons.1 later).1 c member)

theorem atOrBefore_iff {a b : Splice} :
    a.atOrBefore b = true ↔ a.start < b.start ∨ a.start = b.start ∧ a.stop ≤ b.stop := by
  simp only [atOrBefore, Bool.or_eq_true, Bool.and_eq_true, decide_eq_true_eq, beq_iff_eq]

/-- The splices that no span covers, each once, in order of position. -/
def contenders (splices : List Splice) (covering : List Location) : List Splice :=
  stableSort atOrBefore (splices.filter fun s => !covering.any s.coveredBy).eraseDups

section Merge

variable {splices kept : List Splice} {covering : List Location}

/-- Sorting loses nothing, and neither does dropping what is there twice. -/
theorem mem_contenders :
    s ∈ contenders splices covering ↔ s ∈ splices ∧ ∀ span ∈ covering, s.coveredBy span = false := by
  rw [contenders, (stableSort_perm _ _).mem_iff, List.mem_eraseDups, List.mem_filter]
  simp

theorem pairwise_contenders :
    (contenders splices covering).Pairwise fun a b => a.atOrBefore b = true :=
  pairwise_stableSort _ (fun a b c => by simp only [atOrBefore_iff]; omega)
    fun a b => by simp only [atOrBefore_iff]; omega

/-- Merging is a check of the splices that no span covers. -/
theorem merge_eq : merge splices covering = match firstClash? (contenders splices covering) with
    | some (a, b) =>
      .error (.conflict (.overlap (.int a.start) (.int a.stop) (.int b.start) (.int b.stop)))
    | none => .ok (contenders splices covering) := rfl

/-- What is left of splices that are merged: those that no span covers, in order and apart. -/
theorem merge_eq_ok (proper : ∀ s ∈ splices, s.start ≤ s.stop) (merged : merge splices covering = .ok kept) :
    kept.Pairwise Before ∧
      ∀ s, s ∈ kept ↔ s ∈ splices ∧ ∀ span ∈ covering, s.coveredBy span = false := by
  rw [merge_eq] at merged
  split at merged
  · cases merged
  · next free =>
    cases merged
    exact ⟨pairwise_before_of_sorted (fun s inside => proper s (mem_contenders.1 inside).1)
      pairwise_contenders free, fun s => mem_contenders⟩

end Merge

/-- Splices that follow one another are told by which of them there are. -/
theorem eq_of_mem_iff (left : E.Pairwise Before) (right : F.Pairwise Before)
    (same : ∀ s, s ∈ E ↔ s ∈ F) : E = F :=
  have : Std.Irrefl Before := ⟨fun _ before => before.asymm before⟩
  have : Std.Antisymm Before := ⟨fun _ _ before after => absurd after before.asymm⟩
  left.eq_of_mem_iff right same

/-- Of two of them that are not the same one is before the other. -/
theorem before_or_before (ordered : E.Pairwise Before) (inE : s ∈ E) (inE' : s' ∈ E)
    (differ : s ≠ s') : Before s s' ∨ Before s' s := by
  induction ordered with
  | nil => cases inE
  | @cons first rest before _ ih =>
    rcases List.mem_cons.1 inE with rfl | late <;> rcases List.mem_cons.1 inE' with rfl | late'
    · exact absurd rfl differ
    · exact .inl (before _ late')
    · exact .inr (before _ late)
    · exact ih late late'

/-- Where a stretch is replaced as a whole, nothing else is done inside of it. -/
theorem eq_of_inside {text : String} (ordered : E.Pairwise Before)
    (whole : (⟨lo, hi, text⟩ : Splice) ∈ E) (member : s ∈ E) (inside : s.Inside lo hi) :
    s = ⟨lo, hi, text⟩ := by
  by_contra differ
  obtain ⟨_, _, _, _⟩ := inside
  rcases before_or_before ordered member whole differ with ⟨_, apart, _, _⟩ | ⟨_, apart, _, _⟩
  · simp only at apart
    omega
  · simp only at apart
    omega

end Splice

end DocSync
