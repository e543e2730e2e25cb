import DocSync.Proofs.Patch.Carried

/-!
Splices merged for a text. It matters which splices and which spans there are, and not in what order they
come. If all that no span covers can be carried out together they are left, in order of position, and the text
is put together from the stretches between them and from what they put in; otherwise two of them are told.
-/

namespace DocSync.Splice

variable {a b s : Splice} {splices splices' kept E F : List Splice} {covering covering' : List Location}
  {span : Location} {source : List Char} {at_ : Nat}

/-- A splice lies within a span: it inserts something between two characters of it, or replaces a part of it
that is not all of it. -/
def Within (span : Location) (s : Splice) : Prop :=
  s.start = s.stop ∧ span.start < s.start ∧ s.start < span.stop ∨
    s.start < s.stop ∧ span.start ≤ s.start ∧ s.stop ≤ span.stop ∧
      ¬ (s.start = span.start ∧ s.stop = span.stop)

/-- Two splices that cannot both be carried out: they overlap, or insert something at one point. -/
def Collides (a b : Splice) : Prop :=
  a.start < b.stop ∧ b.start < a.stop ∨ a.start = a.stop ∧ b.start = b.stop ∧ a.start = b.start

theorem coveredBy_iff (proper : s.start ≤ s.stop) : s.coveredBy span = true ↔ s.Within span := by
  unfold coveredBy Within
  split
  · simp only [Bool.and_eq_true, decide_eq_true_eq]
    omega
  · simp only [Bool.and_eq_true, decide_eq_true_eq, Bool.not_eq_true', Bool.and_eq_false_iff,
      beq_eq_false_iff_ne, ne_eq]
    omega

/-- One of two splices that do not collide is before the other. -/
theorem not_collides_iff (proper : a.start ≤ a.stop) (proper' : b.start ≤ b.stop) :
    ¬ a.Collides b ↔ Before a b ∨ Before b a := by
  unfold Collides
  constructor
  · intro free
    -- Each starts where the other ends or behind it, one way round or the other.
    by_cases left : a.stop ≤ b.start
    · exact .inl ⟨proper, left, proper', by omega⟩
    · exact .inr ⟨proper', by omega, proper, by omega⟩
  · rintro (⟨_, _, _, _⟩ | ⟨_, _, _, _⟩) <;> omega

/-! ### Whatever the order -/

/-- The stretch that a splice replaces. -/
def bounds (s : Splice) : Int × Int := (s.start, s.stop)

/-- Of elements that are there several times one each is left. -/
theorem nodup_eraseDups {α : Type} [BEq α] [LawfulBEq α] (xs : List α) : xs.eraseDups.Nodup := by
  cases xs with
  | nil => simp
  | cons x rest =>
    -- What equals the head is left out of the rest.
    rw [List.eraseDups_cons, List.nodup_cons]
    exact ⟨by simp, nodup_eraseDups _⟩
termination_by xs.length
decreasing_by exact Nat.lt_succ_of_le (List.length_filter_le _ _)

theorem nodup_contenders : (contenders splices covering).Nodup :=
  (stableSort_perm _ _).nodup_iff.2 (nodup_eraseDups _)

/-- Which stretches are contended for does not depend on the order of splices and spans. -/
theorem bounds_contenders (perm : splices'.Perm splices) (spans : covering'.Perm covering) :
    (contenders splices' covering').map bounds = (contenders splices covering).map bounds := by
  have same : (contenders splices' covering').Perm (contenders splices covering) := by
    rw [List.perm_ext_iff_of_nodup nodup_contenders nodup_contenders]
    intro s
    simp only [mem_contenders, perm.mem_iff, spans.mem_iff]
  -- Both rows of bounds are in order, and two bounds each at or before the other are the same.
  have sorted : ∀ splices covering, ((contenders splices covering).map bounds).Pairwise fun p q =>
      p.1 < q.1 ∨ p.1 = q.1 ∧ p.2 ≤ q.2 := fun splices covering =>
    List.pairwise_map.2 (pairwise_contenders.imp fun order => atOrBefore_iff.1 order)
  refine List.Perm.eq_of_pairwise (fun p q _ _ first second => ?_) (sorted _ _) (sorted _ _)
    (same.map bounds)
  exact Prod.ext (by omega) (by omega)

/-- Which stretches clash first is told by the stretches. -/
theorem firstClash?_congr (same : E.map bounds = F.map bounds) :
    (firstClash? E).map (fun p => (p.1.bounds, p.2.bounds)) =
      (firstClash? F).map fun p => (p.1.bounds, p.2.bounds) := by
  induction E generalizing F with
  | nil =>
    obtain rfl := List.map_eq_nil_iff.1 same.symm
    rfl
  | cons a rest ih =>
    obtain ⟨a', rest', rfl, head, tail⟩ := List.map_eq_cons_iff.1 same.symm
    cases rest with
    | nil =>
      obtain rfl := List.map_eq_nil_iff.1 tail
      rfl
    | cons b rest =>
      obtain ⟨b', rest', rfl, next, _⟩ := List.map_eq_cons_iff.1 tail
      have later := ih tail.symm
      simp only [bounds, Prod.mk.injEq] at head next
      -- The check looks at nothing but the bounds.
      have check : a'.clashes b' = a.clashes b := by simp only [clashes, head, next]
      rw [firstClash?, firstClash?, check]
      split
      · simp [bounds, head, next]
      · exact later

/-- The outcome of merging does not depend on the order of splices and spans. -/
theorem merge_perm (proper : ∀ s ∈ splices, s.start ≤ s.stop) (perm : splices'.Perm splices)
    (spans : covering'.Perm covering) : merge splices' covering' = merge splices covering := by
  have clash := firstClash?_congr (bounds_contenders perm spans)
  cases first' : firstClash? (contenders splices' covering') with
  | none =>
    cases first : firstClash? (contenders splices covering) with
    | some clash' => simp [first', first] at clash
    | none =>
      have had : merge splices covering = .ok (contenders splices covering) := by rw [merge_eq, first]
      have had' : merge splices' covering' = .ok (contenders splices' covering') := by
        rw [merge_eq, first']
      -- What is left on both sides are the same splices, each before those that follow.
      obtain ⟨ordered, members⟩ := merge_eq_ok proper had
      obtain ⟨ordered', members'⟩ := merge_eq_ok (fun s member => proper s (perm.mem_iff.1 member)) had'
      rw [had, had', eq_of_mem_iff ordered' ordered fun s => by
        simp only [members, members', perm.mem_iff, spans.mem_iff]]
  | some clash' =>
    cases first : firstClash? (contenders splices covering) with
    | none => simp [first', first] at clash
    | some clash'' =>
      obtain ⟨a, b⟩ := clash''
      obtain ⟨a', b'⟩ := clash'
      simp only [first', first, Option.map_some, Option.some.injEq, Prod.mk.injEq, bounds] at clash
      obtain ⟨⟨start, stop⟩, start', stop'⟩ := clash
      rw [merge_eq, merge_eq, first, first']
      simp only [start, stop, start', stop']

/-! ### What is refused -/

/-- Splices that clash stand next to each other. -/
theorem exists_of_firstClash? (found : firstClash? E = some (a, b)) :
    a.clashes b = true ∧ ∃ front back, E = front ++ a :: b :: back := by
  induction E with
  | nil => cases found
  | cons x rest ih =>
    cases rest with
    | nil => cases found
    | cons y rest =>
      rw [firstClash?] at found
      split at found
      · next here =>
        cases found
        exact ⟨here, [], rest, rfl⟩
      · obtain ⟨clash, front, back, split⟩ := ih found
        exact ⟨clash, x :: front, back, by rw [split, List.cons_append]⟩

/-- Two splices that no span covers collide, where merging is refused. -/
theorem exists_collides_of_merge {e : Error} (proper : ∀ s ∈ splices, s.start ≤ s.stop)
    (refused : merge splices covering = .error e) :
    ∃ a ∈ contenders splices covering, ∃ b ∈ contenders splices covering, a ≠ b ∧ a.Collides b ∧
      e = .conflict (.overlap (.int a.start) (.int a.stop) (.int b.start) (.int b.stop)) := by
  rw [merge_eq] at refused
  split at refused
  · next a b found =>
    cases refused
    obtain ⟨clash, front, back, split⟩ := exists_of_firstClash? found
    have nodup : (contenders splices covering).Nodup := nodup_contenders
    have sorted : (contenders splices covering).Pairwise fun a b => atOrBefore a b = true := pairwise_contenders
    have inA : a ∈ contenders splices covering := by simp [split]
    have inB : b ∈ contenders splices covering := by simp [split]
    rw [split] at nodup sorted
    have order := (List.pairwise_cons.1 (List.pairwise_append.1 sorted).2.1).1 b List.mem_cons_self
    have differ := (List.pairwise_cons.1 (List.pairwise_append.1 nodup).2.1).1 b List.mem_cons_self
    have wide := proper a (mem_contenders.1 inA).1
    have wide' := proper b (mem_contenders.1 inB).1
    refine ⟨a, inA, b, inB, differ, ?_, rfl⟩
    -- In order of position, a splice that starts before another ends overlaps it.
    rw [atOrBefore_iff] at order
    simp only [clashes, Bool.or_eq_true, Bool.and_eq_true, decide_eq_true_eq, beq_iff_eq] at clash
    unfold Collides
    omega
  · cases refused

/-! ### What comes of the text -/

/-- A text from a position on, and what splices make of it: all up to the first one stays, what that one is
about gives way to what it puts in, and so on; behind the last one all stays. -/
inductive Spliced : Nat → List Splice → List Char → List Char → Prop
  | rest (at_ : Nat) (tail : List Char) : Spliced at_ [] tail tail
  | splice {at_ : Nat} {s : Splice} {later : List Splice} {tail out : List Char}
    (stays gone : List Char) : s.start = at_ + stays.length → s.stop = s.start + gone.length →
    Spliced (at_ + stays.length + gone.length) later tail out →
    Spliced at_ (s :: later) (stays ++ gone ++ tail) (stays ++ s.replacement.toList ++ out)

/-- Splices that follow one another are carried out one by one. -/
theorem spliced_applyFrom (ordered : E.Pairwise Before) (bound : at_ ≤ source.length)
    (inside : ∀ s ∈ E, at_ ≤ s.start ∧ s.start ≤ s.stop ∧ s.stop ≤ source.length) :
    Spliced at_ E (source.drop at_) (applyFrom source at_ E) := by
  induction E generalizing at_ with
  | nil =>
    rw [applyFrom, Text.sliceFrom, Text.clamp_ofNat bound]
    exact .rest at_ _
  | cons s later ih =>
    rw [List.forall_mem_cons] at inside
    obtain ⟨⟨low, proper, high⟩, others⟩ := inside
    obtain ⟨first, orderly⟩ := List.pairwise_cons.1 ordered
    obtain ⟨start, stop, text⟩ := s
    simp only at low proper high
    obtain ⟨p, rfl⟩ := Int.eq_ofNat_of_zero_le (show 0 ≤ start by omega)
    obtain ⟨q, rfl⟩ := Int.eq_ofNat_of_zero_le (show 0 ≤ stop by omega)
    have order : at_ ≤ p ∧ p ≤ q ∧ q ≤ source.length := by omega
    have rest := ih orderly order.2.2 fun s member => ⟨(first s member).apart, (others s member).2⟩
    -- What stands up to the splice is copied, and what the splice is about is passed over.
    have stays : ((source.drop at_).take (p - at_)).length = p - at_ := by simp; omega
    have gone : ((source.drop p).take (q - p)).length = q - p := by simp; omega
    have cut : source.drop at_ =
        (source.drop at_).take (p - at_) ++ (source.drop p).take (q - p) ++ source.drop q := by
      conv => lhs; rw [← List.take_append_drop (p - at_) (source.drop at_), List.drop_drop,
        show at_ + (p - at_) = p by omega, ← List.take_append_drop (q - p) (source.drop p),
        List.drop_drop, show p + (q - p) = q by omega]
      rw [List.append_assoc]
    rw [applyFrom, Text.slice_ofNat order.1 (order.2.1.trans order.2.2)]
    conv => arg 3; rw [cut]
    refine .splice _ _ ?_ ?_ ?_
    · simp only [stays]
      omega
    · simp only [gone]
      omega
    · rwa [stays, gone, show at_ + (p - at_) + (q - p) = q by omega]

/-! ### Merging -/

/-- A splice counts: it is one of those that are given, and lies within no span. -/
def Counts (splices : List Splice) (covering : List Location) (s : Splice) : Prop :=
  s ∈ splices ∧ ∀ span ∈ covering, ¬ s.Within span

theorem mem_contenders_iff (proper : ∀ s ∈ splices, s.start ≤ s.stop) :
    s ∈ contenders splices covering ↔ Counts splices covering s := by
  rw [mem_contenders, Counts]
  refine and_congr_right fun member => forall₂_congr fun span _ => ?_
  rw [← coveredBy_iff (proper s member), Bool.not_eq_true]

/-- What is left of splices under spans: all that count, each once, in order of position, and such that no two
of them collide. -/
structure Settled (splices : List Splice) (covering : List Location) (kept : List Splice) : Prop where
  sorted : kept.Pairwise fun a b => a.start ≤ b.start ∧ a.stop ≤ b.start
  apart : kept.Pairwise fun a b => ¬ a.Collides b
  nodup : kept.Nodup
  mem_iff : ∀ s, s ∈ kept ↔ Counts splices covering s

theorem settled_of_ordered (ordered : kept.Pairwise Before)
    (members : ∀ s, s ∈ kept ↔ Counts splices covering s) : Settled splices covering kept := by
  refine ⟨ordered.imp fun before => ?_, ordered.imp fun before => ?_, ordered.imp fun before => ?_, members⟩
  · obtain ⟨_, _, _, _⟩ := before
    omega
  · exact (not_collides_iff before.first before.second).2 (.inl before)
  · rintro rfl
    exact before.asymm before

/-- Merging goes well just if no two of the splices that count collide. -/
theorem exists_merge_iff (proper : ∀ s ∈ splices, s.start ≤ s.stop) :
    (∃ kept, merge splices covering = .ok kept) ↔
      ∀ a b, Counts splices covering a → Counts splices covering b → a ≠ b → ¬ a.Collides b := by
  constructor
  · rintro ⟨kept, merged⟩ a b first second differ
    obtain ⟨ordered, members⟩ := merge_eq_ok proper merged
    simp only [← mem_contenders, mem_contenders_iff proper] at members
    refine (not_collides_iff (proper a first.1) (proper b second.1)).2 ?_
    exact before_or_before ordered ((members a).2 first) ((members b).2 second) differ
  · intro free
    cases merged : merge splices covering with
    | ok kept => exact ⟨kept, rfl⟩
    | error e =>
      obtain ⟨a, inA, b, inB, differ, collides, _⟩ := exists_collides_of_merge proper merged
      exact absurd collides
        (free a b ((mem_contenders_iff proper).1 inA) ((mem_contenders_iff proper).1 inB) differ)

/-- Splices that lie in a text are merged alike in whatever order they and the spans come. Just if no two of
those that count collide they are left, in order and apart, and the text is put together from them and from
what stands between them; otherwise two are told that do collide. -/
theorem merge_settles (text : String) (covering : List Location)
    (inside : ∀ s ∈ splices, 0 ≤ s.start ∧ s.start ≤ s.stop ∧ s.stop ≤ text.length) :
    (∀ splices' covering', splices'.Perm splices → covering'.Perm covering →
      merge splices' covering' = merge splices covering) ∧
    ((∃ kept, merge splices covering = .ok kept) ↔
      ∀ a b, Counts splices covering a → Counts splices covering b → a ≠ b → ¬ a.Collides b) ∧
    (∀ kept, merge splices covering = .ok kept → Settled splices covering kept ∧
      Spliced 0 kept text.toList (applyAll text kept).toList) ∧
    ∀ e, merge splices covering = .error e →
      ∃ a b, Counts splices covering a ∧ Counts splices covering b ∧ a ≠ b ∧ a.Collides b ∧
        e = .conflict (.overlap (.int a.start) (.int a.stop) (.int b.start) (.int b.stop)) := by
  have proper : ∀ s ∈ splices, s.start ≤ s.stop := fun s member => (inside s member).2.1
  refine ⟨fun _ _ => merge_perm proper, exists_merge_iff proper, fun kept merged => ?_, fun e refused => ?_⟩
  · obtain ⟨ordered, members⟩ := merge_eq_ok proper merged
    simp only [← mem_contenders, mem_contenders_iff proper] at members
    refine ⟨settled_of_ordered ordered members, ?_⟩
    have within : ∀ s ∈ kept, ((0 : Nat) : Int) ≤ s.start ∧ s.start ≤ s.stop ∧
        s.stop ≤ text.toList.length := by
      intro s member
      rw [String.length_toList]
      exact inside s ((members s).1 member).1
    have whole := spliced_applyFrom ordered (Nat.zero_le _) within
    rwa [List.drop_zero, ← String.toList_ofList (l := applyFrom _ _ _)] at whole
  · obtain ⟨a, inA, b, inB, differ, collides, told⟩ := exists_collides_of_merge proper refused
    exact ⟨a, b, (mem_contenders_iff proper).1 inA, (mem_contenders_iff proper).1 inB, differ, collides, told⟩

/-- Two splices inside a span that is replaced as a whole do not count, and neither does one that is there
twice; what is inserted at the end of the span does. -/
theorem merge_settles_covered :
    ∃ kept, merge [⟨10, 10, "+"⟩, ⟨5, 5, "ins"⟩, ⟨2, 10, "node"⟩, ⟨4, 6, "inner"⟩, ⟨10, 10, "+"⟩]
        [{ line := 1, col := 3, start := 2, stop := 10 }] = .ok kept ∧
      kept = [⟨2, 10, "node"⟩, ⟨10, 10, "+"⟩] ∧ applyAll "[ 0, 1, 2, 3 ]" kept = "[ node+ 3 ]" ∧
      Spliced 0 kept "[ 0, 1, 2, 3 ]".toList (applyAll "[ 0, 1, 2, 3 ]" kept).toList := by
  have merged : merge [⟨10, 10, "+"⟩, ⟨5, 5, "ins"⟩, ⟨2, 10, "node"⟩, ⟨4, 6, "inner"⟩, ⟨10, 10, "+"⟩]
      [{ line := 1, col := 3, start := 2, stop := 10 }] = .ok [⟨2, 10, "node"⟩, ⟨10, 10, "+"⟩] := by
    decide +kernel
  obtain ⟨_, _, kept, _⟩ := merge_settles "[ 0, 1, 2, 3 ]" [{ line := 1, col := 3, start := 2, stop := 10 }]
    (show ∀ s ∈ ([⟨10, 10, "+"⟩, ⟨5, 5, "ins"⟩, ⟨2, 10, "node"⟩, ⟨4, 6, "inner"⟩, ⟨10, 10, "+"⟩] :
        List Splice), 0 ≤ s.start ∧ s.start ≤ s.stop ∧ s.stop ≤ "[ 0, 1, 2, 3 ]".length by decide +kernel)
  exact ⟨_, merged, rfl, by decide +kernel, (kept _ merged).2⟩

end DocSync.Splice
