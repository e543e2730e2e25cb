import DocSync.Proofs.Patch.Retold

/-!
A node's stretch of the text with the splices carried out that count inside of it. Node by node the
stretch is put together from those of the children that stayed, what lies between them, and the gaps in
which something went or came; so it is put together for what the node became.
-/

namespace DocSync

open Lexer (Blanks Lexeme)

namespace PatchTask

variable {t : PatchTask} {edges kept E F plans plans' : List Splice} {keys keys' gone came : List Key}
  {a b c k k' x y : Key} {s : Splice} {lo mid hi p q r : Nat} {out out' text : List Char}

/-- Something that hangs on one of several nodes asks for a splice. -/
def AsksUnder (t : PatchTask) (keys : List Key) (s : Splice) : Prop :=
  ∃ x ∈ keys, ∃ y ∈ t.read.subtree x, t.Asks y s

/-- A stretch with the splices carried out that count there: of those that are planned for it, and of
what the nodes in it ask for. -/
structure Part (t : PatchTask) (kept : List Splice) (keys : List Key) (plans : List Splice)
    (lo hi : Nat) (E : List Splice) (out : List Char) : Prop where
  carried : Splice.Carried t.text.toList lo hi E out
  mem_iff : ∀ s, s ∈ E ↔ s ∈ kept ∧ (s ∈ plans ∨ t.AsksUnder keys s)

/-- The stretch of a node with all carried out that counts there is put together for what the node became. -/
def Rewritten (t : PatchTask) (kept : List Splice) (a b : Key) : Prop :=
  ∃ E out, t.Part kept [a] [] (t.read.startOf a) (t.read.stopOf a) E out ∧ t.Retold out b

/-- No node around a node is shown anew. -/
def Clear (t : PatchTask) (a : Key) : Prop :=
  ∀ {z b}, Partners t.read t.live z b → t.Renewed z b →
    z ∈ t.read.subtree a ∨ t.read.stopOf z ≤ t.read.startOf a ∨ t.read.stopOf a ≤ t.read.startOf z

namespace Part

/-- A stretch without nodes, of which the splices are told. -/
theorem of_kept (carried : Splice.Carried t.text.toList lo hi E out) (counts : ∀ s ∈ E, s ∈ kept) :
    t.Part kept [] E lo hi E out where
  carried := carried
  mem_iff s := by
    constructor
    · exact fun member => ⟨counts s member, .inl member⟩
    · rintro ⟨_, member | ⟨_, none_, _⟩⟩
      · exact member
      · cases none_

/-- A stretch that is left alone. -/
theorem keep (kept : List Splice) (occurs : Occurs t.text.toList lo text) :
    t.Part kept [] [] lo (lo + text.length) [] text :=
  .of_kept (.keep occurs) (by simp)

/-- Two stretches that lie one behind the other. -/
theorem append (left : t.Part kept keys plans lo mid E out)
    (right : t.Part kept keys' plans' mid hi F out')
    (apart : (∀ s ∈ E, s.start < mid) ∨ ∀ s ∈ F, mid < s.stop) :
    t.Part kept (keys ++ keys') (plans ++ plans') lo hi (E ++ F) (out ++ out') where
  carried := left.carried.append right.carried apart
  mem_iff s := by
    have under : t.AsksUnder (keys ++ keys') s ↔ t.AsksUnder keys s ∨ t.AsksUnder keys' s := by
      simp only [AsksUnder, List.mem_append, or_and_right, exists_or]
    rw [List.mem_append, left.mem_iff, right.mem_iff, List.mem_append, under]
    tauto

end Part

namespace Ready

variable (ready : t.Ready) (settled : t.Settled edges kept)
include ready settled

/-- What is asked for under a node lies inside of it. -/
theorem inside_of_asksUnder (held : t.read.Holds x) (member : y ∈ t.read.subtree x)
    (asks : t.Asks y s) : s.Inside (t.read.startOf x) (t.read.stopOf x) := by
  obtain ⟨_, lower, upper, _⟩ := (ready.seated held).within ready.soundRead.toLinked member
  exact (ready.inside_of_asks settled.inOrder asks).mono lower upper

/-- What counts in the stretch of a node lies inside of the node. -/
theorem inside_of_part (held : t.read.Holds x) (part : t.Part kept [x] [] lo hi E out) (s : Splice)
    (member : s ∈ E) : s.Inside (t.read.startOf x) (t.read.stopOf x) := by
  obtain ⟨_, none_ | ⟨_, single, y, below, asks⟩⟩ := (part.mem_iff s).1 member
  · cases none_
  · obtain rfl := List.mem_singleton.1 single
    exact ready.inside_of_asksUnder settled held below asks

/-- What a node asks for counts if it takes no part away of a node in it that is shown anew. -/
theorem mem_kept (clear : t.Clear a) (asks : t.Asks a s)
    (spares : ∀ {z b}, z ∈ t.read.subtree a → Partners t.read t.live z b → t.Renewed z b →
      s.Spares (t.read.startOf z) (t.read.stopOf z)) : s ∈ kept := by
  have inside := ready.inside_of_asks settled.inOrder asks
  refine (settled.mem_iff s).2 ⟨.inr ⟨a, asks⟩, fun {z b span} partners renewed start stop => ?_⟩
  have some_ := (ready.seated (partners.holds_left ready.soundRead)).placed.some_
  -- A node that is shown anew hangs on this one, or stands apart from it.
  have beside : s.Spares (t.read.startOf z) (t.read.stopOf z) := by
    rcases clear partners renewed with member | apart
    · exact spares member partners renewed
    · exact inside.spares (by omega)
  exact beside.not_coveredBy inside.ordered some_ start stop

/-- A gap that is replaced as a whole, with all nodes in it. -/
theorem part_gap (keys : List Key) {shown : String} (counts : (⟨lo, hi, shown⟩ : Splice) ∈ kept)
    (order : lo ≤ hi) (bound : hi ≤ t.text.toList.length)
    (between : ∀ x ∈ keys, t.read.Holds x ∧ lo ≤ t.read.startOf x ∧ t.read.stopOf x ≤ hi) :
    t.Part kept keys [⟨lo, hi, shown⟩] lo hi [⟨lo, hi, shown⟩] shown.toList where
  carried := .replace order bound shown
  mem_iff s := by
    constructor
    · intro member
      obtain rfl := List.mem_singleton.1 member
      exact ⟨counts, .inl member⟩
    · rintro ⟨known, member | ⟨x, inKeys, y, member, asks⟩⟩
      · exact member
      · -- Next to the splice of the gap nothing counts that lies inside of the gap.
        obtain ⟨held, lower, upper⟩ := between x inKeys
        have inside := (ready.inside_of_asksUnder settled held member asks).mono lower upper
        exact List.mem_singleton.2 (Splice.eq_of_inside settled.ordered counts known inside)

/-- A node that is shown anew. -/
theorem rewritten_of_renewed (partners : Partners t.read t.live a b) (clear : t.Clear a)
    (renewed : t.Renewed a b) : t.Rewritten kept a b := by
  have heldA := partners.holds_left ready.soundRead
  have heldB := partners.holds_right ready.soundLive
  have seated := ready.seated heldA
  have asks : t.Asks a (t.wholeSplice a b) := ⟨b, partners, .inr (.inr ⟨renewed, rfl⟩)⟩
  -- All of the node is replaced, and with it all nodes that hang on it.
  have counts := ready.mem_kept settled clear asks fun {z _} member _ _ => by
    obtain ⟨_, lower, upper, _⟩ := seated.within ready.soundRead.toLinked member
    exact .inr (.inr ⟨by simp only [wholeSplice]; omega, by simp only [wholeSplice]; omega⟩)
  refine ⟨[t.wholeSplice a b], (t.shown b).toList,
    ⟨.replace seated.placed.some_.le seated.stopOf_le _, fun s => ?_⟩, .shown heldB⟩
  constructor
  · intro member
    obtain rfl := List.mem_singleton.1 member
    exact ⟨counts, .inr ⟨a, List.mem_singleton_self a, a,
      (ready.soundRead.toLinked.mem_subtree_iff heldA).2 (.inl rfl), asks⟩⟩
  · rintro ⟨known, none_ | ⟨x, member, y, inside, asks'⟩⟩
    · cases none_
    · obtain rfl := List.mem_singleton.1 member
      exact List.mem_singleton.2 (Splice.eq_of_inside settled.ordered counts known
        (ready.inside_of_asksUnder settled heldA inside asks'))

/-- What a node asks for counts if the node is not shown anew. -/
theorem mem_kept_of_plain (partners : Partners t.read t.live a b) (clear : t.Clear a)
    (plain : ¬ t.Renewed a b) (asks : t.Retexted a b s ∨ s ∈ t.slotPlan a b) : s ∈ kept := by
  have heldA := partners.holds_left ready.soundRead
  have some_ : t.Asks a s := ⟨b, partners, asks.imp_right .inl⟩
  refine ready.mem_kept settled clear some_ fun {z b'} member partners' renewed => ?_
  rcases (ready.soundRead.toLinked.mem_subtree_iff heldA).1 member with rfl | ⟨c, child, inside⟩
  · obtain rfl := partners.right_unique ready.soundRead partners'
    exact absurd renewed plain
  · -- What spares a child spares all that hangs on it.
    obtain ⟨_, lower, upper, _⟩ := (ready.seated (ready.holds_child heldA child)).within
      ready.soundRead.toLinked inside
    exact (ready.spares_of_asks settled.inOrder partners asks child).mono lower upper

omit settled in
/-- What is put together from the children of a node and what the node asks for is the node's own
stretch. -/
theorem part_node (partners : Partners t.read t.live a b) (plain : ¬ t.Renewed a b)
    (part : t.Part kept (t.read.children a) plans (t.read.startOf a) (t.read.stopOf a) E out)
    (all : ∀ s, s ∈ plans ↔ t.Retexted a b s ∨ s ∈ t.slotPlan a b) :
    t.Part kept [a] [] (t.read.startOf a) (t.read.stopOf a) E out where
  carried := part.carried
  mem_iff s := by
    -- What is asked of the node is asked at itself or at one of its children.
    have subtree := fun y => ready.soundRead.toLinked.mem_subtree_iff
      (x := y) (partners.holds_left ready.soundRead)
    rw [part.mem_iff, all]
    refine and_congr_right fun _ => ?_
    constructor
    · rintro (asks | ⟨x, child, y, inside, asks⟩)
      · exact .inr ⟨a, List.mem_singleton_self a, a, (subtree a).2 (.inl rfl), b, partners,
          asks.imp_right .inl⟩
      · exact .inr ⟨a, List.mem_singleton_self a, y, (subtree y).2 (.inr ⟨x, child, inside⟩), asks⟩
    · rintro (none_ | ⟨x, single, y, member, asks⟩)
      · cases none_
      · obtain rfl := List.mem_singleton.1 single
        rcases (subtree y).1 member with rfl | ⟨c, child, inside⟩
        · obtain ⟨b', partners', asks⟩ := asks
          obtain rfl := partners.right_unique ready.soundRead partners'
          exact .inl (asks.imp_right fun asks => asks.resolve_right fun renewed => plain renewed.1)
        · exact .inr ⟨c, child, y, inside, asks⟩

/-! ### Rows of siblings -/

omit ready settled in
/-- Nodes that came are shown one after the other. -/
theorem row_shown (came_ : ∀ x ∈ c :: came, t.live.Holds x) :
    Row (t.Spaces a) t.Retold ((t.read.sampled a).separator.intercalate ((c :: came).map t.shown)).toList
      (c :: came) := by
  rw [List.map_cons, toList_intercalate, List.map_map]
  refine .of_texts (.inl rfl) ?_
  rw [List.forall_mem_cons] at came_
  rw [List.forall₂_cons, List.forall₂_map_left_iff, List.forall₂_same]
  exact ⟨.shown came_.1, fun x member => .shown (came_.2 x member)⟩

/-- A sibling that stayed, with what went and came behind it. -/
theorem exists_part_run {after : Option Key} (rewritten : t.Rewritten kept k k')
    (held : t.read.Holds k) (trails : t.read.Trails t.text.toList (t.read.stopOf k) gone r)
    (bound : r ≤ t.text.toList.length) (gone_ : ∀ x ∈ gone, t.read.Holds x)
    (came_ : ∀ x ∈ came, t.live.Holds x) (counts : Gap.stirred ⟨some k, after, gone, came⟩ = true →
      t.spliceOf a ⟨some k, after, gone, came⟩ ∈ kept) :
    ∃ E out, t.Part kept (k :: gone)
        (([⟨some k, after, gone, came⟩].filter Gap.stirred).map (t.spliceOf a)) (t.read.startOf k) r E
          out ∧
      Row (t.Spaces a) t.Retold out (k' :: came) ∧ ∀ s ∈ E, t.read.startOf k < s.stop := by
  obtain ⟨E, text, part, within⟩ := rewritten
  have some_ := (ready.seated held).placed.some_
  have inside := ready.inside_of_part settled held part
  have row : Row (t.Spaces a) t.Retold (text ++ (came.map fun x => (t.shown x).toList).flatMap
      ((t.read.sampled a).separator.toList ++ ·)) (k' :: came) := by
    refine .of_texts (.inl rfl) (.cons within ?_)
    rw [List.forall₂_map_left_iff, List.forall₂_same]
    exact fun x member => .shown (came_ x member)
  cases moved : Gap.stirred ⟨some k, after, gone, came⟩ with
  | false =>
    -- Nothing went or came behind the sibling, so its own stretch is all there is.
    simp only [Gap.stirred, Bool.not_eq_false', Bool.and_eq_true, List.isEmpty_iff] at moved
    obtain ⟨rfl, rfl⟩ := moved
    obtain rfl : t.read.stopOf k = r := trails
    refine ⟨E, text, part, by simpa using row, fun s member => ?_⟩
    obtain ⟨_, _, _, _⟩ := inside s member
    omega
  | true =>
    -- The splice reaches from where the sibling ends to where the last one that went does.
    have stop := trails.stopOf_getLast
    have between := trails.between
    obtain ⟨shown, is, shows⟩ : ∃ shown : String, t.spliceOf a ⟨some k, after, gone, came⟩ =
        ⟨t.read.stopOf k, r, shown⟩ ∧ shown.toList = (came.map fun x => (t.shown x).toList).flatMap
          ((t.read.sampled a).separator.toList ++ ·) := by
      refine ⟨_, by simp only [spliceOf, stop]; rfl, ?_⟩
      cases came with
      | nil => rfl
      | cons x came =>
        simp only [List.isEmpty_cons, Bool.false_eq_true, if_false, List.map_cons,
          String.toList_append, toList_intercalate, List.map_map, Function.comp_def,
          List.flatMap_cons, List.append_assoc]
    have gap := ready.part_gap settled gone (is ▸ counts moved) between.1 bound fun x member =>
      ⟨gone_ x member, (between.2 x member).1.le, (between.2 x member).2.2⟩
    have both := part.append gap (.inl fun s member => by
      obtain ⟨_, _, _, _⟩ := inside s member
      omega)
    rw [shows] at both
    rw [List.filter_cons_of_pos moved, List.filter_nil, List.map_singleton, is]
    refine ⟨_, _, both, row, fun s member => ?_⟩
    rcases List.mem_append.1 member with early | late
    · obtain ⟨_, _, _, _⟩ := inside s early
      omega
    · obtain rfl := List.mem_singleton.1 late
      simp only
      omega

omit ready settled in
/-- The last of some siblings, and what comes behind them, come one right behind the other. -/
theorem adjacent_getLast (k : Key) (gone : List Key) (x : Key) (rest : List Key) :
    [(gone.getLast?).getD k, x] <:+: (k :: gone) ++ x :: rest := by
  induction gone generalizing k with
  | nil => exact ⟨[], rest, rfl⟩
  | cons next gone ih =>
    rw [List.getLast?_cons, Option.getD_some, List.cons_append]
    exact (ih next).trans (List.infix_cons (List.infix_refl _))

/-- Siblings that stayed, each with what went and came behind it, one behind the other. -/
theorem exists_part_runs {run run' : Key × List Key} {rest rest' : List (Key × List Key)}
    (partners : List.Forall₂ (fun run run' => Partners t.read t.live run.1 run'.1) (run :: rest)
      (run' :: rest'))
    (lined : t.read.Lined t.text.toList p ((run :: rest).flatMap fun run => run.1 :: run.2) q)
    (bound : q ≤ t.text.toList.length)
    (old : ((run :: rest).flatMap fun run => run.1 :: run.2) <:+: t.read.children a)
    (each : ∀ x ∈ (run :: rest).flatMap fun run => run.1 :: run.2, t.read.Holds x ∧
      ∀ y, Partners t.read t.live x y → t.Rewritten kept x y)
    (came_ : ∀ x ∈ (run' :: rest').flatMap fun run => run.1 :: run.2, t.live.Holds x)
    (counts : ∀ gap ∈ gapsBehind (run :: rest) (run' :: rest'), gap.stirred = true →
      t.spliceOf a gap ∈ kept) :
    ∃ E out, t.Part kept ((run :: rest).flatMap fun run => run.1 :: run.2)
        (((gapsBehind (run :: rest) (run' :: rest')).filter Gap.stirred).map (t.spliceOf a)) p q E
          out ∧
      Row (t.Spaces a) t.Retold out ((run' :: rest').flatMap fun run => run.1 :: run.2) ∧
      ∀ s ∈ E, p < s.stop := by
  -- The induction is on the siblings that stayed, each with its run.
  induction rest generalizing run run' rest' p with
  | nil =>
    obtain ⟨first, none_⟩ := List.forall₂_cons.1 partners
    obtain rfl := List.forall₂_nil_left_iff.1 none_
    rw [List.flatMap_cons, List.flatMap_nil, List.append_nil] at lined each came_ ⊢
    obtain ⟨rfl, _, trails⟩ := lined
    rw [List.flatMap_cons, List.flatMap_nil, List.append_nil]
    rw [List.forall_mem_cons] at each
    exact ready.exists_part_run settled (each.1.2 _ first) each.1.1 trails bound
      (fun x member => (each.2 x member).1) (fun x member => came_ x (List.mem_cons_of_mem _ member))
      (counts _ (List.mem_singleton_self _))
  | cons second rest ih =>
    obtain ⟨first, others⟩ := List.forall₂_cons.1 partners
    obtain ⟨second', rest', next, others', rfl⟩ := List.forall₂_cons_left_iff.1 others
    rw [List.flatMap_cons] at lined each came_ old ⊢
    rw [List.flatMap_cons (x := run')]
    rw [List.forall_mem_append, List.forall_mem_cons] at each
    rw [List.forall_mem_append] at came_
    rw [gapsBehind_cons] at counts ⊢
    rw [List.forall_mem_cons] at counts
    obtain ⟨rfl, _, trails⟩ := lined
    obtain ⟨r, front, back⟩ := Model.trails_append.1 trails
    rw [List.flatMap_cons] at back
    -- Behind the run comes a comma, and then the next sibling that stayed.
    have order := back.between.1
    obtain ⟨⟨comma, isGap, occurs, start⟩, some_, later⟩ := back
    have long := Model.length_pos_of_gap isGap
    obtain ⟨E, out, part, row, beyond⟩ := ready.exists_part_run settled (a := a) (each.1.1.2 _ first)
      each.1.1.1 front (order.trans bound) (fun x member => (each.1.2 x member).1)
      (fun x member => came_.1 x (List.mem_cons_of_mem _ member)) counts.1
    obtain ⟨E', out', part', row', beyond'⟩ := ih others (p := t.read.startOf second.1)
      (by rw [List.flatMap_cons]; exact ⟨rfl, some_, later⟩) ((List.suffix_append _ _).isInfix.trans old)
      each.2 came_.2 counts.2
    have between : t.Spaces a comma := by
      have ends := front.stopOf_getLast
      rw [List.flatMap_cons] at old
      exact .inr ⟨_, _, (adjacent_getLast run.1 run.2 second.1 (second.2 ++ _)).trans old, isGap, ends ▸ occurs,
        ends ▸ start⟩
    have kept_ := Part.keep kept occurs
    rw [← start] at kept_
    have whole := (part.append kept_ (.inr (by simp))).append part' (.inr beyond')
    refine ⟨E ++ [] ++ E', out ++ comma ++ out', ?_, ?_, fun s member => ?_⟩
    · rw [← List.singleton_append (x := Gap.mk _ _ _ _), List.filter_append, List.map_append]
      simpa only [List.append_nil, List.append_assoc, List.cons_append] using whole
    · rw [List.append_assoc]
      exact row.append between row'
    · rw [List.append_nil] at member
      rcases List.mem_append.1 member with early | late
      · exact beyond s early
      · have := beyond' s late
        have := front.between.1
        omega

/-- A row of which some stayed. -/
theorem exists_part_row {first first' : List Key} {rest rest' : List (Key × List Key)}
    (cut : t.Cut a b first first' rest rest') (anchored : rest ≠ [])
    (lined : t.read.Lined t.text.toList p (t.read.children a) q) (bound : q ≤ t.text.toList.length)
    (each : ∀ x ∈ t.read.children a, t.read.Holds x ∧
      ∀ y, Partners t.read t.live x y → t.Rewritten kept x y)
    (came_ : ∀ x ∈ t.live.children b, t.live.Holds x)
    (counts : ∀ gap ∈ gapsOfCut first first' rest rest', gap.stirred = true →
      t.spliceOf a gap ∈ kept) :
    ∃ E out, t.Part kept (t.read.children a)
        (((gapsOfCut first first' rest rest').filter Gap.stirred).map (t.spliceOf a)) p q E out ∧
      Row (t.Spaces a) t.Retold out (t.live.children b) := by
  obtain ⟨old, new, partners, _, _, _, _⟩ := cut
  have behind := (List.suffix_append first (rest.flatMap fun run => run.1 :: run.2)).isInfix
  rw [← old] at behind
  rw [old] at lined each ⊢
  rw [new] at came_ ⊢
  cases partners with
  | nil => exact absurd rfl anchored
  | @cons run run' rest rest' one others =>
    rw [List.forall_mem_append] at each came_
    rw [gapsOfCut, List.forall_mem_cons] at counts
    have starts : ∀ {x}, first.head? = some x → t.read.startOf x = p := by
      intro x head
      cases first with
      | nil => cases head
      | cons y first =>
        cases head
        exact lined.1
    have alone : first = [] → t.read.startOf run.1 = p := by
      rintro rfl
      exact lined.1
    obtain ⟨r, r', front, order, back⟩ := Model.lined_append lined
    have between := front.between
    have later := back.between.1
    have start : t.read.startOf run.1 = r' := by
      rw [List.flatMap_cons] at back
      exact back.1
    obtain ⟨E, out, part, row, beyond⟩ := ready.exists_part_runs settled (.cons one others) back bound
      behind each.2 came_.2 counts.2
    rw [gapsOfCut]
    cases moved : Gap.stirred ⟨none, ((run :: rest).map Prod.fst).head?, first, first'⟩ with
    | false =>
      rw [List.filter_cons_of_neg (ne_true_of_eq_false moved)]
      simp only [Gap.stirred, Bool.not_eq_false', Bool.and_eq_true, List.isEmpty_iff] at moved
      obtain ⟨rfl, rfl⟩ := moved
      rw [← alone rfl, start]
      exact ⟨E, out, part, row⟩
    | true =>
      -- What came is shown before the sibling that stayed, with a separator behind each.
      -- The splice reaches from where the first one that went starts to the first one that stayed.
      have begins : t.read.startOf ((first.head?).getD run.1) = p := by
        cases head : first.head? with
        | none => exact alone (List.head?_eq_none_iff.1 head)
        | some x => exact starts head
      obtain ⟨shown, is, shows⟩ : ∃ shown : String,
          t.spliceOf a ⟨none, ((run :: rest).map Prod.fst).head?, first, first'⟩ = ⟨p, r', shown⟩ ∧
            Row (t.Spaces a) t.Retold (shown.toList ++ out)
              (first' ++ (run' :: rest').flatMap fun run => run.1 :: run.2) := by
        refine ⟨_, by simp only [spliceOf, List.map_cons, List.head?_cons, begins, start]; rfl, ?_⟩
        cases first' with
        | nil => simpa using row
        | cons x came =>
          have both := (row_shown (a := a) came_.1).append (.inl rfl) row
          simpa only [List.isEmpty_cons, Bool.false_eq_true, if_false, String.toList_append,
            List.append_assoc] using both
      have gap := ready.part_gap settled first (is ▸ counts.1 moved) (by omega) (by omega)
        fun x member => ⟨(each.1 x member).1, (between.2 x member).1,
          (between.2 x member).2.2.trans order⟩
      rw [List.filter_cons_of_pos moved, List.map_cons, is]
      exact ⟨_, _, gap.append part (.inr beyond), shows⟩

/-! ### The kinds of nodes -/

omit ready settled in
/-- What is put together behind one opening or another, and before the closing. -/
theorem exists_part_between {opening closing middle : List Char} {first last : Nat}
    (opens : Occurs t.text.toList first opening) (closes : Occurs t.text.toList last closing)
    (part : t.Part kept keys plans (first + opening.length) last E middle) :
    ∃ F, t.Part kept keys plans first (last + closing.length) F (opening ++ (middle ++ closing)) := by
  have both := ((Part.keep kept opens).append part (.inl (by simp))).append (.keep kept closes)
    (.inr (by simp))
  simp only [List.nil_append, List.append_nil, List.append_assoc] at both
  exact ⟨_, both⟩

/-- An object or array of which nothing stayed. All between its brackets is replaced, and an opening
that was laid out for children is cut down where none came. -/
theorem exists_part_anew {isObject : Bool} {first first' : List Key} {last : Nat}
    (bracketed : t.read.Bracketed t.text.toList a isObject last)
    (partners : Partners t.read t.live a b) (kind : (t.read.node a).kind = kindOf isObject)
    (old : t.read.children a = first) (new : t.live.children b = first')
    (held : ∀ x ∈ first, t.read.Holds x) (came_ : ∀ x ∈ first', t.live.Holds x)
    (counts : Gap.stirred ⟨none, none, first, first'⟩ = true →
      t.spliceOf a ⟨none, none, first, first'⟩ ∈ kept) :
    ∃ E out, t.Part kept first
        (([⟨none, none, first, first'⟩].filter Gap.stirred).map (t.spliceOf a)) (t.read.startOf a)
        (t.read.stopOf a) E out ∧ t.Retold out b := by
  obtain ⟨brackets, indent, slot, opens, lined, closes, stop⟩ := bracketed
  have bound := closes.le
  rw [old] at lined
  rw [stop]
  have between := lined.between
  cases moved : Gap.stirred ⟨none, none, first, first'⟩ with
  | false =>
    rw [List.filter_cons_of_neg (ne_true_of_eq_false moved)]
    simp only [Gap.stirred, Bool.not_eq_false', Bool.and_eq_true, List.isEmpty_iff] at moved
    obtain ⟨rfl, rfl⟩ := moved
    have nothing : t.Part kept [] [] (t.read.startOf a + (t.read.sampled a).opening.toList.length) last
        [] [] := by
      rw [show t.read.startOf a + (t.read.sampled a).opening.toList.length = last from lined]
      exact .keep kept (closes.left (x := []))
    obtain ⟨F, whole⟩ := exists_part_between opens closes nothing
    exact ⟨F, _, whole, .empty partners kind new (.inr ⟨old, rfl⟩)⟩
  | true =>
    -- Whether something came or not, what is kept of the opening is what it starts with.
    obtain ⟨opening, is, behind, split⟩ : ∃ opening : String,
        opening = (if first'.isEmpty then (t.read.sampled a).emptyOpening
          else (t.read.sampled a).opening) ∧
          opening.toList <+: (t.read.sampled a).opening.toList := by
      refine ⟨_, rfl, ?_⟩
      split
      · exact Model.emptyOpening_prefix _
      · exact List.prefix_refl _
    have splice : t.spliceOf a ⟨none, none, first, first'⟩ =
        ⟨(t.read.startOf a + opening.toList.length : Nat), (last : Nat),
          (t.read.sampled a).separator.intercalate (first'.map t.shown)⟩ := by
      simp only [spliceOf, slot, stop, ← is, String.length_toList, Splice.mk.injEq, and_true]
      omega
    have shorter := congrArg List.length split
    rw [List.length_append] at shorter
    have gap := ready.part_gap settled first (splice ▸ counts moved) (by omega) (by omega)
      fun x member => ⟨held x member, by have := between.2 x member; omega, (between.2 x member).2.2⟩
    obtain ⟨F, whole⟩ := exists_part_between (split ▸ opens).left closes gap
    rw [List.filter_cons_of_pos moved, List.filter_nil, List.map_singleton, splice]
    refine ⟨F, _, whole, ?_⟩
    subst is
    cases first' with
    | nil => exact .empty partners kind new (.inl rfl)
    | cons c came =>
      refine .row partners kind (fun _ _ => id) ?_
      rw [new]
      exact row_shown came_

/-- The chain of an object or array with all carried out that counts there, between brackets. -/
theorem exists_part_container {isObject : Bool} {last : Nat}
    (bracketed : t.read.Bracketed t.text.toList a isObject last)
    (kind : (t.read.node a).kind = kindOf isObject) (partners : Partners t.read t.live a b)
    (clear : t.Clear a) (plain : ¬ t.Renewed a b)
    (each : ∀ x ∈ t.read.children a, ∀ y, Partners t.read t.live x y → t.Rewritten kept x y) :
    ∃ E out, t.Part kept (t.read.children a) (t.slotPlan a b) (t.read.startOf a) (t.read.stopOf a) E
        out ∧ t.Retold out b := by
  have held : ∀ x ∈ t.read.children a, t.read.Holds x :=
    fun x child => ready.holds_child (partners.holds_left ready.soundRead) child
  have came_ : ∀ x ∈ t.live.children b, t.live.Holds x :=
    fun x child => ready.holds_child_live (partners.holds_right ready.soundLive) child
  obtain ⟨first, first', rest, rest', cut, gaps⟩ := ready.exists_cut partners
    (settled.inOrder partners)
  have counts : ∀ gap ∈ gapsOfCut first first' rest rest', gap.stirred = true →
      t.spliceOf a gap ∈ kept := by
    intro gap member moved
    refine ready.mem_kept_of_plain settled partners clear plain (.inr ?_)
    rw [slotPlan, gaps]
    exact List.mem_map_of_mem (List.mem_filter.2 ⟨member, moved⟩)
  rw [slotPlan, gaps]
  by_cases anchored : rest = []
  · -- Without anchors there is one gap, which is all of the chain.
    subst anchored
    obtain rfl := List.forall₂_nil_left_iff.1 cut.partners
    have old : t.read.children a = first := by simpa using cut.old
    have new : t.live.children b = first' := by simpa using cut.new
    rw [old] at held ⊢
    rw [new] at came_
    exact ready.exists_part_anew settled bracketed partners kind old new held came_
      (counts _ List.mem_cons_self)
  · obtain ⟨_, _, _, opens, lined, closes, stop⟩ := bracketed
    have bound := closes.le
    obtain ⟨E, out, part, row⟩ := ready.exists_part_row settled cut anchored lined (by omega)
      (fun x child => ⟨held x child, each x child⟩) came_ counts
    obtain ⟨F, whole⟩ := exists_part_between opens closes part
    rw [stop]
    exact ⟨F, _, whole, .row partners kind (fun _ _ => id) row⟩

theorem rewritten_container (isObject : Bool) (kind : (t.read.node a).kind = kindOf isObject)
    (partners : Partners t.read t.live a b) (clear : t.Clear a) (plain : ¬ t.Renewed a b)
    (each : ∀ x ∈ t.read.children a, ∀ y, Partners t.read t.live x y → t.Rewritten kept x y) :
    t.Rewritten kept a b := by
  obtain ⟨fields, last, bracketed⟩ :=
    (ready.seated (partners.holds_left ready.soundRead)).exists_bracketed kind
  obtain ⟨E, out, part, retold⟩ := ready.exists_part_container settled bracketed kind partners clear
    plain each
  -- It has no fields, so nothing else is asked for.
  have own : ∀ s, s ∈ t.slotPlan a b ↔ t.Retexted a b s ∨ s ∈ t.slotPlan a b := by
    have none_ : (t.read.node a).fields = Dict.ofList [] := fields
    simp [retexted_iff none_]
  exact ⟨E, out, ready.part_node partners plain part own, retold⟩

/-- A field of a node that is not shown anew, with the new text where it has another one. -/
theorem exists_part_field {name old new : String} (partners : Partners t.read t.live a b)
    (clear : t.Clear a) (plain : ¬ t.Renewed a b)
    (known : (t.read.node a).fields.get? name = some old)
    (known' : (t.live.node b).fields.get? name = some new) (field : t.read.FieldAt a name lo hi) :
    ∃ E, t.Part kept [] E lo hi E new.toList ∧ ∀ s, s ∈ E ↔ t.RetextedAt a b name s := by
  obtain ⟨lo', hi', written⟩ :=
    (ready.seated (partners.holds_left ready.soundRead)).exists_written known
  obtain ⟨rfl, rfl⟩ := field.unique written.field
  obtain ⟨E, carried, all⟩ := exists_carried_field written known known'
  exact ⟨E, .of_kept carried fun s member => ready.mem_kept_of_plain settled partners clear plain
    (.inl ⟨name, (all s).1 member⟩), all⟩

theorem rewritten_scalar (kind : (t.read.node a).kind = .scalar)
    (partners : Partners t.read t.live a b) (clear : t.Clear a) (plain : ¬ t.Renewed a b) :
    t.Rewritten kept a b := by
  have heldB := partners.holds_right ready.soundLive
  cases ready.seated (partners.holds_left ready.soundRead) with
  | @container _ isObject _ _ _ kind' =>
    rw [kind] at kind'
    cases isObject <;> cases kind'
  | pair _ kind' =>
    rw [kind] at kind'
    cases kind'
  | @scalar _ value _ _ _ fields childless _ _ field =>
    -- A scalar is its value, so its text is that of one field.
    have kindB := partners.kind_eq ▸ kind
    have filled := ready.furnished.filled heldB
    rw [Model.Filled, kindB] at filled
    obtain ⟨value', _, fields'⟩ := filled
    have known : (t.read.node a).fields.get? valueName = some (String.ofList value) := by
      rw [fields, Dict.get?_ofList_singleton]
    have known' : (t.live.node b).fields.get? valueName = some (String.ofList value') := by
      rw [fields', Dict.get?_ofList_singleton]
    obtain ⟨E, part, all⟩ :=
      ready.exists_part_field settled partners clear plain known known' field
    have own : ∀ s, s ∈ E ↔ t.Retexted a b s ∨ s ∈ t.slotPlan a b := by
      simp [retexted_iff fields, all, ready.slotPlan_of_scalar partners kind]
    exact ⟨E, _, ready.part_node partners plain (childless ▸ part) own, .scalar partners kind known'⟩

/-- The object or array that is the value of a pair, where the pair has one on both sides: it stayed, or
another one came in its place. -/
theorem exists_part_value (partners : Partners t.read t.live a b) (clear : t.Clear a)
    (plain : ¬ t.Renewed a b) (old : t.read.children a = [c]) (new : t.live.children b = [k])
    (slot : t.read.slotStart a + (t.read.sampled a).opening.length = p)
    (closing : (t.read.sampled a).closing.length = 0) (start : t.read.startOf c = p)
    (stop : t.read.stopOf c = t.read.stopOf a)
    (each : ∀ y, Partners t.read t.live c y → t.Rewritten kept c y) :
    ∃ E out, t.Part kept [c] (t.slotPlan a b) p (t.read.stopOf a) E out ∧ t.Retold out k := by
  have heldC := ready.holds_child (partners.holds_left ready.soundRead)
    (by rw [old]; exact List.mem_singleton_self c)
  have heldK := ready.holds_child_live (partners.holds_right ready.soundLive)
    (by rw [new]; exact List.mem_singleton_self k)
  by_cases stayed : Partners t.read t.live c k
  · -- The value stayed, and what is carried out is carried out inside of it.
    have unplanned := (ready.inOrder_of_partners partners
      (by rw [old, new]; exact .cons stayed .nil)).2
    rw [unplanned, ← start, ← stop]
    exact each k stayed
  · obtain ⟨first, first', rest, rest', cut, gaps⟩ := ready.exists_cut partners
      (settled.inOrder partners)
    obtain ⟨oldCut, newCut, anchors, _, _, _, _⟩ := cut
    rw [old] at oldCut
    rw [new] at newCut
    cases anchors with
    | @cons run run' _ _ one _ =>
      -- The only anchors there could be are the two values.
      have isC : run.1 ∈ [c] := by rw [oldCut]; simp
      have isK : run'.1 ∈ [k] := by rw [newCut]; simp
      rw [List.mem_singleton.1 isC, List.mem_singleton.1 isK] at one
      exact absurd one stayed
    | nil =>
      have planned : t.slotPlan a b = [⟨p, t.read.stopOf a, t.shown k⟩] := by
        obtain rfl : [c] = first := by simpa using oldCut
        obtain rfl : [k] = first' := by simpa using newCut
        rw [slotPlan, gaps]
        simp [gapsOfCut, gapsBehind, gapsOf, Gap.stirred, spliceOf, closing, ← slot]
      have counts : (⟨p, t.read.stopOf a, t.shown k⟩ : Splice) ∈ kept :=
        ready.mem_kept_of_plain settled partners clear plain
          (.inr (by rw [planned]; exact List.mem_singleton_self _))
      have some_ := (ready.seated heldC).placed.some_
      have bound := (ready.seated heldC).stopOf_le
      have gap := ready.part_gap settled [c] counts (by omega) (by omega) fun x member => by
        obtain rfl := List.mem_singleton.1 member
        exact ⟨heldC, by omega, by omega⟩
      exact ⟨_, _, planned ▸ gap, .shown heldK⟩

omit settled in
/-- A pair is put together from its key, what follows that up to the value, and the value. -/
theorem rewritten_of_value {key key' opening : List Char} (partners : Partners t.read t.live a b)
    (plain : ¬ t.Renewed a b)
    (front : t.Part kept [] E (t.read.startOf a) (t.read.startOf a + key.length) E key')
    (opens : Occurs t.text.toList (t.read.startOf a) (key ++ opening)) (long : 0 < opening.length)
    (back : t.Part kept (t.read.children a) plans (t.read.startOf a + key.length + opening.length)
      (t.read.stopOf a) F out)
    (own : ∀ s, s ∈ E ++ plans ↔ t.Retexted a b s ∨ s ∈ t.slotPlan a b)
    (retold : t.Retold (key' ++ (opening ++ out)) b) : t.Rewritten kept a b := by
  have whole := (front.append (.keep kept opens.right) (.inr (by simp))).append back
    (.inl fun s member => by
      have := front.carried.inside s (by simpa using member)
      omega)
  simp only [List.append_nil, List.nil_append, List.append_assoc] at whole
  exact ⟨_, _, ready.part_node partners plain whole own, retold⟩

theorem rewritten_pair (kind : (t.read.node a).kind = .pair) (partners : Partners t.read t.live a b)
    (clear : t.Clear a) (plain : ¬ t.Renewed a b)
    (each : ∀ x ∈ t.read.children a, ∀ y, Partners t.read t.live x y → t.Rewritten kept x y) :
    t.Rewritten kept a b := by
  have heldB := partners.holds_right ready.soundLive
  cases ready.seated (partners.holds_left ready.soundRead) with
  | @container _ isObject _ _ _ kind' =>
    rw [kind] at kind'
    cases isObject <;> cases kind'
  | scalar _ kind' =>
    rw [kind] at kind'
    cases kind'
  | @pair _ key frame placed _ lexeme stored fits closing slot opens field value below =>
    have kindB := partners.kind_eq ▸ kind
    have filled := ready.furnished.filled heldB
    rw [Model.Filled, kindB] at filled
    obtain ⟨key', _, live⟩ := filled
    obtain rfl : t.read.sampled a = frame := by rw [Model.sampled, stored]; rfl
    have long := Model.length_pos_of_gap
      (ready.sampled_pair (partners.holds_left ready.soundRead) kind).1
    -- The key is a field on both sides.
    have known : (t.read.node a).fields.get? keyField = some (String.ofList key) := by
      rcases value with ⟨_, _, _, _, _, _, fields⟩ | ⟨_, _, _, _, fields⟩ <;> simp [fields]
    have known' : (t.live.node b).fields.get? keyField = some (String.ofList key') := by
      rcases live with ⟨_, _, _, fields⟩ | ⟨_, _, _, fields⟩ <;> simp [fields]
    obtain ⟨E, front, all⟩ := ready.exists_part_field settled partners clear plain known known' field
    -- The value is a field on both sides, or a child on both, as the pair would be shown anew else.
    rcases value with ⟨text, isValue, occurs, stop, childless, field', fields⟩ |
      ⟨c, children, start, stop, fields⟩ <;>
      rcases live with ⟨text', _, childless', fields'⟩ | ⟨c', children', _, fields'⟩
    · -- Two fields, each replaced where its text differs.
      have valued : (t.read.node a).fields.get? valueName = some (String.ofList text) := by
        rw [fields, get?_valueName]
      have valued' : (t.live.node b).fields.get? valueName = some (String.ofList text') := by
        rw [fields', get?_valueName]
      obtain ⟨F, back, all'⟩ :=
        ready.exists_part_field settled partners clear plain valued valued' field'
      have unplanned := (ready.inOrder_of_partners partners
        (by rw [childless, childless']; exact .nil)).2
      refine ready.rewritten_of_value partners plain front opens long (childless ▸ back) ?_
        (.field partners kind childless' known' valued')
      simp [retexted_iff fields, all, all', unplanned]
    · refine absurd ⟨valueName, ?_⟩ plain
      simp [fields, fields']
    · refine absurd ⟨valueName, ?_⟩ plain
      simp [fields, fields']
    · -- A field for the key, and a child for the value.
      have opening : t.read.slotStart a + (t.read.sampled a).opening.length =
          t.read.startOf a + key.length + (t.read.sampled a).opening.toList.length := by
        rw [slot.slotStart, String.length_toList]
      obtain ⟨F, out, back, retold⟩ := ready.exists_part_value settled partners clear plain children
        children' opening (by rw [closing]; rfl) start stop
        (each c (by rw [children]; exact List.mem_singleton_self c))
      refine ready.rewritten_of_value partners plain front opens long (children ▸ back) ?_
        (.slot partners kind children' known' retold)
      simp [retexted_iff fields, all]

omit settled in
/-- A child of a node that is not shown anew has no such node around it, either. -/
theorem clear_child (partners : Partners t.read t.live a b) (clear : t.Clear a)
    (plain : ¬ t.Renewed a b) (child : c ∈ t.read.children a) : t.Clear c := by
  intro z b' partners' renewed
  have linked := ready.soundRead.toLinked
  have heldA := partners.holds_left ready.soundRead
  have notScalar : (t.read.node a).kind ≠ .scalar := by
    intro kind
    rw [ready.soundRead.children_of_scalar heldA kind] at child
    cases child
  obtain ⟨p, q, rowed⟩ := (ready.seated heldA).exists_rowed notScalar
  obtain ⟨_, lower, upper, _⟩ := (ready.seated heldA).within linked
    ((linked.mem_subtree_iff heldA).2 (.inr ⟨c, child,
      (linked.mem_subtree_iff (ready.holds_child heldA child)).2 (.inl rfl)⟩))
  -- A node that hangs on the parent hangs on this child, or on a sibling that stands apart.
  rcases clear partners' renewed with member | apart
  · rcases (linked.mem_subtree_iff heldA).1 member with rfl | ⟨c', child', inside⟩
    · obtain rfl := partners.right_unique ready.soundRead partners'
      exact absurd renewed plain
    · obtain ⟨_, lower', upper', _⟩ :=
        (ready.seated (ready.holds_child heldA child')).within linked inside
      rcases rowed.lined.apart child child' with rfl | apart
      · exact .inl inside
      · exact .inr (by omega)
  · exact .inr (by omega)

/-- A node comes to say what it became once its children that stayed do. -/
theorem rewritten_of_children (partners : Partners t.read t.live a b) (clear : t.Clear a)
    (each : ∀ x ∈ t.read.children a, ∀ {y}, Partners t.read t.live x y → t.Clear x →
      t.Rewritten kept x y) : t.Rewritten kept a b := by
  by_cases renewed : t.Renewed a b
  · exact ready.rewritten_of_renewed settled partners clear renewed
  · have each_ : ∀ x ∈ t.read.children a, ∀ y, Partners t.read t.live x y → t.Rewritten kept x y :=
      fun x child _ one => each x child one (ready.clear_child partners clear renewed child)
    cases kind : (t.read.node a).kind with
    | object => exact ready.rewritten_container settled true kind partners clear renewed each_
    | array => exact ready.rewritten_container settled false kind partners clear renewed each_
    | pair => exact ready.rewritten_pair settled kind partners clear renewed each_
    | scalar => exact ready.rewritten_scalar settled kind partners clear renewed

/-- Every node comes to say what it became, if no node around it is shown anew. -/
theorem rewritten (seated : t.read.Seated t.text.toList (Digest.fingerprint t.text) a)
    (partners : Partners t.read t.live a b) (clear : t.Clear a) : t.Rewritten kept a b := by
  -- The induction is on where the node stands in the text; it is for the children that it is used.
  induction seated generalizing b with
  | scalar _ _ _ _ childless =>
    exact ready.rewritten_of_children settled partners clear (by simp [childless])
  | container _ _ _ _ _ _ _ _ _ _ _ ih =>
    exact ready.rewritten_of_children settled partners clear fun x child _ one free =>
      ih x child one free
  | pair _ _ _ _ _ _ _ _ _ _ _ ih =>
    exact ready.rewritten_of_children settled partners clear fun x child _ one free =>
      ih x child one free

end Ready

end PatchTask

end DocSync
