import DocSync.Proofs.Patch.Patched

/-!
What a patch leaves alone. No splice reaches into a node that stayed with all around it and in which
nothing changed, whichever gap of a chain the splice is for. So the text of the node is found again in
the patched text, moved by what the splices before it add and take away.
-/

namespace DocSync

/-! ### Stretches of a text that splices lie beside -/

namespace Splice

variable {source : List Char} {lo hi lo' hi' p : Nat} {s : Splice} {E : List Splice}

/-- What a splice adds to the length of a text. -/
def growth (s : Splice) : Int := s.replacement.length - (s.stop - s.start)

/-- What splices add to the length of a text. -/
def gain : List Splice → Int
  | [] => 0
  | s :: rest => s.growth + gain rest

/-- The splices that end at a position or before it. -/
def upTo (splices : List Splice) (p : Nat) : List Splice :=
  splices.filter fun s => s.stop ≤ (p : Int)

/-- The splices that end behind a position. -/
def beyond (splices : List Splice) (p : Nat) : List Splice :=
  splices.filter fun s => (p : Int) < s.stop

/-- Where a position comes to be once the splices before it have been carried out. -/
def landing (splices : List Splice) (p : Nat) : Int := p + gain (upTo splices p)

theorem mem_upTo : s ∈ upTo E p ↔ s ∈ E ∧ s.stop ≤ p := by simp [upTo]

theorem mem_beyond : s ∈ beyond E p ↔ s ∈ E ∧ p < s.stop := by simp [beyond]

/-- Part of a text stands where it was taken from. -/
theorem occurs_slice (within : lo ≤ hi) (bound : hi ≤ source.length) :
    Occurs source lo (Text.slice source lo hi) ∧ lo + (Text.slice source lo hi).length = hi := by
  simp only [Text.slice, Text.clamp_ofNat bound, Text.clamp_ofNat (within.trans bound)]
  constructor
  · refine ⟨source.take lo, (source.drop lo).drop (hi - lo), ?_, ?_⟩
    · rw [List.take_append_drop, List.take_append_drop]
    · rw [List.length_take]
      omega
  · rw [List.length_take, List.length_drop]
    omega

/-- A stretch without splices stays as it is. -/
theorem carried_slice (within : lo ≤ hi) (bound : hi ≤ source.length) :
    Carried source lo hi [] (Text.slice source lo hi) := by
  obtain ⟨occurs, length⟩ := occurs_slice within bound
  have kept := Carried.keep occurs
  rwa [length] at kept

/-- Splices that follow one another in a stretch can be carried out there, and each adds what it adds. -/
theorem exists_carried (within : lo ≤ hi) (bound : hi ≤ source.length)
    (inside : ∀ s ∈ E, lo ≤ s.start ∧ s.start ≤ s.stop ∧ s.stop ≤ hi) (ordered : E.Pairwise Before) :
    ∃ out, Carried source lo hi E out ∧ (out.length : Int) = hi - lo + gain E := by
  induction E generalizing lo with
  | nil =>
    have length := (occurs_slice within bound).2
    refine ⟨_, carried_slice within bound, ?_⟩
    rw [gain]
    omega
  | cons s rest ih =>
    rw [List.forall_mem_cons] at inside
    obtain ⟨first, later⟩ := List.pairwise_cons.1 ordered
    obtain ⟨start, stop, text⟩ := s
    simp only at inside
    obtain ⟨a, rfl⟩ := Int.eq_ofNat_of_zero_le (show 0 ≤ start by omega)
    obtain ⟨b, rfl⟩ := Int.eq_ofNat_of_zero_le (show 0 ≤ stop by omega)
    have behind : ∀ s ∈ rest, (b : Int) ≤ s.start ∧ s.start ≤ s.stop ∧ s.stop ≤ hi :=
      fun s member => ⟨(first s member).apart, (inside.2 s member).2⟩
    have order : lo ≤ a ∧ a ≤ source.length ∧ b ≤ hi := by omega
    obtain ⟨out, carried, length⟩ := ih order.2.2 behind later
    have kept := (occurs_slice order.1 order.2.1).2
    -- The text up to the first splice is kept, and what the others do comes behind it.
    have front : Carried source lo b [⟨a, b, text⟩] (Text.slice source lo a ++ text.toList) :=
      (carried_slice (by omega) (by omega)).append (.replace (by omega) (by omega) text) (.inl (by simp))
    refine ⟨_, front.append carried ?_, ?_⟩
    · by_cases wide : a < b
      · refine .inl fun s member => ?_
        obtain rfl := List.mem_singleton.1 member
        simpa using wide
      · refine .inr fun s member => ?_
        obtain ⟨_, _, _, differ⟩ := first s member
        have := behind s member
        simp only at differ
        omega
    · simp only [List.length_append, gain, growth, String.length_toList]
      push_cast
      omega

/-- Splices that lie beside a stretch are those before it, and those behind it. -/
theorem eq_append_of_beside (ordered : E.Pairwise Before) (proper : ∀ s ∈ E, s.start ≤ s.stop)
    (some_ : lo < hi) (beside : ∀ s ∈ E, s.Beside lo hi) : E = upTo E lo ++ beyond E lo := by
  refine eq_of_mem_iff ordered (List.pairwise_append.2 ⟨ordered.filter _, ordered.filter _, ?_⟩)
    fun s => ?_
  · intro s early s' late
    obtain ⟨inE, before⟩ := mem_upTo.1 early
    obtain ⟨inE', behind⟩ := mem_beyond.1 late
    have := beside s' inE'
    have := proper s inE
    have := proper s' inE'
    unfold Beside at *
    constructor <;> omega
  · rw [List.mem_append, mem_upTo, mem_beyond, ← and_or_left]
    exact (and_iff_left (by omega)).symm

/-- A stretch that all splices lie beside is found again where its start comes to be. -/
theorem occurs_landing {text : String} (ordered : E.Pairwise Before)
    (inside : ∀ s ∈ E, 0 ≤ s.start ∧ s.start ≤ s.stop ∧ s.stop ≤ text.length)
    (some_ : lo < hi) (bound : hi ≤ text.length) (beside : ∀ s ∈ E, s.Beside lo hi) :
    ∃ at_ : Nat, (at_ : Int) = landing E lo ∧
      Occurs (applyAll text E).toList at_ (Text.slice text.toList lo hi) := by
  have length := String.length_toList (s := text)
  have low : 0 ≤ lo ∧ lo ≤ text.toList.length ∧ hi ≤ text.toList.length := by omega
  have before : ∀ s ∈ upTo E lo, ((0 : Nat) : Int) ≤ s.start ∧ s.start ≤ s.stop ∧ s.stop ≤ lo := by
    intro s member
    obtain ⟨inE, before⟩ := mem_upTo.1 member
    have := inside s inE
    omega
  have behind : ∀ s ∈ beyond E lo, (hi : Int) ≤ s.start ∧ s.start ≤ s.stop ∧
      s.stop ≤ text.toList.length := by
    intro s member
    obtain ⟨inE, behind⟩ := mem_beyond.1 member
    have := inside s inE
    have := beside s inE
    unfold Beside at this
    omega
  obtain ⟨out, front, grows⟩ := exists_carried low.1 low.2.1 before (ordered.filter _)
  obtain ⟨out', back, _⟩ := exists_carried low.2.2 (Nat.le_refl _) behind (ordered.filter _)
  -- The stretch itself is kept, between what comes of the text before it and behind it.
  have whole := (front.append (carried_slice some_.le (by omega)) (.inr (by simp))).append back
    (.inl fun s member => by
      have before := (mem_upTo.1 (by simpa using member)).2
      have := inside s (mem_upTo.1 (by simpa using member)).1
      omega)
  rw [List.append_nil, ← eq_append_of_beside ordered (fun s member => (inside s member).2.1) some_
    beside] at whole
  refine ⟨out.length, ?_, out, out', ?_, rfl⟩
  · rw [grows, landing]
    omega
  · rw [whole.applyAll, String.toList_ofList, List.append_assoc]

/-- What splices add is what those up to a position add, and those behind it. -/
theorem gain_eq (E : List Splice) (p : Nat) : gain E = gain (upTo E p) + gain (beyond E p) := by
  induction E with
  | nil => rfl
  | cons s rest ih =>
    rw [gain, ih]
    by_cases before : s.stop ≤ p
    · have front : upTo (s :: rest) p = s :: upTo rest p := by simp [upTo, before]
      have back : beyond (s :: rest) p = beyond rest p := by simp [beyond, before]
      rw [front, back, gain]
      omega
    · have front : upTo (s :: rest) p = upTo rest p := by simp [upTo, before]
      have back : beyond (s :: rest) p = s :: beyond rest p := by simp [beyond, Int.not_le.1 before]
      rw [front, back, gain]
      omega

/-- Splices take away no more than the stretch that they lie in. -/
theorem le_gain (within : lo ≤ hi)
    (inside : ∀ s ∈ E, lo ≤ s.start ∧ s.start ≤ s.stop ∧ s.stop ≤ hi) (ordered : E.Pairwise Before) :
    (lo : Int) - hi ≤ gain E := by
  -- What is left of the stretch, in whatever text, is not shorter than nothing.
  have bound : hi ≤ (List.replicate hi ' ').length := by simp
  obtain ⟨out, _, length⟩ := exists_carried within bound inside ordered
  omega

/-- Stretches that all splices lie beside stay in order, and as far apart as they are long. -/
theorem landing_le (ordered : E.Pairwise Before) (proper : ∀ s ∈ E, s.start ≤ s.stop)
    (within : lo ≤ hi) (beside : ∀ s ∈ E, s.Beside lo hi) (order : lo ≤ lo') :
    landing E lo ≤ landing E lo' ∧ (hi ≤ lo' → landing E lo + (hi - lo) ≤ landing E lo') := by
  -- All that is counted for the second stretch only lies between the two.
  have between : ∀ s ∈ beyond (upTo E lo') lo, hi ≤ s.start ∧ s.start ≤ s.stop ∧ s.stop ≤ lo' := by
    intro s member
    obtain ⟨inUpTo, behind⟩ := mem_beyond.1 member
    obtain ⟨inE, before⟩ := mem_upTo.1 inUpTo
    have := proper s inE
    have := beside s inE
    unfold Beside at this
    omega
  have same : upTo (upTo E lo') lo = upTo E lo := by
    rw [upTo, upTo, List.filter_filter]
    refine List.filter_congr fun s _ => ?_
    simp only [← Bool.decide_and, decide_eq_decide]
    omega
  have sum := gain_eq (upTo E lo') lo
  rw [same] at sum
  unfold landing
  by_cases apart : hi ≤ lo'
  · have least := le_gain apart between ((ordered.filter _).filter _)
    omega
  · have none_ : beyond (upTo E lo') lo = [] := by
      refine List.eq_nil_iff_forall_not_mem.2 fun s member => ?_
      have := between s member
      omega
    rw [none_, gain] at sum
    omega

end Splice

/-! ### Nodes that splices lie beside -/

namespace Model

variable {m : Model} {source : List Char} {fingerprint : String} {k x y : Key}

/-- Of two nodes of a text one hangs on the other, or one stands before the other. -/
theorem Seated.nested_or_apart (seated : m.Seated source fingerprint k) (sound : m.Sound)
    (inX : x ∈ m.subtree k) (inY : y ∈ m.subtree k) : x ∈ m.subtree y ∨ y ∈ m.subtree x ∨
      m.stopOf x ≤ m.startOf y ∨ m.stopOf y ≤ m.startOf x := by
  have linked := sound.toLinked
  -- The induction is on where the upper node stands: both are in one child of it, or in two in a row.
  revert inX inY
  refine seated.descend (motive := fun k => x ∈ m.subtree k → y ∈ m.subtree k → x ∈ m.subtree y ∨
    y ∈ m.subtree x ∨ m.stopOf x ≤ m.startOf y ∨ m.stopOf y ≤ m.startOf x) ?_
  intro k seated below inX inY
  have held := seated.placed.held
  rcases (linked.mem_subtree_iff held).1 inX with rfl | ⟨c, childC, inX'⟩
  · exact .inr (.inl inY)
  rcases (linked.mem_subtree_iff held).1 inY with rfl | ⟨d, childD, inY'⟩
  · exact .inl inX
  have notScalar : (m.node k).kind ≠ .scalar := by
    intro kind
    rw [sound.children_of_scalar held kind] at childC
    cases childC
  obtain ⟨_, _, rowed⟩ := seated.exists_rowed notScalar
  obtain ⟨_, lowerX, upperX, _⟩ := (below c childC).1.within linked inX'
  obtain ⟨_, lowerY, upperY, _⟩ := (below d childD).1.within linked inY'
  rcases rowed.lined.apart childC childD with rfl | before | behind
  · exact (below c childC).2 inX' inY'
  · exact .inr (.inr (.inl (by omega)))
  · exact .inr (.inr (.inr (by omega)))

end Model

namespace PatchTask

variable {t : PatchTask} {x r : Key} {edges kept : List Splice} {s : Splice}

/-- A node of the text that stayed with all that it hangs on, of which nothing is shown anew, and in which
no field and no chain has changed. -/
structure Untouched (t : PatchTask) (x : Key) : Prop where
  held : t.read.Holds x
  stayed : ∀ a, t.read.Holds a → x ∈ t.read.subtree a → t.stayed a = true
  spliced : ∀ a, t.read.Holds a → x ∈ t.read.subtree a → ∀ change ∈ t.changes.fieldChanges,
    t.fieldEdit change ≠ .ok (.inr a)
  fields : ∀ change ∈ t.changes.fieldChanges, ∀ a ∈ t.read.subtree x,
    nodeIn t.read change.node ≠ .ok a
  slots : ∀ slots, t.affectedSlots = .ok slots → ∀ slot ∈ slots, slot.1 ∉ t.read.subtree x

namespace Situated

variable (situated : t.Situated)
include situated

/-- A node that asks for something is not in an untouched one. -/
theorem not_mem_of_asks {slots : List (Key × String)} (affected : t.affectedSlots = .ok slots)
    (untouched : t.Untouched x) {a : Key} (asks : t.Asks a s) : a ∉ t.read.subtree x := by
  obtain ⟨b, partners, asks⟩ := asks
  have found := nodeIn_id situated.soundRead (partners.holds_left situated.soundRead)
  have changed : ∀ name, (t.read.node a).fields.get? name ≠ (t.live.node b).fields.get? name →
      a ∉ t.read.subtree x := by
    intro name differ below
    exact untouched.fields _ (situated.mem_fieldChanges.2 ⟨a, b, name, partners, differ, rfl⟩) a below found
  rcases asks with ⟨name, old, new, _, _, known, known', differ, _⟩ | planned | ⟨⟨name, differ⟩, _⟩
  · refine changed name fun same => differ ?_
    rw [known, known'] at same
    exact Option.some.inj same
  · -- Where the chain has not changed nothing is asked for.
    intro below
    have free : (a, (t.read.node a).edgeName .child) ∉ slots :=
      fun listed => untouched.slots slots affected _ listed below
    rw [(situated.quiet_of_unaffected affected partners free).2.1] at planned
    cases planned
  · exact changed name fun same => differ (by rw [same])

/-- What a node around an untouched one asks for lies beside the child that the untouched one is in. -/
theorem beside_of_asks_above (inOrder : ∀ {a b}, Partners t.read t.live a b → t.InOrder a b)
    (untouched : t.Untouched x) {a c : Key} (asks : t.Asks a s) (child : c ∈ t.read.children a)
    (below : x ∈ t.read.subtree c) : s.Beside (t.read.startOf c) (t.read.stopOf c) := by
  obtain ⟨b, partners, asks⟩ := asks
  have held := partners.holds_left situated.soundRead
  rcases asks with retexted | planned | ⟨⟨name, differ⟩, _⟩
  · -- A field comes before all children.
    obtain ⟨_, _, _, lo, hi, written, rfl⟩ := situated.written_of_retexted partners retexted
    have ahead := written.ahead c child
    exact .inl (by simp only; omega)
  · -- A gap takes away none of the children that stayed.
    have fitting := situated.fitting_of_mem_slotPlan partners (inOrder partners) planned
    exact fitting.beside c child (untouched.stayed c (situated.holds_child held child) below)
  · -- And no node around is shown anew.
    have above := (situated.soundRead.toLinked.mem_subtree_iff held).2 (.inr ⟨c, child, below⟩)
    have listed := situated.mem_fieldChanges.2
      ⟨a, b, name, partners, fun same => differ (by rw [same]), rfl⟩
    exact absurd (situated.fieldEdit_of_isSome_ne partners differ)
      (untouched.spliced a held above _ listed)

variable (readFrom : t.read.ReadFrom t.text r)
include readFrom

/-- Nothing that a node asks for reaches into a node that is untouched. -/
theorem beside_of_asks {slots : List (Key × String)} (affected : t.affectedSlots = .ok slots)
    (inOrder : ∀ {a b}, Partners t.read t.live a b → t.InOrder a b) (untouched : t.Untouched x) {a : Key}
    (asks : t.Asks a s) : s.Beside (t.read.startOf x) (t.read.stopOf x) := by
  have soundRead := situated.soundRead
  have linked := soundRead.toLinked
  have held : t.read.Holds a := asks.choose_spec.1.holds_left soundRead
  have notBelow := situated.not_mem_of_asks affected untouched asks
  by_cases above : x ∈ t.read.subtree a
  · rcases (linked.mem_subtree_iff held).1 above with rfl | ⟨c, child, below⟩
    · exact absurd above notBelow
    · have seated := situated.seated (situated.holds_child held child)
      obtain ⟨_, lower, upper, _⟩ := seated.within linked below
      exact (situated.beside_of_asks_above inOrder untouched asks child below).mono lower upper
  · -- A node that is neither in the untouched one nor around it stands beside it, and so does the splice.
    obtain ⟨lower, order, upper⟩ := situated.within_of_asks inOrder asks
    have all : ∀ {k}, t.read.Holds k → k ∈ t.read.subtree r :=
      (soundRead.mem_subtree_root readFrom.single readFrom.alone).2
    have root := situated.seated (soundRead.holds_root (r := r) (by simp [readFrom.single]))
    unfold Splice.Beside
    rcases root.nested_or_apart soundRead (all untouched.held) (all held) with
      inside | around | before | behind
    · exact absurd inside above
    · exact absurd around notBelow
    · omega
    · omega

/-- What is put beside the document reaches into no node. -/
theorem beside_of_edge (held : t.read.Holds x)
    (edge : s.start = 0 ∧ s.stop = (t.read.leading.length : Int) ∨
      s.start = (t.text.length - t.read.trailing.length : Int) ∧ s.stop = (t.text.length : Int)) :
    s.Beside (t.read.startOf x) (t.read.stopOf x) := by
  have soundRead := situated.soundRead
  have root := situated.seated (soundRead.holds_root (r := r) (by simp [readFrom.single]))
  obtain ⟨_, lower, upper, _⟩ := root.within soundRead.toLinked
    ((soundRead.mem_subtree_root readFrom.single readFrom.alone).2 held)
  have first := readFrom.start
  have last := readFrom.stop
  simp only [String.length_toList] at first last
  unfold Splice.Beside
  omega

/-- The splices of a plan follow one another in the text, and none reaches into an untouched node. -/
theorem beside_of_plan {plan : SplicePlan} (planned : t.plan = .ok plan) :
    plan.splices.Pairwise Splice.Before ∧
      (∀ s ∈ plan.splices, 0 ≤ s.start ∧ s.start ≤ s.stop ∧ s.stop ≤ t.text.length) ∧
      ∀ x, t.Untouched x → ∀ s ∈ plan.splices, s.Beside (t.read.startOf x) (t.read.stopOf x) := by
  obtain ⟨_, slots, _, _, _, _, _, affected, _⟩ := exists_parts_of_plan planned
  have carries := situated.meets_plan readFrom.plain
  rw [planned] at carries
  obtain ⟨edges, _, bounds, settled⟩ := carries.settled
  refine ⟨settled.ordered, fun s member => ?_, fun x untouched s member => ?_⟩
  · have first := readFrom.start
    have last := readFrom.stop
    simp only [String.length_toList] at first last
    have front := readFrom.leading.le
    rw [String.length_toList, String.length_toList] at front
    rcases ((settled.mem_iff s).1 member).1 with beside | ⟨a, asks⟩
    · have := bounds s beside
      omega
    · have within := situated.within_of_asks settled.inOrder asks
      have held : t.read.Holds a := asks.choose_spec.1.holds_left situated.soundRead
      have ends := (situated.seated held).stopOf_le
      rw [String.length_toList] at ends
      omega
  · rcases ((settled.mem_iff s).1 member).1 with beside | ⟨a, asks⟩
    · exact situated.beside_of_edge readFrom untouched.held (bounds s beside)
    · exact situated.beside_of_asks readFrom affected settled.inOrder untouched asks

end Situated

/-- The text written anew is marked as such. -/
theorem fullRender_of_renderWhole {e : Error} {patch : Patch} (had : t.renderWhole e = .ok patch) :
    patch.fullRender = true := by
  unfold renderWhole at had
  cases shown : t.live.render t.config with
  | ok text =>
    rw [shown] at had
    cases had
    rfl
  | error failure =>
    rw [shown] at had
    cases had

/-- A patch that does not write the text anew carries out a plan. -/
theorem exists_plan_of_patch {patch : Patch} (patched : t.patch = .ok patch)
    (spliced : patch.fullRender = false) : ∃ plan, t.plan = .ok plan ∧ patch.splices = plan.splices ∧
      patch.text = Splice.applyAll t.text plan.splices := by
  unfold PatchTask.patch at patched
  cases planned : t.plan with
  | ok plan =>
    rw [planned] at patched
    cases patched
    exact ⟨plan, rfl, rfl, rfl⟩
  | error e =>
    have anew : ∀ e, t.renderWhole e ≠ .ok patch := by
      intro e had
      rw [fullRender_of_renderWhole had] at spliced
      cases spliced
    rw [planned] at patched
    cases e with
    | stale id cause =>
      simp only at patched
      split at patched
      · exact absurd patched (anew _)
      · cases patched
    | conflict cause =>
      simp only at patched
      split at patched
      · exact absurd patched (anew _)
      · cases patched
    | _ => cases patched

end PatchTask

/-- A patch that does not write the text anew leaves alone what is untouched: no splice reaches into the
stretch of such a node, its text is found again in the patched text where it comes to be, and such nodes
keep their order. -/
theorem untouched_of_patch {text : String} {file : Json} {supply count : Nat} {read live : Model}
    (built : Model.build text file supply = .ok (read, count)) (sound : live.Sound) {config : Config}
    {withModels : Bool} {changes : ChangeSet}
    (made : reconcile config read live withModels = .ok changes) {settings : Config} {patch : Patch}
    (patched : PatchTask.patch ⟨settings, text, read, live, changes⟩ = .ok patch)
    (spliced : patch.fullRender = false) :
    (∀ x, PatchTask.Untouched ⟨settings, text, read, live, changes⟩ x →
      (∀ s ∈ patch.splices, s.start ≤ s.stop ∧ s.Beside (read.startOf x) (read.stopOf x)) ∧
      ∃ at_ : Nat, (at_ : Int) = Splice.landing patch.splices (read.startOf x) ∧
        Occurs patch.text.toList at_ (Text.slice text.toList (read.startOf x) (read.stopOf x))) ∧
    ∀ x y, PatchTask.Untouched ⟨settings, text, read, live, changes⟩ x →
      PatchTask.Untouched ⟨settings, text, read, live, changes⟩ y → read.startOf x ≤ read.startOf y →
        Splice.landing patch.splices (read.startOf x) ≤ Splice.landing patch.splices (read.startOf y) ∧
        (read.stopOf x ≤ read.startOf y → Splice.landing patch.splices (read.startOf x) +
          (read.stopOf x - read.startOf x) ≤ Splice.landing patch.splices (read.startOf y)) := by
  obtain ⟨r, readFrom⟩ := Model.exists_readFrom built
  have situated : PatchTask.Situated ⟨settings, text, read, live, changes⟩ :=
    ⟨⟨readFrom.sound, sound, tells_of_reconcile readFrom.sound sound made⟩, readFrom.seated⟩
  obtain ⟨plan, planned, splices, shown⟩ := PatchTask.exists_plan_of_patch patched spliced
  obtain ⟨ordered, inside, beside⟩ := situated.beside_of_plan readFrom planned
  rw [splices, shown]
  have some_ : ∀ {x}, read.Holds x → read.startOf x < read.stopOf x ∧ read.stopOf x ≤ text.length := by
    intro x held
    have ends := (readFrom.seated held).stopOf_le
    rw [String.length_toList] at ends
    exact ⟨(readFrom.seated held).placed.some_, ends⟩
  constructor
  · intro x untouched
    obtain ⟨wide, ends⟩ := some_ untouched.held
    exact ⟨fun s member => ⟨(inside s member).2.1, beside x untouched s member⟩,
      Splice.occurs_landing ordered inside wide ends (beside x untouched)⟩
  · intro x y untouched _ order
    exact Splice.landing_le ordered (fun s member => (inside s member).2.1) (some_ untouched.held).1.le
      (beside x untouched) order

/-- The first item is given another value, and the last one goes. -/
def betweenTask : PatchTask :=
  taskOf "[1, [ 2 ], 3]" [.setField "n7" valueName (some "10"), .remove "n9"]

/-- The array between the two is found again, blanks and all. -/
theorem untouched_of_patch_between : betweenTask.Untouched 2 ∧ ∃ patch, betweenTask.patch = .ok patch ∧
    patch.fullRender = false ∧ patch.text = "[10, [ 2 ]]" ∧
      Occurs patch.text.toList 5 "[ 2 ]".toList := by
  have ready : (Model.build "[1, [ 2 ], 3]" .null 0).toOption.isSome = true ∧
      (reconcile {} betweenTask.read betweenTask.live).toOption.isSome = true ∧
      (betweenTask.patch.toOption.map fun patch => (patch.text, patch.fullRender,
        Splice.landing patch.splices (betweenTask.read.startOf 2))) =
          some ("[10, [ 2 ]]", false, 5) ∧
      Text.slice betweenTask.text.toList (betweenTask.read.startOf 2) (betweenTask.read.stopOf 2) =
        "[ 2 ]".toList := by
    decide +kernel
  have alone : betweenTask.read.nodes.size = 5 ∧ betweenTask.read.Holds 2 ∧
      (∀ a < 5, 2 ∈ betweenTask.read.subtree a → betweenTask.stayed a = true ∧
        ∀ change ∈ betweenTask.changes.fieldChanges,
          (betweenTask.fieldEdit change).toOption.bind Sum.getRight? ≠ some a) ∧
      (∀ change ∈ betweenTask.changes.fieldChanges, ∀ a ∈ betweenTask.read.subtree 2,
        (PatchTask.nodeIn betweenTask.read change.node).toOption ≠ some a) ∧
      ∀ slot ∈ betweenTask.affectedSlots.toOption.getD [], slot.1 ∉ betweenTask.read.subtree 2 := by
    decide +kernel
  obtain ⟨parses, alike, patched, slice⟩ := ready
  obtain ⟨size, held, around, fields, slots⟩ := alone
  have untouched : betweenTask.Untouched 2 := by
    refine ⟨held, fun a heldA above => (around a (size ▸ heldA.1) above).1, ?_, ?_, ?_⟩
    · intro a heldA above change listed edit
      exact (around a (size ▸ heldA.1) above).2 change listed (by rw [edit]; rfl)
    · intro change listed a below found
      exact fields change listed a below (by rw [found]; rfl)
    · intro listed affected slot member
      refine slots slot ?_
      rw [affected]
      exact member
  obtain ⟨patch, had⟩ := Except.exists_ok (by simpa using congrArg Option.isSome patched)
  rw [had] at patched
  obtain ⟨text, rest⟩ := Prod.mk.inj (Option.some.inj patched)
  obtain ⟨spliced, landing⟩ := Prod.mk.inj rest
  have reached := (reachable_readIn "[1, [ 2 ], 3]" (readIn "[1, [ 2 ], 3]" 0).supply).afterCalls
    [.setField "n7" valueName (some "10"), .remove "n9"]
  obtain ⟨at_, lands, occurs⟩ := ((untouched_of_patch (build_eq_readIn parses) reached.sound
    (taskOf_made alike) had spliced).1 2 untouched).2
  obtain rfl : at_ = 5 := Int.ofNat.inj (lands.trans landing)
  refine ⟨untouched, patch, had, spliced, text, ?_⟩
  rw [← slice]
  exact occurs

end DocSync
