import DocSync.Proofs.Patch.Untouched
import DocSync.Proofs.Render.Lacking
import DocSync.Proofs.Render.Typed

/-!
When a patch fails because a node cannot be shown. All that came and all that is shown anew is shown on the
way to a plan, and where no plan is had the whole document is shown. What a plan does not show is a pair
that stayed and from which an object or array was taken: the text is cut out, and nothing takes its place.
-/

namespace DocSync

/-- The failure to show a node. -/
def FailsToShow {α : Type} (result : Except Error α) : Prop := ∃ e, result = .error (.render e)

/-- What is made of a text once it is shown cannot fail. -/
theorem failsToShow_map {α β : Type} {result : Except Error α} (f : α → β) :
    FailsToShow (result >>= fun a => pure (f a)) ↔ FailsToShow result := by
  cases result with
  | ok a => exact iff_of_false (fun ⟨_, failed⟩ => by cases failed) fun ⟨_, failed⟩ => by cases failed
  | error e =>
    refine exists_congr fun e' => ⟨fun failed => ?_, fun failed => ?_⟩
    · cases failed
      rfl
    · rw [failed]
      rfl

namespace Model

variable {m : Model} {config : Config} {k : Key} {source : List Char} {fingerprint : String}

/-- A node of a text lacks nothing. -/
theorem Seated.lack?_eq_none (seated : m.Seated source fingerprint k) : m.lack? k = none := by
  rw [lack?_eq_none_iff]
  cases seated with
  | scalar _ kind _ fields => simp [kind, fields]
  | @container _ isObject _ _ _ kind => cases isObject <;> simp [kind, kindOf]
  | pair _ kind _ _ _ _ _ _ _ value _ =>
    rcases value with ⟨_, _, _, _, _, _, fields⟩ | ⟨c, children, _, _, fields⟩
    · simp [kind, fields]
    · simp [kind, fields, children]

variable (sound : m.Sound) (framed : m.PlainFrames) (generates : config.Generates)
include sound framed generates

/-- A document fails to be shown just if one of its nodes lacks something. -/
theorem failsToShow_render_iff (plain : m.strays = []) :
    FailsToShow ((m.render config).mapError .ofRender) ↔ ∃ j, m.Holds j ∧ m.lack? j ≠ none := by
  rcases hingesOn_render sound framed generates plain with
    ⟨⟨text, shown⟩, fine⟩ | ⟨j, inside, e, lacks, failed⟩
  · rw [shown]
    refine ⟨fun fails => ?_, fun lacking => ?_⟩
    · obtain ⟨e, failed⟩ := fails
      cases failed
    · obtain ⟨j, held, lacks⟩ := lacking
      exact absurd (fine j (sound.mem_order.2 held)) lacks
  · refine ⟨fun _ => ⟨j, sound.mem_order.1 inside, by simp [lacks]⟩, fun _ => ⟨e, ?_⟩⟩
    rw [failed, Except.mapError, ofRender_of_lack lacks]

end Model

namespace PatchTask

variable {t : PatchTask} {a b k : Key}

/-- A pair that stayed, and from which the object or array that it held was taken with nothing in its
place. -/
structure Hollowed (t : PatchTask) (a b : Key) : Prop where
  partners : Partners t.read t.live a b
  pair : (t.live.node b).kind = .pair
  held : t.read.children a ≠ []
  childless : t.live.children b = []
  valueless : (t.live.node b).fields.get? valueName = none

/-- A hollowed pair lacks what a pair must show. -/
theorem Hollowed.lacks (hollowed : t.Hollowed a b) : t.live.lack? b ≠ none := by
  rw [Ne, Model.lack?_eq_none_iff]
  intro fine
  have valued := (fine.2 hollowed.pair).2 hollowed.childless
  rw [hollowed.valueless] at valued
  cases valued

namespace Situated

variable (situated : t.Situated) (framed : t.live.PlainFrames) (generates : t.config.Generates)
include situated framed generates

/-- A node that is shown lacks nothing, and no node below it does. -/
theorem lack?_eq_none_of_shown {c : Key} {text : String} (held : t.live.Holds c)
    (shown : t.liveText c = .ok text) (below : k ∈ t.live.subtree c) : t.live.lack? k = none := by
  have hinges := Model.hingesOn_renderSubtree situated.soundLive framed generates held
  cases rendered : t.live.renderSubtree t.config c with
  | ok text => exact hinges.fine_of_ok rendered k below
  | error e =>
    rw [liveText, rendered] at shown
    cases shown

omit framed generates in
/-- Once there is a plan, a node was there before, or it lies in a node that came and was shown. -/
theorem partners_or_shown {plan : SplicePlan} (carries : t.Carries plan) (held : t.live.Holds k) :
    (∃ a, Partners t.read t.live a k) ∨
      ∃ c text, t.live.Holds c ∧ t.liveText c = .ok text ∧ k ∈ t.live.subtree c := by
  have sound := situated.soundLive
  -- The induction goes up: a node that came lies in one that did, or came to one that was there.
  refine sound.ascend (motive := fun k => (∃ a, Partners t.read t.live a k) ∨
    ∃ c text, t.live.Holds c ∧ t.liveText c = .ok text ∧ k ∈ t.live.subtree c) ?_ held
  intro k held above
  by_cases partner : ∃ a, Partners t.read t.live a k
  · exact .inl partner
  cases owned : (t.live.node k).owner with
  | none => exact .inl (carries.known held owned)
  | some o =>
    have heldO := sound.holds_of_over held (sound.over_of_owner held owned).1
    have child := (sound.mem_children_iff heldO held).2 owned
    right
    rcases above o heldO owned with ⟨a, partners⟩ | ⟨c, text, heldC, shown, below⟩
    · have came : t.known k = false := by
        rw [← Bool.not_eq_true, situated.known_iff held]
        exact partner
      obtain ⟨text, shown⟩ := carries.came partners k child came
      exact ⟨k, text, held, shown, t.live.mem_subtree_self k⟩
    · exact ⟨c, text, heldC, shown, sound.mem_subtree_of_mem_children heldC below child⟩

/-- Once there is a plan, a node that was there before lacks something only if it is a hollowed pair. -/
theorem hollowed_of_partners {plan : SplicePlan} (carries : t.Carries plan)
    (partners : Partners t.read t.live a b) (lacks : t.live.lack? b ≠ none) : t.Hollowed a b := by
  have held := partners.holds_right situated.soundLive
  have before := (situated.seated (partners.holds_left situated.soundRead)).lack?_eq_none
  -- What is shown anew lacks nothing, so the node has the fields that it had.
  have agree : ∀ name, ((t.read.node a).fields.get? name).isSome =
      ((t.live.node b).fields.get? name).isSome := by
    intro name
    by_contra differ
    obtain ⟨text, shown⟩ := carries.anew partners ⟨name, differ⟩
    exact lacks (situated.lack?_eq_none_of_shown framed generates held shown (t.live.mem_subtree_self b))
  -- So it lacks neither a key nor, if it is a scalar, a value, and the value of a pair was no field.
  rw [Model.lack?_eq_none_iff, partners.kind_eq, agree, agree] at before
  rw [Ne, Model.lack?_eq_none_iff, not_and] at lacks
  obtain ⟨pair, missing⟩ := Classical.not_imp.1 (lacks before.1)
  obtain ⟨keyed, valued⟩ := before.2 pair
  obtain ⟨childless, valueless⟩ := Classical.not_imp.1 (not_and.1 missing keyed)
  exact ⟨partners, pair, fun none_ => valueless (valued none_), childless, by simpa using valueless⟩

/-- Once there is a plan, only hollowed pairs lack something. -/
theorem exists_hollowed_of_lack {plan : SplicePlan} (carries : t.Carries plan) (held : t.live.Holds k)
    (lacks : t.live.lack? k ≠ none) : ∃ a, t.Hollowed a k := by
  rcases situated.partners_or_shown carries held with ⟨a, partners⟩ | ⟨c, text, heldC, shown, below⟩
  · exact ⟨a, situated.hollowed_of_partners framed generates carries partners lacks⟩
  · exact absurd (situated.lack?_eq_none_of_shown framed generates heldC shown below) lacks

/-- Without a plan a patch fails to show a node just if the document does. -/
theorem failsToShow_patch_iff (plain : t.read.strays = []) (plain' : t.live.strays = [])
    (fallback : t.config.allowFullRender = true) {e : Error} (failed : t.plan = .error e) :
    FailsToShow t.patch ↔ FailsToShow ((t.live.render t.config).mapError .ofRender) := by
  have sound := situated.soundLive
  have falters := situated.meets_plan plain
  rw [failed] at falters
  cases falters with
  | yields yields =>
    -- The document is shown instead, and what it fails with the patch fails with.
    rw [patch_of_yields fallback failed yields, renderWhole]
    exact failsToShow_map _
  | shown held unshown =>
    cases rendered : t.live.renderSubtree t.config _ with
    | ok text =>
      rw [liveText, rendered] at unshown
      cases unshown
    | error e' =>
      -- What the node lacks, or one below it, is lacking in the document.
      obtain ⟨j, below, lacks⟩ :=
        (Model.hingesOn_renderSubtree sound framed generates held).exists_lack rendered
      rw [liveText, rendered, Except.mapError, Model.ofRender_of_lack lacks] at unshown
      cases unshown
      have heldJ := (sound.over_of_mem_subtree held below).2
      refine iff_of_true ⟨e', by rw [patch, failed]⟩ ?_
      exact (Model.failsToShow_render_iff sound framed generates plain').2 ⟨j, heldJ, by simp [lacks]⟩
  | framed heldRead unframed =>
    have plainFrames := Model.plainFrames_of_seated situated.seated
    obtain ⟨frame, had, _⟩ := plainFrames.exists_frame situated.soundRead generates heldRead _
    rw [had] at unframed
    cases unframed
  | beside missing =>
    rw [edgeSplices_eq plain plain'] at missing
    cases missing

end Situated

end PatchTask

/-- A model that is read from a text has texts wherever texts are due. -/
theorem Model.ReadFrom.typed {m : Model} {text : String} {r : Key} (readFrom : m.ReadFrom text r) : m.Typed :=
  ⟨readFrom.plain, plainFrames_of_seated readFrom.seated⟩

/-- A patch and the document fail to be shown together, unless the patch carries out a plan and a pair was
hollowed: then the patch is had, and the document cannot be shown. -/
theorem failsToShow_iff_of_patch {text : String} {file : Json} {supply count : Nat} {read live : Model}
    (built : Model.build text file supply = .ok (read, count)) (sound : live.Sound) (typed : live.Typed)
    {config : Config} {withModels : Bool} {changes : ChangeSet}
    (made : reconcile config read live withModels = .ok changes) {settings : Config}
    (plain : settings.strays = []) (fallback : settings.allowFullRender = true) :
    (FailsToShow (PatchTask.patch ⟨settings, text, read, live, changes⟩) ↔
      FailsToShow ((live.render settings).mapError .ofRender)) ↔
    ¬ ((∃ patch, PatchTask.patch ⟨settings, text, read, live, changes⟩ = .ok patch ∧
        patch.fullRender = false) ∧
      ∃ a b, PatchTask.Hollowed ⟨settings, text, read, live, changes⟩ a b) := by
  obtain ⟨beside, framed⟩ := typed
  obtain ⟨r, readFrom⟩ := Model.exists_readFrom built
  have situated : PatchTask.Situated ⟨settings, text, read, live, changes⟩ :=
    ⟨⟨readFrom.sound, sound, tells_of_reconcile readFrom.sound sound made⟩, readFrom.seated⟩
  have generates := Config.generates_of_plain plain
  cases planned : PatchTask.plan ⟨settings, text, read, live, changes⟩ with
  | error e =>
    refine iff_of_true
      (situated.failsToShow_patch_iff framed generates readFrom.plain beside fallback planned) ?_
    rintro ⟨⟨patch, patched, spliced⟩, _⟩
    obtain ⟨plan, had, _⟩ := PatchTask.exists_plan_of_patch patched spliced
    rw [planned] at had
    cases had
  | ok plan =>
    have carries := situated.meets_plan readFrom.plain
    rw [planned] at carries
    have patched : PatchTask.patch ⟨settings, text, read, live, changes⟩ = .ok
        { text := Splice.applyAll text plan.splices, splices := plan.splices, drafts := plan.drafts } := by
      rw [PatchTask.patch, planned]
    have succeeds : ¬ FailsToShow (PatchTask.patch ⟨settings, text, read, live, changes⟩) := by
      rintro ⟨e, failed⟩
      rw [patched] at failed
      cases failed
    -- As the patch is had, the two agree just if nothing is lacking.
    rw [iff_false_left succeeds, Model.failsToShow_render_iff sound framed generates beside, not_iff_not]
    constructor
    · rintro ⟨k, held, lacks⟩
      obtain ⟨a, hollowed⟩ := situated.exists_hollowed_of_lack framed generates carries held lacks
      exact ⟨⟨_, patched, rfl⟩, a, k, hollowed⟩
    · rintro ⟨_, a, b, hollowed⟩
      exact ⟨b, hollowed.partners.holds_right sound, hollowed.lacks⟩

/-- What calls make of a text's model is typed, if they bring in nothing but texts where texts are due. -/
theorem typed_taskOf {text : String} {calls : List Call}
    (parses : (Model.build text .null (readIn text 0).supply).toOption.isSome = true)
    (typed : ∀ call ∈ calls, call.Typed) : (taskOf text calls).live.Typed := by
  obtain ⟨r, readFrom⟩ := Model.exists_readFrom (build_eq_readIn parses)
  exact typed_afterCalls readFrom.typed typed

/-- The array that a pair holds is taken out. -/
def hollowTask : PatchTask := taskOf "\x7b\"a\": [1]\x7d" [.remove "n7"]

/-- The text comes to lack the value, and the model cannot be shown. -/
theorem hollowTask_outcome :
    (∃ patch, hollowTask.patch = .ok patch ∧ patch.fullRender = false ∧
      patch.text = "\x7b\"a\": \x7d") ∧
    hollowTask.live.render {} = .error (.pairWithoutValue "n6") := by
  have outcome : hollowTask.patch.toOption.map (fun patch => (patch.fullRender, patch.text)) =
      some (false, "\x7b\"a\": \x7d") ∧ hollowTask.live.render {} = .error (.pairWithoutValue "n6") := by
    decide +kernel
  obtain ⟨patched, unshown⟩ := outcome
  obtain ⟨patch, had⟩ := Except.exists_ok (by simpa using congrArg Option.isSome patched)
  rw [had] at patched
  obtain ⟨spliced, text⟩ := Prod.mk.inj (Option.some.inj patched)
  exact ⟨⟨patch, had, spliced, text⟩, unshown⟩

/-- The task meets all that is asked of one. -/
theorem hollowTask_made : Model.build hollowTask.text .null 0 =
      .ok (hollowTask.read, (readIn hollowTask.text 0).supply) ∧ hollowTask.live.Sound ∧
    hollowTask.live.Typed ∧ hollowTask.live.roots.length = 1 ∧
    reconcile {} hollowTask.read hollowTask.live = .ok hollowTask.changes := by
  have ready : (Model.build hollowTask.text .null 0).toOption.isSome = true ∧
      (Model.build hollowTask.text .null (readIn hollowTask.text 0).supply).toOption.isSome = true ∧
      hollowTask.live.roots.length = 1 ∧
      (reconcile {} hollowTask.read hollowTask.live).toOption.isSome = true := by
    decide +kernel
  obtain ⟨parses, again, single, alike⟩ := ready
  exact ⟨build_eq_readIn parses, ((reachable_readIn _ _).afterCalls _).sound,
    typed_taskOf again (by simp [Call.Typed]), single, taskOf_made alike⟩

/-- The patch and the document do not fail together here, so the patch carries out a plan with a hollowed
pair. -/
theorem failsToShow_iff_of_patch_hollow :
    (∃ patch, hollowTask.patch = .ok patch ∧ patch.fullRender = false) ∧
      ∃ a b, hollowTask.Hollowed a b := by
  obtain ⟨built, sound, typed, _, made⟩ := hollowTask_made
  obtain ⟨⟨patch, patched, _⟩, unshown⟩ := hollowTask_outcome
  have known := failsToShow_iff_of_patch built sound typed made
    (show (({} : Config).strays = []) from rfl) rfl
  by_contra agrees
  obtain ⟨e, failed⟩ := (known.2 agrees).2 ⟨.pairWithoutValue "n6", by rw [unshown]; rfl⟩
  cases patched.symm.trans failed

/-- Not always does a patch fail to be shown when the document does. -/
theorem not_failsToShow_iff_of_patch : ¬ ∀ {text : String} {file : Json} {supply count : Nat}
    {read live : Model}, Model.build text file supply = .ok (read, count) → live.Sound → live.Typed →
    live.roots.length = 1 → ∀ {config : Config} {withModels : Bool} {changes : ChangeSet},
    reconcile config read live withModels = .ok changes → ∀ {settings : Config}, settings.strays = [] →
    settings.allowFullRender = true →
      (FailsToShow (PatchTask.patch ⟨settings, text, read, live, changes⟩) ↔
        FailsToShow ((live.render settings).mapError .ofRender)) := by
  intro all
  obtain ⟨built, sound, typed, single, made⟩ := hollowTask_made
  obtain ⟨⟨patch, patched, _⟩, unshown⟩ := hollowTask_outcome
  have agrees := all built sound typed single made (show (({} : Config).strays = []) from rfl) rfl
  obtain ⟨e, failed⟩ := agrees.2 ⟨.pairWithoutValue "n6", by rw [unshown]; rfl⟩
  cases patched.symm.trans failed

end DocSync
