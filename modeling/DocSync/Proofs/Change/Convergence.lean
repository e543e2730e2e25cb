import DocSync.Proofs.Change.Reconcile
import DocSync.Proofs.Snapshot.Collision
import DocSync.Proofs.Snapshot.Shape

/-!
Convergence: a reconciliation of two models that comes to an end leaves a change set that the old
model takes without a refusal, and that leads it to the new one.
-/

namespace DocSync

variable {m old new : Model} {c : ChangeSet} {carry : NodeId → NodeId} {image : Key → Key} {b r : Key}

namespace CarriedOver

variable (carried : CarriedOver m new carry image) (sound : m.Sound) (soundNew : new.Sound)
include carried sound soundNew

/-- Links back lead from image to image. -/
theorem parent (held : new.Holds b) : (m.node (image b)).parent =
    (new.node b).parent.map fun above => (image above.1, above.2) := by
  cases above : (new.node b).parent with
  | some link =>
    obtain ⟨p, e⟩ := link
    obtain ⟨heldP, target⟩ := soundNew.forth held above
    have leads := carried.target heldP e
    rw [target] at leads
    exact (sound.back (carried.holds heldP) leads).2
  | none =>
    -- Whatever links to the image is the image of something that links to the node.
    cases there : (m.node (image b)).parent with
    | none => rfl
    | some link =>
      obtain ⟨q, e⟩ := link
      obtain ⟨heldQ, target⟩ := sound.forth (carried.holds held) there
      obtain ⟨p, heldP, rfl⟩ := carried.onto heldQ
      rw [carried.target heldP] at target
      obtain ⟨d, leads, same⟩ := Option.map_eq_some_iff.1 target
      obtain ⟨heldD, back⟩ := soundNew.back heldP leads
      rw [carried.injective heldD held same, above] at back
      cases back

/-- The nodes at top level are the images of those at top level. -/
theorem mem_roots (held : new.Holds b) : image b ∈ m.roots ↔ b ∈ new.roots := by
  rw [sound.root_iff, soundNew.root_iff, carried.parent sound soundNew held, Option.map_eq_none_iff]
  exact ⟨fun both => ⟨held, both.2⟩, fun both => ⟨carried.holds held, both.2⟩⟩

/-- The top level is that of the other model, in some order. -/
theorem roots_perm : m.roots.Perm (new.roots.map image) := by
  have held : ∀ {r}, r ∈ new.roots → new.Holds r := soundNew.holds_root
  have nodup : (new.roots.map image).Nodup := soundNew.roots_nodup.map_on fun r first s second =>
    carried.injective (held first) (held second)
  refine (List.perm_ext_iff_of_nodup sound.roots_nodup nodup).2 fun k => ?_
  rw [List.mem_map]
  constructor
  · intro root
    obtain ⟨b, heldB, rfl⟩ := carried.onto (sound.holds_root root)
    exact ⟨b, (carried.mem_roots sound soundNew heldB).1 root, rfl⟩
  · rintro ⟨b, root, rfl⟩
    exact (carried.mem_roots sound soundNew (held root)).2 root

/-- A model carried over from one with a single top-level node has a single one, the image. -/
theorem roots (single : new.roots = [r]) : m.roots = [image r] := by
  have perm := carried.roots_perm sound soundNew
  rw [single, List.map_singleton] at perm
  exact List.perm_singleton.1 perm

/-- The shapes at an image are those at its node. -/
theorem shapesAt (held : new.Holds b) : m.shapesAt (some (image b)) = new.shapesAt (some b) := by
  refine soundNew.shapesAt_image sound.toLinked carried.holds (fun heldB => ?_) carried.target held
  rw [Model.contentOf, Model.contentOf, carried.kind heldB, carried.fields heldB]

end CarriedOver

/-- A model carried over from one with a single top-level node has the same snapshot text. -/
theorem CarriedOver.text_eq (carried : CarriedOver m new carry image) (sound : m.Sound)
    (soundNew : new.Sound) (single : new.roots = [r]) (indent : Option Json.Indent) :
    m.snapshot.text indent = new.snapshot.text indent := by
  have held : new.Holds r := soundNew.holds_root (by simp [single])
  exact text_snapshot_congr sound soundNew (carried.roots sound soundNew single) single
    (carried.shapesAt sound soundNew held) indent

/-- Two models reconciled. The reconciliation fails only if the search for a new label is given up,
as long as the numbers of the lines have no more digits than a numeral may have. If it does not fail,
every host takes its change set, and comes to the new model carried over: one to one, with the kinds,
the fields and the links of the new model, and with the old ids of all nodes that both share. When
the new model has one top-level node, the snapshot's text is the same as well. -/
theorem reconcile_converges {σ : Type} {h : Host Error σ} (quiet : h.Quiet) {s : σ}
    {live target : Workspace} (reachedLive : Reachable live) (reachedTarget : Reachable target)
    (hosted : h.model s = live.model)
    (apart : ∀ a b, live.model.Holds a → target.model.Holds b →
      (live.model.node a).id.name ≠ (target.model.node b).id.name)
    {config : Config} (plain : config.strays = []) (withModels : Bool) :
    (∀ e, reconcile config live.model target.model withModels = .error e →
      (∃ id limit, e = .collision id limit) ∨
        10 ^ Text.maxDigits ≤ labelRoom config live.model target.model) ∧
    ∀ c, reconcile config live.model target.model withModels = .ok c →
      ∃ applied s', h.applyEntries c.entries s = .ok applied s' ∧ applied.entries = c.entries ∧
        ∃ image, CarriedOver (h.model s') target.model c.carry image ∧
          (∀ b id, target.model.Holds b → c.oldId? (target.model.node b).id = some id →
            live.model.Holds (image b) ∧ (live.model.node (image b)).id = id ∧
              ((h.model s').node (image b)).id = id) ∧
          ((∃ r, target.model.roots = [r]) → ∀ indent,
            (h.model s').snapshot.text indent = target.model.snapshot.text indent) := by
  have soundLive := reachedLive.sound
  have soundTarget := reachedTarget.sound
  constructor
  · intro e failed
    rcases Nat.lt_or_ge (labelRoom config live.model target.model) (10 ^ Text.maxDigits) with
      short | long
    · rcases orCollides_reconcile soundLive soundTarget plain short withModels with
        ⟨c, made⟩ | ⟨id, limit, collided⟩
      · rw [failed] at made
        cases made
      · rw [failed] at collided
        cases collided
        exact .inl ⟨id, limit, rfl⟩
    · exact .inr long
  · intro c made
    have tells := tells_of_reconcile soundLive soundTarget made
    obtain ⟨m, image, does, sound, carried, shared⟩ :=
      tells.exists_replayed soundLive soundTarget fun {a b} => apart a b
    rw [← hosted] at does soundLive
    obtain ⟨applied, same, s', ran, rfl⟩ := Host.Gives.applyEntries quiet soundLive does
    rw [hosted] at soundLive
    refine ⟨applied, s', ran, same, image, carried, fun b id held known => ?_, ?_⟩
    · -- Only a node with a partner is known under an id of the old model.
      by_cases partner : ∃ a, Partners live.model target.model a b
      · obtain ⟨a, partners⟩ := partner
        have old := tells.oldId?_of_partners soundTarget partners
        rw [known] at old
        obtain rfl := Option.some.inj old
        have id := carried.id held
        rw [tells.carry_of_partners soundTarget partners] at id
        rw [shared partners] at id ⊢
        exact ⟨partners.holds_left soundLive, rfl, id⟩
      · rw [tells.oldId?_of_lone soundTarget held (not_exists.1 partner)] at known
        cases known
    · rintro ⟨r, single⟩ indent
      exact carried.text_eq sound soundTarget single indent

/-- What calls make out of nothing. -/
def madeBy (calls : List Call) : Workspace :=
  calls.foldl (fun w call => endOf (call.run Build.host) w) {}

theorem reachable_madeBy (calls : List Call) : Reachable (madeBy calls) :=
  Reachable.afterCalls (.blank "" "" 0) calls

/-- A scalar at top level. -/
def scalarSpace : Workspace :=
  madeBy [.create (some "a") .scalar { fields := Dict.ofList [(valueName, "1")] }]

/-- An array at top level with a scalar in it. -/
def arraySpace : Workspace :=
  madeBy [.create (some "t") .array {},
    .create (some "u") .scalar { fields := Dict.ofList [(valueName, "2")] },
    .appendChild "t" itemsSlot "u"]

/-- A scalar at top level is moved into an array and given another value. -/
theorem reconcile_converges_into_array :
    ∃ c applied w, reconcile {} scalarSpace.model arraySpace.model = .ok c ∧
      Build.host.applyEntries c.entries scalarSpace = .ok applied w ∧
      w.model.snapshot.text none = arraySpace.model.snapshot.text none := by
  have apart : ∀ a < 1, ∀ b < 2, (scalarSpace.model.node a).id.name ≠
      (arraySpace.model.node b).id.name := by decide +kernel
  have sizes : scalarSpace.model.nodes.size = 1 ∧ arraySpace.model.nodes.size = 2 := by
    decide +kernel
  have made : ∃ c, reconcile {} scalarSpace.model arraySpace.model = .ok c := by
    have done : (reconcile {} scalarSpace.model arraySpace.model).toOption.isSome := by
      decide +kernel
    cases result : reconcile {} scalarSpace.model arraySpace.model with
    | ok c => exact ⟨c, rfl⟩
    | error e =>
      rw [result] at done
      cases done
  obtain ⟨c, made⟩ := made
  obtain ⟨applied, w, ran, _, _, _, _, text⟩ := (reconcile_converges Build.quiet_host
    (reachable_madeBy _) (reachable_madeBy _) rfl
    (fun a b heldA heldB => apart a (sizes.1 ▸ heldA.1) b (sizes.2 ▸ heldB.1)) rfl true).2 c made
  exact ⟨c, applied, w, made, ran, text ⟨0, by decide +kernel⟩ none⟩

end DocSync
