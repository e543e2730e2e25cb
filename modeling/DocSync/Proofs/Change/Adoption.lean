import DocSync.Model.Adopt
import DocSync.Proofs.Change.Copied
import DocSync.Proofs.Model.Twins

/-!
Adoption: a live model takes over the frames and the origins of a fresh one. Whatever the id map says,
the nodes of the live model and its links stay as they are. If the live model is the fresh one carried
over, by the very ids that the map gives, it becomes a copy of it.
-/

namespace DocSync

variable {m m' fresh : Model} {carry : NodeId → NodeId} {image : Key → Key} {j k : Key} {ks : List Key}

namespace Model

/-- A node with the frames and the origin of another one. -/
def dressed (source n : Node) : Node := { n with frames := source.frames, origin := source.origin }

/-- A node of a fresh model taken over, if the live model has a counterpart of it. -/
def refresh (fresh : Model) (idMap : List (NodeId × NodeId)) (state : Model × Nat) (k : Key) :
    Model × Nat :=
  match state.1.counterpart? idMap (fresh.node k) with
  | some target => (state.1.update target (dressed (fresh.node k)), state.2 + 1)
  | none => state

variable (fresh) (idMap : List (NodeId × NodeId))

theorem adopt_eq (m : Model) : (m.adopt fresh idMap).1 =
    { (fresh.order.foldl (refresh fresh idMap) (m, 0)).1 with
      leading := fresh.leading, trailing := fresh.trailing, sourceHash := fresh.sourceHash
      strays := fresh.strays } := rfl

/-- A node taken over brings no more than what nodes hold. -/
theorem sameForest_refresh (state : Model × Nat) (k : Key) :
    SameForest state.1 (refresh fresh idMap state k).1 := by
  unfold refresh
  split
  · exact state.1.sameForest_update _ _ fun _ => rfl
  · exact .refl _

theorem sameForest_foldl_refresh (ks : List Key) (state : Model × Nat) :
    SameForest state.1 (ks.foldl (refresh fresh idMap) state).1 := by
  induction ks generalizing state with
  | nil => exact .refl _
  | cons k rest ih => exact (sameForest_refresh fresh idMap state k).trans (ih _)

theorem sameForest_adopt (m : Model) : SameForest m (m.adopt fresh idMap).1 := by
  have same := sameForest_foldl_refresh fresh idMap fresh.order (m, 0)
  rw [adopt_eq]
  exact ⟨⟨same.size, same.live, same.target, same.parent⟩, same.roots, same.owner, same.id, same.kind⟩

theorem sameBodies_foldl_refresh (ks : List Key) (state : Model × Nat) :
    SameBodies state.1 (ks.foldl (refresh fresh idMap) state).1 := by
  induction ks generalizing state with
  | nil => exact .refl _
  | cons k rest ih =>
    refine SameBodies.trans ?_ (ih (refresh fresh idMap state k))
    unfold refresh
    split
    · exact .of_update _ _ fun _ => rfl
    · exact .refl _

/-- Frames and origins are no part of the bodies of nodes. -/
theorem sameBodies_adopt (m : Model) : SameBodies m (m.adopt fresh idMap).1 := by
  have same := sameBodies_foldl_refresh fresh idMap fresh.order (m, 0)
  rw [adopt_eq]
  exact ⟨same.size, same.roots, same.body⟩

/-- The text around the top level is that of the fresh model. -/
theorem sameMargins_adopt (m : Model) : SameMargins fresh (m.adopt fresh idMap).1 :=
  ⟨rfl, rfl, rfl, rfl⟩

end Model

open Model

namespace CarriedOver

variable {idMap : List (NodeId × NodeId)} (carried : CarriedOver m fresh carry image)
  (sound : m.Sound) (mapped : ∀ {b}, fresh.Holds b →
    ((fresh.node b).id.lookup? idMap).getD (fresh.node b).id = carry (fresh.node b).id)
include carried sound mapped

/-- The counterpart of a node is its image, also after some nodes were taken over. -/
theorem counterpart?_eq (same : SameForest m m') (held : fresh.Holds k) :
    m'.counterpart? idMap (fresh.node k) = some (image k) := by
  have found : m'.find? (carry (fresh.node k).id) = some (image k) :=
    (same.sound sound).find?_eq_some_iff.2 ⟨same.holds_iff.2 (carried.holds held),
      congrArg NodeId.name ((same.id _).trans (carried.id held))⟩
  unfold counterpart?
  rw [mapped held, found]
  exact if_pos ((same.kind _).trans (carried.kind held))

/-- Every node of the fresh model that was taken over has dressed its image, and no other node. -/
theorem node_foldl_refresh (nodup : ks.Nodup) (held : ∀ k ∈ ks, fresh.Holds k) (count : Nat)
    (same : SameForest m m') :
    (∀ k ∈ ks, ((ks.foldl (refresh fresh idMap) (m', count)).1.node (image k)) =
      dressed (fresh.node k) (m'.node (image k))) ∧
    ∀ j, j ∉ ks.map image →
      (ks.foldl (refresh fresh idMap) (m', count)).1.node j = m'.node j := by
  -- The live model changes as the fold goes on, but never in what the search for a counterpart reads.
  induction ks generalizing m' count with
  | nil => exact ⟨fun _ inside => (nomatch inside), fun _ _ => rfl⟩
  | cons k rest ih =>
    obtain ⟨new, later⟩ := List.nodup_cons.1 nodup
    obtain ⟨heldK, heldRest⟩ := List.forall_mem_cons.1 held
    have step : refresh fresh idMap (m', count) k =
        (m'.update (image k) (dressed (fresh.node k)), count + 1) := by
      rw [refresh, carried.counterpart?_eq sound mapped same heldK]
    have inside : image k < m'.nodes.size := (same.holds_iff.2 (carried.holds heldK)).1
    obtain ⟨reached, others⟩ := ih later heldRest (count + 1)
      (same.trans (m'.sameForest_update (image k) (dressed (fresh.node k)) fun _ => rfl))
    -- No other node of the fresh model has the same image.
    have apart : ∀ {b}, fresh.Holds b → b ≠ k → image b ≠ image k := fun heldB differ equal =>
      differ (carried.injective heldB heldK equal)
    have outside : image k ∉ rest.map image := by
      intro member
      obtain ⟨b, inRest, equal⟩ := List.mem_map.1 member
      exact apart (heldRest b inRest) (fun equal => new (equal ▸ inRest)) equal
    simp only [List.foldl_cons, step]
    refine ⟨List.forall_mem_cons.2 ⟨?_, fun b inRest => ?_⟩, fun j out => ?_⟩
    · rw [others _ outside, node_update, if_pos ⟨rfl, inside⟩]
    · have differ : b ≠ k := fun equal => new (equal ▸ inRest)
      rw [reached b inRest, node_update, if_neg fun both => apart (heldRest b inRest) differ both.1]
    · rw [List.map_cons, List.mem_cons, not_or] at out
      rw [others j out.2, node_update, if_neg fun both => out.1 both.1]

/-- Each image is dressed in what its node has. -/
theorem node_adopt (soundFresh : fresh.Sound) (held : fresh.Holds k) :
    (m.adopt fresh idMap).1.node (image k) = dressed (fresh.node k) (m.node (image k)) := by
  obtain ⟨reached, -⟩ := carried.node_foldl_refresh sound mapped soundFresh.nodup_order
    (fun k inside => soundFresh.mem_order.1 inside) 0 (.refl m)
  exact reached k (soundFresh.mem_order.2 held)

/-- A model carried over becomes a copy of the model that it takes its frames and origins from. -/
theorem copied_adopt (soundFresh : fresh.Sound) :
    Copied (m.adopt fresh idMap).1 fresh carry image := by
  have same := sameForest_adopt fresh idMap m
  have node : ∀ {b}, fresh.Holds b → (m.adopt fresh idMap).1.node (image b) =
      dressed (fresh.node b) (m.node (image b)) := carried.node_adopt sound mapped soundFresh
  exact
    { holds := fun held => same.holds_iff.2 (carried.holds held)
      onto := fun held => carried.onto (same.holds_iff.1 held)
      injective := carried.injective
      id := fun held => (same.id _).trans (carried.id held)
      kind := fun held => (same.kind _).trans (carried.kind held)
      fields := fun held => by rw [node held]; exact carried.fields held
      target := fun held e => (same.target _ e).trans (carried.target held e)
      content := fun {b} held => by
        rw [node held]
        exact congrArg (fun fields => (⟨fields, _, _⟩ : Content)) (carried.fields held) }

end CarriedOver

/-- Taking frames and origins over leaves ids, kinds, fields and links as they are. -/
theorem carriedOver_adopt {idMap : List (NodeId × NodeId)} (carried : CarriedOver m fresh carry image)
    (sound : m.Sound) (mapped : ∀ {b}, fresh.Holds b →
      ((fresh.node b).id.lookup? idMap).getD (fresh.node b).id = carry (fresh.node b).id)
    (soundFresh : fresh.Sound) : CarriedOver (m.adopt fresh idMap).1 m id id := by
  have same := sameForest_adopt fresh idMap m
  refine ⟨fun held => same.holds_iff.2 held, fun held => ⟨_, same.holds_iff.1 held, rfl⟩,
    fun _ _ equal => equal, fun _ => same.id _, fun _ => same.kind _, fun held => ?_, fun _ e => ?_⟩
  · -- Every node is an image, and what an image is dressed in are no fields.
    obtain ⟨b, heldB, rfl⟩ := carried.onto held
    rw [id, carried.node_adopt sound mapped soundFresh heldB]
    rfl
  · rw [Option.map_id]
    exact same.target _ e

end DocSync
