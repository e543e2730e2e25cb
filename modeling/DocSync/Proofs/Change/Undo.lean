import DocSync.Proofs.Change.Reversal
import DocSync.Proofs.Render.Copied

/-!
What is left when a change set is taken back: every node as it was, under its id, with its links, and
the nodes at top level that there were. The order of the top level is not recorded by any entry. Nodes
that were taken from it come back at its end, the one that was taken first as the last one.
-/

namespace DocSync

open Model

variable {m m' m₁ : Model} {image : Key → Key} {entry : Entry} {entries backs : List Entry} {k : Key}

/-! ### What a model looks like -/

/-- A node as it looks from outside: what it is and holds, and the ids that its links lead to. -/
structure Portrait where
  id : NodeId
  kind : Kind
  content : Content
  head : Option NodeId
  next : Option NodeId
  deriving DecidableEq, Inhabited

namespace Model

/-- The node of a key as it looks from outside. -/
def portrait (m : Model) (k : Key) : Portrait where
  id := (m.node k).id
  kind := (m.node k).kind
  content := (m.node k).toContent
  head := (m.node k).head.map fun c => (m.node c).id
  next := (m.node k).next.map fun c => (m.node c).id

/-- The node of an id as it looks from outside, if the model holds one. -/
def portrait? (m : Model) (id : NodeId) : Option Portrait := (m.find? id).map m.portrait

/-- The ids of the nodes at top level, in order. -/
def topIds (m : Model) : List NodeId := m.roots.map fun k => (m.node k).id

end Model

/-- Two models look alike: they have the same node under each id, the same nodes at top level in
whatever order, and the same text around it. -/
structure Alike (m m' : Model) : Prop where
  nodes : ∀ id, m'.portrait? id = m.portrait? id
  tops : m'.topIds.Perm m.topIds
  margins : SameMargins m m'

/-- A copy under the same ids looks like its model. -/
theorem Copied.alike (copied : Copied m' m id image) (sound : m.Sound) (sound' : m'.Sound)
    (margins : SameMargins m m') : Alike m m' where
  nodes id_ := by
    have portrait : ∀ {b}, m.Holds b → m'.portrait (image b) = m.portrait b := by
      intro b held
      have target : ∀ e, ((m'.node (image b)).target? e).map (fun c => (m'.node c).id) =
          ((m.node b).target? e).map fun c => (m.node c).id := by
        intro e
        rw [copied.target held, Option.map_map]
        cases leads : (m.node b).target? e with
        | none => rfl
        | some c => exact congrArg some (copied.id (sound.back held leads).1)
      have head := target .child
      have next := target .next
      simp only [Node.target?] at head next
      simp only [Model.portrait, copied.id held, copied.kind held, copied.content held, head, next,
        id]
    cases found : m.find? id_ with
    | some b =>
      obtain ⟨held, name⟩ := sound.find?_eq_some_iff.1 found
      have there : m'.find? id_ = some (image b) := sound'.find?_eq_some_iff.2
        ⟨copied.holds held, (congrArg NodeId.name (copied.id held)).trans name⟩
      rw [portrait?, portrait?, found, there]
      exact congrArg some (portrait held)
    | none =>
      -- A node of the copy is the image of a node of the same name.
      cases there : m'.find? id_ with
      | none =>
        rw [portrait?, portrait?, found, there]
        rfl
      | some q =>
        obtain ⟨heldQ, name⟩ := sound'.find?_eq_some_iff.1 there
        obtain ⟨b, held, rfl⟩ := copied.onto heldQ
        have same := (congrArg NodeId.name (copied.id held)).symm.trans name
        rw [sound.find?_eq_some_iff.2 ⟨held, same⟩] at found
        cases found
  tops := by
    have ids : m.topIds = (m.roots.map image).map fun k => (m'.node k).id := by
      rw [topIds, List.map_map]
      exact List.map_congr_left fun r root => (copied.id (sound.holds_root root)).symm
    rw [ids]
    exact (copied.toCarriedOver.roots_perm sound' sound).map _
  margins := margins

/-- Entries leave the text around the top level alone. -/
theorem Does.margins (does : Does m entry m') : SameMargins m m' := by
  cases does with
  | addLink link | removeLink link => exact sameMargins_rehang _ _ _ _
  | _ => exact ⟨rfl, rfl, rfl, rfl⟩

theorem DoesAll.margins (does : DoesAll m entries m') : SameMargins m m' := by
  induction does with
  | nil => exact .refl _
  | cons step _ ih => exact step.margins.trans ih

/-! ### Change sets taken back -/

/-- A rendering that fails at no other node fails as before. -/
theorem RenderError.carried_id (e : RenderError) : e.carried id = e := by
  cases e <;> rfl

/-- Entries that a host has replayed can be taken back, and that in turn as well. Every node is again
what it was, under its id and with its links, and the same nodes are at top level. If there was only
one, the snapshot and the rendering are what they were, too. -/
theorem alike_of_undo {σ : Type} {h : Host Error σ} (quiet : h.Quiet) {w : Workspace}
    (reached : Reachable w) {s s₁ : σ} (hosted : h.model s = w.model) {entries : List Entry}
    (solid : ∀ node, Entry.create node ∈ entries → node.id.isVoid = false) {applied : Applied}
    (ran : h.applyEntries entries s = .ok applied s₁) :
    ∃ undone s₂, h.undo applied s₁ = .ok undone s₂ ∧ Alike w.model (h.model s₂) ∧
      (∃ redone s₃, h.undo undone s₂ = .ok redone s₃ ∧ Alike (h.model s₁) (h.model s₃)) ∧
      ((∃ r, w.model.roots = [r]) →
        (∀ indent, (h.model s₂).snapshot.text indent = w.model.snapshot.text indent) ∧
          ∀ config, (h.model s₂).render config = w.model.render config) := by
  have sound : (h.model s).Sound := hosted ▸ reached.sound
  rw [← hosted]
  obtain ⟨-, retraces⟩ := Host.retraces_of_applyEntries quiet sound solid ran
  have sound₁ := retraces.sound sound
  obtain ⟨m₂, image₂, does₂, sound₂, copied₂⟩ := retraces.exists_undone sound sound₁ (.refl _)
  obtain ⟨backs, retraces₂⟩ := does₂.exists_retraces
  obtain ⟨m₃, image₃, does₃, sound₃, copied₃⟩ := retraces₂.exists_undone sound₁ sound₂ (.refl _)
  obtain ⟨backs₃, retraces₃⟩ := does₃.exists_retraces
  obtain ⟨s₂, ran₂, rfl⟩ := Host.Gives.applyEntries_of_retraces quiet sound₁ retraces₂
  obtain ⟨s₃, ran₃, rfl⟩ := Host.Gives.applyEntries_of_retraces quiet sound₂ retraces₃
  have margins := retraces.doesAll.margins.trans does₂.margins
  refine ⟨_, s₂, ran₂, copied₂.alike sound sound₂ margins, ⟨_, s₃, ran₃, copied₃.alike sound₁ sound₃
    (does₂.margins.trans does₃.margins)⟩, ?_⟩
  rintro ⟨r, single⟩
  have listed : (h.model s₂).roots = (h.model s).roots.map image₂ := by
    rw [copied₂.roots sound₂ sound single, single]
    rfl
  refine ⟨copied₂.text_eq sound₂ sound single, fun config => ?_⟩
  rw [copied₂.render sound₂ sound margins listed]
  cases (h.model s).render config with
  | ok text => rfl
  | error e => exact congrArg Except.error e.carried_id

/-- The item of an array taken out of it and destroyed, and another one put in its place under its id,
which is then given another value. -/
def renewing : List Entry :=
  [.removeLink ⟨"n1", itemsSlot, "n2"⟩, .delete "n2" none {},
    .create ⟨"n2", .scalar, { fields := Dict.ofList [(valueName, "7")] }⟩,
    .addLink ⟨"n1", itemsSlot, "n2"⟩, .changeField ⟨"n2", valueName, some "7", some "8"⟩]

theorem alike_of_undo_renewing :
    ∃ applied w₁ undone w₂, Build.host.applyEntries renewing (readIn "[ 1 ]" 0) = .ok applied w₁ ∧
      w₁.model.render {} = .ok "[ 8 ]" ∧ Build.host.undo applied w₁ = .ok undone w₂ ∧
      Alike (readIn "[ 1 ]" 0).model w₂.model ∧ w₂.model.render {} = .ok "[ 1 ]" := by
  have solid : ∀ node, Entry.create node ∈ renewing → node.id.isVoid = false := by
    intro node inside
    simp only [renewing, List.mem_cons, reduceCtorEq, false_or, Entry.create.injEq, List.not_mem_nil,
      or_false] at inside
    rw [inside]
    rfl
  obtain ⟨applied, w₁, ran, shown⟩ := EStateM.exists_ok (s := readIn "[ 1 ]" 0)
    (x := Build.host.applyEntries renewing)
    (p := fun _ w₁ => decide (w₁.model.render {} = .ok "[ 8 ]")) (by decide +kernel)
  obtain ⟨undone, w₂, undid, alike, _, single⟩ := alike_of_undo Build.quiet_host
    (reachable_readIn "[ 1 ]" 0) rfl solid ran
  have before : (readIn "[ 1 ]" 0).model.render {} = .ok "[ 1 ]" := by decide +kernel
  exact ⟨applied, w₁, undone, w₂, ran, of_decide_eq_true shown, undid, alike,
    ((single ⟨0, by decide +kernel⟩).2 {}).trans before⟩

/-! ### The order of the top level -/

namespace Model

/-- The names of the nodes at top level, in order. -/
def topNames (m : Model) : List Name := m.roots.map m.nameOf

end Model

/-- The node that an entry takes from the top level: one that it destroys, or puts below another. -/
def Entry.taken? : Entry → Option Name
  | .delete id _ _ => some id.name
  | .addLink link => some link.child.name
  | _ => none

/-- The names at top level after an entry: a node that comes to the top level goes to its end. -/
def Entry.reorder (tops : List Name) : Entry → List Name
  | .create node => tops ++ [node.id.name]
  | .removeLink link => tops ++ [link.child.name]
  | .delete id _ _ => tops.filter (· ≠ id.name)
  | .addLink link => tops.filter (· ≠ link.child.name)
  | _ => tops

/-- What becomes of the order of the top level when nodes have been taken from it and come back: those
that stayed come first, then the others, the one that was taken first as the last one. -/
def restoredTops (tops taken : List Name) : List Name :=
  tops.filter (· ∉ taken) ++ (taken.filter (· ∈ tops)).eraseDups.reverse

theorem Does.topNames (does : Does m entry m') (sound : m.Sound) :
    m'.topNames = entry.reorder m.topNames := by
  -- The names of the top level without those of one node.
  have erased : ∀ {c}, m.Holds c → (m.roots.erase c).map m.nameOf =
      m.topNames.filter (· ≠ m.nameOf c) := by
    intro c held
    rw [sound.roots_nodup.erase_eq_filter, Model.topNames, List.filter_map]
    refine congrArg _ (List.filter_congr fun r root => ?_)
    have apart : m.nameOf r = m.nameOf c ↔ r = c :=
      ⟨sound.named (sound.holds_root root) held, congrArg m.nameOf⟩
    by_cases same : r = c <;> simp [same, apart]
  cases does with
  | create node solid free =>
    change (m.roots ++ [m.nodes.size]).map (m.grown node.id node.kind node.content).nameOf = _
    have old : m.roots.map (m.grown node.id node.kind node.content).nameOf = m.topNames := by
      refine List.map_congr_left fun r root => ?_
      rw [nameOf, node_grown, if_neg (Nat.ne_of_lt (sound.holds_root root).1)]
      rfl
    rw [List.map_append, old, List.map_singleton, nameOf, node_grown, if_pos rfl]
    rfl
  | @delete k id kind content held name root last leaf =>
    change (m.roots.erase k).map (m.pruned k).nameOf = _
    have same : (m.roots.erase k).map (m.pruned k).nameOf = (m.roots.erase k).map m.nameOf := by
      refine List.map_congr_left fun r inside => ?_
      rw [nameOf, m.node_pruned_of_ne (sound.roots_nodup.mem_erase_iff.1 inside).1]
      rfl
    rw [same, erased held, Entry.reorder, nameOf, name]
  | @addLink p c edge link heldP heldC nameP nameC named free root apart =>
    have nodes := Model.sameNodes_rehang edge heldP heldC (fun same => apart (same ▸ .refl)) true
    have names : (m.rehang p edge c true).nameOf = m.nameOf :=
      funext fun k => congrArg NodeId.name (nodes.id k)
    change (m.roots.erase c).map (m.rehang p edge c true).nameOf = _
    rw [names, erased heldC, Entry.reorder, nameOf, nameC]
  | @removeLink p c edge link heldP nameP nameC named leads =>
    obtain ⟨heldC, above⟩ := sound.back heldP leads
    have nodes := Model.sameNodes_rehang edge heldP heldC
      (fun same => sound.not_over_parent heldC above (same ▸ .refl)) false
    have names : (m.rehang p edge c false).nameOf = m.nameOf :=
      funext fun k => congrArg NodeId.name (nodes.id k)
    change (m.roots ++ [c]).map (m.rehang p edge c false).nameOf = _
    rw [names, List.map_append, List.map_singleton, nameOf, nameC]
    rfl
  | @changeField k change held name old =>
    have same := m.sameForest_withField k change.name change.new
    change (m.withField k change.name change.new).roots.map _ = m.topNames
    rw [same.roots]
    exact List.map_congr_left fun r _ => congrArg NodeId.name (same.id r)

theorem DoesAll.topNames (does : DoesAll m entries m') (sound : m.Sound) :
    m'.topNames = entries.foldl Entry.reorder m.topNames := by
  induction does with
  | nil => rfl
  | cons step _ ih => rw [ih (step.sound sound), step.topNames sound, List.foldl_cons]

/-- Nodes that are made one after the other come to the end of the top level in this order. -/
theorem foldl_reorder_create (come : List Specimen) (tops : List Name) :
    (come.map .create).foldl Entry.reorder tops = tops ++ come.map fun node => node.id.name := by
  induction come generalizing tops with
  | nil => simp
  | cons node rest ih =>
    rw [List.map_cons, List.foldl_cons, ih, Entry.reorder, List.append_assoc]
    rfl

/-- Links take what they lead to away from the top level, and leave the rest in its order. -/
theorem foldl_reorder_addLink (links : List Link) (tops : List Name) :
    (links.map .addLink).foldl Entry.reorder tops =
      tops.filter (· ∉ links.map fun link => link.child.name) := by
  induction links generalizing tops with
  | nil => simp
  | cons link rest ih =>
    rw [List.map_cons, List.foldl_cons, ih, Entry.reorder, List.filter_filter]
    refine List.filter_congr fun name _ => ?_
    rw [Bool.eq_iff_iff]
    simp only [Bool.and_eq_true, decide_eq_true_iff, List.map_cons, List.mem_cons, not_or]
    exact and_comm

section Orders

variable {tops taken : List Name} {name : Name}

/-- What is kept of a list's first occurrences is the first occurrences of what is kept. -/
theorem filter_eraseDups {α : Type} [BEq α] [LawfulBEq α] (p : α → Bool) (xs : List α) :
    xs.eraseDups.filter p = (xs.filter p).eraseDups := by
  induction size : xs.length using Nat.strongRecOn generalizing xs with
  | ind n ih =>
    cases xs with
    | nil => simp
    | cons x xs =>
      have shorter : (xs.filter fun y => !y == x).length < n := by
        have := List.length_filter_le (fun y => !y == x) xs
        simp at size
        omega
      rw [List.eraseDups_cons, List.filter_cons, List.filter_cons, ih _ shorter _ rfl,
        List.filter_filter]
      split
      · next kept =>
        rw [List.eraseDups_cons, List.filter_filter]
        simp only [Bool.and_comm]
      · next left =>
        -- The element that is left out is not among those that are kept.
        refine congrArg _ (List.filter_congr fun y _ => ?_)
        by_cases same : y = x
        · subst same
          simp [left]
        · simp [same]

/-- A node that comes to the end of the top level and goes again changes nothing. -/
theorem filter_restoredTops (fresh : name ∉ tops) :
    (restoredTops (tops ++ [name]) taken).filter (· ≠ name) = restoredTops tops taken := by
  -- The new name is in neither part: it was not listed before, and nothing has taken it.
  have kept : tops.filter (fun x => decide (x ≠ name) && decide (x ∉ taken)) =
      tops.filter (· ∉ taken) := by
    refine List.filter_congr fun x inside => ?_
    have differ : x ≠ name := fun same => fresh (same ▸ inside)
    simp [differ]
  have gone : ([name].filter (· ∉ taken)).filter (· ≠ name) = [] := by
    simp
  have back : (taken.filter (· ∈ tops ++ [name])).filter (· ≠ name) = taken.filter (· ∈ tops) := by
    rw [List.filter_filter]
    refine List.filter_congr fun x _ => ?_
    by_cases same : x = name
    · simp [same, fresh]
    · simp [same]
  rw [restoredTops, List.filter_append, List.filter_append, List.filter_append, gone,
    List.append_nil, List.filter_filter, kept, List.filter_reverse, filter_eraseDups, back,
    restoredTops]

/-- A node that is taken from the top level and comes back is the last one after all that. -/
theorem restoredTops_append (inside : name ∈ tops) :
    restoredTops (tops.filter (· ≠ name)) taken ++ [name] = restoredTops tops (name :: taken) := by
  have kept : (tops.filter (· ≠ name)).filter (· ∉ taken) = tops.filter (· ∉ name :: taken) := by
    rw [List.filter_filter]
    refine List.filter_congr fun x _ => ?_
    simp only [List.mem_cons, not_or, Bool.decide_and, Bool.and_comm]
  have back : (taken.filter (· ∈ tops)).filter (fun x => !x == name) =
      taken.filter (· ∈ tops.filter (· ≠ name)) := by
    rw [List.filter_filter]
    refine List.filter_congr fun x _ => ?_
    by_cases same : x = name <;> simp [same]
  rw [restoredTops, restoredTops, kept, List.filter_cons_of_pos (by simpa using inside),
    List.eraseDups_cons, List.reverse_cons, back, List.append_assoc]

end Orders

/-- The entries that take others back, the last first, put the top level in its restored order. -/
theorem Retraces.foldl_reorder (retraces : Retraces m entries backs m') (sound : m.Sound) :
    backs.reverse.foldl Entry.reorder m'.topNames =
      restoredTops m.topNames (entries.filterMap Entry.taken?) := by
  induction retraces with
  | nil =>
    simp [restoredTops]
  | @cons m m₁ m' entry rest backs step _ ih =>
    rw [List.reverse_cons, List.foldl_append, ih (step.sound sound), step.topNames sound,
      List.foldl_cons, List.foldl_nil]
    -- A name stands at top level just when it is that of a node without parent.
    have top : ∀ {c}, m.Holds c → (m.nameOf c ∈ m.topNames ↔ (m.node c).parent = none) := by
      intro c held
      rw [Model.topNames, List.mem_map]
      constructor
      · rintro ⟨r, root, same⟩
        rw [← sound.named (sound.holds_root root) held same]
        exact sound.parent_root root
      · exact fun none => ⟨c, sound.root_iff.2 ⟨held, none⟩, rfl⟩
    cases step with
    | create node solid free =>
      have fresh : node.id.name ∉ m.topNames := by
        intro inside
        obtain ⟨r, root, same⟩ := List.mem_map.1 inside
        rw [sound.find?_eq_some_iff.2 ⟨sound.holds_root root, same⟩] at free
        cases free
      exact filter_restoredTops fresh
    | @delete k id kind content held name root last leaf =>
      have back : (Entry.delete id kind content).backIn m =
          .create ⟨(m.node k).id, (m.node k).kind, (m.node k).toContent⟩ := by
        simp only [Entry.backIn, sound.find?_eq_some_iff.2 ⟨held, name⟩]
      have inside := (top held).2 root
      rw [nameOf, name] at inside
      rw [back, Entry.reorder, Entry.reorder, name]
      exact restoredTops_append inside
    | @addLink p c edge link heldP heldC nameP nameC named free root apart =>
      have inside := (top heldC).2 root
      rw [nameOf, nameC] at inside
      exact restoredTops_append inside
    | @removeLink p c edge link heldP nameP nameC named leads =>
      obtain ⟨heldC, above⟩ := sound.back heldP leads
      have fresh : link.child.name ∉ m.topNames := by
        rw [← nameC]
        intro inside
        rw [(top heldC).1 inside] at above
        cases above
      exact filter_restoredTops fresh
    | @changeField k change held name old => rfl

namespace Model

/-- What becomes of the top level of a model when entries are replayed and taken back. -/
def restoredRoots (m : Model) (entries : List Entry) : List Key :=
  (restoredTops m.topNames (entries.filterMap Entry.taken?)).filterMap fun name =>
    m.roots.find? (m.nameOf · = name)

variable (m) (entries)

theorem mem_roots_of_mem_restoredRoots (inside : k ∈ m.restoredRoots entries) : k ∈ m.roots := by
  obtain ⟨name, _, found⟩ := List.mem_filterMap.1 inside
  exact List.mem_of_find?_eq_some found

/-- The restored top level goes by the restored names. -/
theorem map_nameOf_restoredRoots : (m.restoredRoots entries).map m.nameOf =
    restoredTops m.topNames (entries.filterMap Entry.taken?) := by
  have known : ∀ name ∈ restoredTops m.topNames (entries.filterMap Entry.taken?),
      name ∈ m.topNames := by
    intro name inside
    rcases List.mem_append.1 inside with stayed | back
    · exact (List.mem_filter.1 stayed).1
    · rw [List.mem_reverse, List.mem_eraseDups] at back
      exact of_decide_eq_true (List.mem_filter.1 back).2
  -- Every name in the list is that of a node at top level, so each is found.
  unfold restoredRoots
  generalize restoredTops m.topNames (entries.filterMap Entry.taken?) = names at known
  induction names with
  | nil => rfl
  | cons name rest ih =>
    obtain ⟨here, later⟩ := List.forall_mem_cons.1 known
    obtain ⟨r, root, same⟩ := List.mem_map.1 here
    cases found : m.roots.find? (m.nameOf · = name) with
    | none => exact absurd same (by simpa using List.find?_eq_none.1 found r root)
    | some k =>
      have named : m.nameOf k = name := by simpa using List.find?_some found
      rw [List.filterMap_cons]
      simp only [found]
      rw [List.map_cons, named, ih later]

end Model

/-- A copy's top level is the image of a list of nodes if it goes by the names of these. -/
theorem Copied.roots_eq (copied : Copied m' m id image) (sound' : m'.Sound)
    {tops : List Key} (held : ∀ r ∈ tops, m.Holds r) (names : m'.topNames = tops.map m.nameOf) :
    m'.roots = tops.map image := by
  have name : ∀ {b}, m.Holds b → m'.nameOf (image b) = m.nameOf b := fun held =>
    congrArg NodeId.name (copied.id held)
  have heldRoots : ∀ r ∈ m'.roots, m'.Holds r := fun r root => sound'.holds_root root
  unfold Model.topNames at names
  generalize m'.roots = roots at heldRoots names
  -- Both lists name the same nodes in the same order, and a name is that of one node only.
  induction roots generalizing tops with
  | nil =>
    rw [List.map_nil, eq_comm, List.map_eq_nil_iff] at names
    rw [names, List.map_nil]
  | cons r rest ih =>
    cases tops with
    | nil => cases names
    | cons b others =>
      obtain ⟨here, later⟩ := List.forall_mem_cons.1 held
      obtain ⟨first, others'⟩ := List.forall_mem_cons.1 heldRoots
      rw [List.map_cons, List.map_cons, List.cons.injEq] at names
      have head : r = image b := sound'.named first (copied.holds here) (names.1.trans (name here).symm)
      rw [List.map_cons, ← head, ih later others' names.2]

/-- Entries that a host has replayed can be taken back. At top level the nodes that the entries took
from nowhere keep their order and come first; the others follow, the one that was taken first as the
last one. The snapshot is what it was as long as top-level nodes with equally many descendants have
kept their order. -/
theorem topIds_of_undo {σ : Type} {h : Host Error σ} (quiet : h.Quiet) {w : Workspace}
    (reached : Reachable w) {s s₁ : σ} (hosted : h.model s = w.model) {entries : List Entry}
    (solid : ∀ node, Entry.create node ∈ entries → node.id.isVoid = false) {applied : Applied}
    (ran : h.applyEntries entries s = .ok applied s₁) :
    ∃ undone s₂, h.undo applied s₁ = .ok undone s₂ ∧
      (h.model s₂).topIds = (w.model.restoredRoots entries).map (fun k => (w.model.node k).id) ∧
      ((∀ n, (w.model.restoredRoots entries).filter (w.model.descendantCount · = n) =
          w.model.roots.filter (w.model.descendantCount · = n)) →
        ∀ indent, (h.model s₂).snapshot.text indent = w.model.snapshot.text indent) := by
  have sound : (h.model s).Sound := hosted ▸ reached.sound
  rw [← hosted]
  obtain ⟨-, retraces⟩ := Host.retraces_of_applyEntries quiet sound solid ran
  have sound₁ := retraces.sound sound
  obtain ⟨m₂, image, does, sound₂, copied⟩ := retraces.exists_undone sound sound₁ (.refl _)
  obtain ⟨backs, retraces₂⟩ := does.exists_retraces
  obtain ⟨s₂, undid, rfl⟩ := Host.Gives.applyEntries_of_retraces quiet sound₁ retraces₂
  have held : ∀ r ∈ (h.model s).restoredRoots entries, (h.model s).Holds r := fun r inside =>
    sound.holds_root ((h.model s).mem_roots_of_mem_restoredRoots entries inside)
  have listed := copied.roots_eq sound₂ held (by
    rw [does.topNames sound₁, retraces.foldl_reorder sound, map_nameOf_restoredRoots])
  refine ⟨_, s₂, undid, ?_, fun same indent => ?_⟩
  · rw [topIds, listed, List.map_map]
    exact List.map_congr_left fun r inside => copied.id (held r inside)
  · -- The restored top level has all the nodes that were there.
    have perm : ((h.model s).restoredRoots entries).Perm (h.model s).roots := by
      have nodup : ((h.model s).restoredRoots entries).Nodup :=
        List.Nodup.of_map image (listed ▸ sound₂.roots_nodup)
      refine (List.perm_ext_iff_of_nodup nodup sound.roots_nodup).2 fun r => ⟨fun inside =>
        (h.model s).mem_roots_of_mem_restoredRoots entries inside, fun root => ?_⟩
      have there := (copied.toCarriedOver.mem_roots sound₂ sound (sound.holds_root root)).2 root
      rw [listed] at there
      obtain ⟨b, inside, same⟩ := List.mem_map.1 there
      exact copied.injective (held b inside) (sound.holds_root root) same ▸ inside
    have order := copied.toCarriedOver.canonicalOrder sound₂ sound listed perm same
    rw [Snapshot.text, Snapshot.text, Snapshot.lines, Snapshot.lines,
      copied.toCarriedOver.records_snapshot sound₂ sound order]

/-- A scalar and an array at top level, the array with an item. -/
def adoptingSpace : Workspace :=
  madeBy [.create (some "y") .scalar { fields := Dict.ofList [(valueName, "1")] },
    .create (some "x") .array {}, .create (some "z") .scalar { fields := Dict.ofList [(valueName, "2")] },
    .appendChild "x" itemsSlot "z"]

/-- The scalar put behind the item of the array. -/
def adopting : List Entry := [.addLink ⟨"z", nextName, "y"⟩]

theorem solid_adopting : ∀ node, Entry.create node ∈ adopting → node.id.isVoid = false := by
  intro node inside
  simp [adopting] at inside

/-- The scalar that is taken back stands behind the array; the snapshot had it first all along. -/
theorem topIds_of_undo_adopting :
    ∃ applied w₁ undone w₂, Build.host.applyEntries adopting adoptingSpace = .ok applied w₁ ∧
      Build.host.undo applied w₁ = .ok undone w₂ ∧
      adoptingSpace.model.topIds = [NodeId.text "y", NodeId.text "x"] ∧
      w₂.model.topIds = [NodeId.text "x", NodeId.text "y"] ∧
      w₂.model.snapshot.text none = adoptingSpace.model.snapshot.text none := by
  obtain ⟨applied, w₁, ran, -⟩ := EStateM.exists_ok (s := adoptingSpace)
    (x := Build.host.applyEntries adopting) (p := fun _ _ => true) (by decide +kernel)
  obtain ⟨undone, w₂, undid, order, text⟩ := topIds_of_undo Build.quiet_host
    (w := adoptingSpace) (reachable_madeBy _) rfl solid_adopting ran
  refine ⟨applied, w₁, undone, w₂, ran, undid, by decide +kernel, order.trans (by decide +kernel),
    text (fun n => ?_) none⟩
  -- The array has a descendant and the scalar has none.
  have restored : adoptingSpace.model.restoredRoots adopting = [1, 0] := by decide +kernel
  have roots : adoptingSpace.model.roots = [0, 1] := by decide +kernel
  have scalar : adoptingSpace.model.descendantCount 0 = 0 := by decide +kernel
  have array : adoptingSpace.model.descendantCount 1 = 1 := by decide +kernel
  rw [restored, roots]
  rcases n with - | - | n <;> simp [scalar, array]

/-- Two nodes of one size at top level. -/
def twinSpace : Workspace :=
  madeBy [.create (some "y") .scalar { fields := Dict.ofList [(valueName, "1")] },
    .create (some "x") .array {}]

/-- One of them put into the other. -/
def nesting : List Entry := [.addLink ⟨"x", itemsSlot, "y"⟩]

/-- The order of the top level is not restored, and the snapshot shows it. -/
theorem not_topIds_of_undo :
    ∃ applied w₁ undone w₂, Build.host.applyEntries nesting twinSpace = .ok applied w₁ ∧
      Build.host.undo applied w₁ = .ok undone w₂ ∧ w₂.model.topIds ≠ twinSpace.model.topIds ∧
      w₂.model.snapshot.text none ≠ twinSpace.model.snapshot.text none := by
  obtain ⟨applied, w₁, ran, rest⟩ := EStateM.exists_ok (s := twinSpace)
    (x := Build.host.applyEntries nesting)
    (p := fun applied w₁ => (Build.host.undo applied).comesTo w₁ fun _ w₂ =>
      decide (w₂.model.topIds ≠ twinSpace.model.topIds ∧
        w₂.model.snapshot.text none ≠ twinSpace.model.snapshot.text none)) (by decide +kernel)
  obtain ⟨undone, w₂, undid, differ⟩ := EStateM.exists_ok rest
  exact ⟨applied, w₁, undone, w₂, ran, undid, of_decide_eq_true differ⟩

end DocSync
