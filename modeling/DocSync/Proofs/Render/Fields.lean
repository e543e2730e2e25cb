import DocSync.Proofs.Model.Edit
import DocSync.Proofs.Render.Lacking

/-!
Which fields of a model a text shows. It shows a field if the text of the field stands in it whatever that
text is: the model is written with other texts in its fields by putting them where the old ones stood. There
is no more than one row of fields that a text shows.
-/

namespace DocSync

/-- A part of a text that is made from a model: a text that is always the same, or that of a field. -/
inductive Piece where
  | fixed (text : List Char)
  | field (k : Key) (name : String)

namespace Piece

variable {words words' : Key → String → String} {pieces pieces' : List Piece} {f f' : Key × String}
  {rest : List (Key × String)}

/-- What a piece is where fields have such texts. -/
def filled (words : Key → String → String) : Piece → List Char
  | .fixed text => text
  | .field k name => (words k name).toList

/-- The field whose text a piece is. -/
def field? : Piece → Option (Key × String)
  | .fixed _ => none
  | .field k name => some (k, name)

/-- The text that pieces make up where fields have such texts. -/
def fill (words : Key → String → String) (pieces : List Piece) : List Char := pieces.flatMap (filled words)

/-- The fields whose texts are put in, in order. -/
def fields (pieces : List Piece) : List (Key × String) := pieces.filterMap field?

@[simp] theorem fill_nil : fill words [] = [] := rfl

@[simp] theorem fill_fixed (text : List Char) :
    fill words (.fixed text :: pieces) = text ++ fill words pieces :=
  rfl

@[simp] theorem fill_field (k : Key) (name : String) :
    fill words (.field k name :: pieces) = (words k name).toList ++ fill words pieces := rfl

@[simp] theorem fill_append : fill words (pieces ++ pieces') = fill words pieces ++ fill words pieces' :=
  List.flatMap_append

@[simp] theorem fields_nil : fields [] = [] := rfl

@[simp] theorem fields_fixed (text : List Char) : fields (.fixed text :: pieces) = fields pieces := rfl

@[simp] theorem fields_field (k : Key) (name : String) :
    fields (.field k name :: pieces) = (k, name) :: fields pieces := rfl

@[simp] theorem fields_append : fields (pieces ++ pieces') = fields pieces ++ fields pieces' :=
  List.filterMap_append

theorem fill_intercalate (separator : List Char) (inner : List (List Piece)) :
    fill words ([.fixed separator].intercalate inner) = separator.intercalate (inner.map (fill words)) := by
  induction inner with
  | nil => rfl
  | cons first rest ih =>
    cases rest with
    | nil => simp
    | cons next rest =>
      rw [List.intercalate_cons_cons, fill_append, fill_append, ih]
      simp [List.intercalate_cons_cons]

theorem fields_intercalate (separator : List Char) (inner : List (List Piece)) :
    fields ([.fixed separator].intercalate inner) = inner.flatMap fields := by
  induction inner with
  | nil => rfl
  | cons first rest ih =>
    cases rest with
    | nil => simp
    | cons next rest =>
      rw [List.intercalate_cons_cons, fields_append, fields_append, ih]
      simp

/-- The text that pieces make up, as one string. -/
def put (words : Key → String → String) (pieces : List Piece) : String := String.ofList (fill words pieces)

@[simp] theorem put_nil : put words [] = "" := rfl

@[simp] theorem put_append : put words (pieces ++ pieces') = put words pieces ++ put words pieces' := by
  simp [put]

@[simp] theorem put_fixed (text : List Char) :
    put words (.fixed text :: pieces) = String.ofList text ++ put words pieces := by
  simp [put]

@[simp] theorem put_field (k : Key) (name : String) :
    put words (.field k name :: pieces) = words k name ++ put words pieces := by
  simp [put]

theorem put_intercalate (separator : String) (inner : List (List Piece)) :
    put words ([.fixed separator.toList].intercalate inner) =
      separator.intercalate (inner.map (put words)) := by
  rw [← String.toList_inj, put, fill_intercalate, String.toList_ofList, String.toList_intercalate,
    List.map_map]
  congr 2
  funext pieces
  exact String.toList_ofList.symm

/-- Only the texts of the fields that are put in matter. -/
theorem fill_congr (same : ∀ f ∈ fields pieces, words f.1 f.2 = words' f.1 f.2) :
    fill words pieces = fill words' pieces := by
  induction pieces with
  | nil => rfl
  | cons piece rest ih =>
    -- A fixed text is the same anyway.
    cases piece with
    | fixed text => rw [fill_fixed, fill_fixed, ih same]
    | field k name =>
      rw [fields_field, List.forall_mem_cons] at same
      rw [fill_field, fill_field, same.1, ih same.2]

/-- Where a field is put in, the first one stands behind a text that is always the same. -/
theorem exists_first (first : fields pieces = f :: rest) :
    ∃ before after, fields after = rest ∧
      ∀ words, fill words pieces = before ++ ((words f.1 f.2).toList ++ fill words after) := by
  induction pieces with
  | nil => cases first
  | cons piece others ih =>
    cases piece with
    | fixed text =>
      -- The first field stands further back, behind this text as well.
      obtain ⟨before, after, fields, filled⟩ := ih first
      exact ⟨text ++ before, after, fields, fun words => by rw [fill_fixed, filled, List.append_assoc]⟩
    | field k name =>
      obtain ⟨rfl, rfl⟩ := List.cons.inj first
      exact ⟨[], others, rfl, fun words => rfl⟩

/-- With a text behind `before` that is long enough, that text is what stands at each place from there on. -/
theorem getElem?_behind {before after : List Char} {c : Char} {at_ count : Nat}
    (reached : before.length ≤ at_)
    (within : at_ < before.length + count) :
    (before ++ ((String.ofList (List.replicate count c)).toList ++ after))[at_]? = some c := by
  have inside : at_ - before.length < (List.replicate count c).length := by
    rw [List.length_replicate]
    omega
  rw [List.getElem?_append_right reached, String.toList_ofList, List.getElem?_append_left inside,
    List.getElem?_replicate_of_lt (by simpa using inside)]

/-- Pieces that always make up one text put in the same field first. -/
theorem first_unique {others : List (Key × String)} (first : fields pieces = f :: rest)
    (first' : fields pieces' = f' :: others) (same : ∀ words, fill words pieces = fill words pieces') :
    f = f' := by
  obtain ⟨before, after, -, filled⟩ := exists_first first
  obtain ⟨before', after', -, filled'⟩ := exists_first first'
  by_contra differ
  -- One is given a run of one letter and the other a run of another, both long enough to meet.
  have place := congrArg (·[before.length + before'.length]?)
    (same fun k name => String.ofList (List.replicate (before.length + before'.length + 1)
      (if (k, name) = f then 'a' else 'b')))
  simp only [filled, filled', if_true, if_neg (Ne.symm differ)] at place
  rw [getElem?_behind (by omega) (by omega), getElem?_behind (by omega) (by omega)] at place
  exact absurd place (by decide)

/-- Pieces that put in no field do not always make up one text with pieces that put in some. -/
theorem exists_fill_ne (none_ : fields pieces = []) (first : fields pieces' = f :: rest) :
    ∃ words, fill words pieces ≠ fill words pieces' := by
  obtain ⟨before, after, -, filled⟩ := exists_first first
  -- The text of the field can be longer than all there is without it.
  let none : Key → String → String := fun _ _ => ""
  let long : String := String.ofList (List.replicate ((fill none pieces).length + 1) 'a')
  refine ⟨fun _ _ => long, fun same => ?_⟩
  have without : fill (fun _ _ => long) pieces = fill none pieces := fill_congr (by simp [none_])
  have lengths := congrArg List.length same
  rw [without, filled] at lengths
  simp [long] at lengths
  omega

/-- Of pieces that always make up one text, and put in no field twice, all put in the same fields. -/
theorem fields_unique (nodup : (fields pieces).Nodup) (nodup' : (fields pieces').Nodup)
    (same : ∀ words, fill words pieces = fill words pieces') : fields pieces = fields pieces' := by
  induction row : fields pieces generalizing pieces pieces' with
  | nil =>
    cases row' : fields pieces' with
    | nil => rfl
    | cons f' rest' =>
      obtain ⟨words, differ⟩ := exists_fill_ne row row'
      exact absurd (same words) differ
  | cons f rest ih =>
    cases row' : fields pieces' with
    | nil =>
      obtain ⟨words, differ⟩ := exists_fill_ne row' row
      exact absurd (same words).symm differ
    | cons f' rest' =>
      -- Both put in the same field first, and so it can be taken off both.
      obtain rfl := first_unique row row' same
      obtain ⟨before, after, fields_, filled⟩ := exists_first row
      obtain ⟨before', after', fields', filled'⟩ := exists_first row'
      rw [row, ← fields_, List.nodup_cons] at nodup
      rw [row', ← fields', List.nodup_cons] at nodup'
      -- Without a text for the first field the rest is left, which does not depend on that field.
      have behind : ∀ words,
          fill words (.fixed before :: after) = fill words (.fixed before' :: after') := by
        intro words
        let others (k : Key) (name : String) : String := if (k, name) = f then "" else words k name
        have left : ∀ {pieces}, f ∉ fields pieces → fill words pieces = fill others pieces := fun absent =>
          fill_congr fun g inside => (if_neg fun (at_ : g = f) => absent (at_ ▸ inside)).symm
        have whole := same others
        rw [filled, filled'] at whole
        rw [fill_fixed, fill_fixed, left nodup.1, left nodup'.1]
        simpa [others] using whole
      rw [ih (by exact nodup.2) (by exact nodup'.2) behind fields_, ← fields']
      rfl

end Piece

/-! ### Other texts in the fields of a model -/

/-- The fields with other texts in them. -/
def Dict.respelled (d : Dict String) (words : String → String) : Dict String where
  entries := d.entries.map fun entry => (entry.1, words entry.1)
  ascending := List.pairwise_map.2 d.ascending

@[simp] theorem Dict.get?_respelled (d : Dict String) (words : String → String) (name : String) :
    (d.respelled words).get? name = (d.get? name).map fun _ => words name := by
  obtain ⟨entries, ascending⟩ := d
  simp only [get?, respelled]
  clear ascending
  induction entries with
  | nil => rfl
  | cons entry rest ih =>
    rw [List.map_cons, List.lookup_cons, List.lookup_cons, ih]
    by_cases same : name = entry.1
    · simp [same]
    · simp [beq_false_of_ne same]

namespace Model

variable {m : Model} {words : Key → String → String} {write write' : Model → Except RenderError String}
  {fields fields' : List (Key × String)} {nodes : List Key} {k j : Key} {config : Config}

/-- The model with other texts in the fields of its nodes. -/
def respelled (m : Model) (words : Key → String → String) : Model :=
  { m with nodes := m.nodes.mapIdx fun k n => { n with fields := n.fields.respelled (words k) } }

@[simp] theorem node_respelled (m : Model) (words : Key → String → String) (k : Key) :
    (m.respelled words).node k =
      { m.node k with fields := (m.node k).fields.respelled (words k) } := by
  by_cases inside : k < m.nodes.size
  · simp [node, respelled, inside]
  · simp [node, respelled, inside]
    rfl

theorem sameForest_respelled (m : Model) (words : Key → String → String) :
    SameForest m (m.respelled words) where
  size := by simp [respelled]
  live k := by rw [node_respelled]
  target k e := by cases e <;> rw [node_respelled] <;> rfl
  parent k := by rw [node_respelled]
  roots := rfl
  owner k := by rw [node_respelled]
  id k := by rw [node_respelled]
  kind k := by rw [node_respelled]

/-- The texts that stand in the fields of a model. -/
def ownWords (m : Model) (k : Key) (name : String) : String := ((m.node k).fields.get? name).getD ""

/-- A model with its own texts in its fields is the model. -/
theorem respelled_ownWords (m : Model) : m.respelled m.ownWords = m := by
  have own : ∀ k, (m.node k).fields.respelled (m.ownWords k) = (m.node k).fields := fun k =>
    Dict.ext_get? fun name => by
      rw [Dict.get?_respelled, ownWords]
      cases (m.node k).fields.get? name <;> rfl
  -- A model is what it was if each of its nodes is.
  refine congrArg (fun nodes => { m with nodes := nodes }) ?_
  refine Array.ext (Array.size_mapIdx) fun k inside inside' => ?_
  have at_ : m.nodes[k] = m.node k := by simp [node, inside']
  rw [Array.getElem_mapIdx, at_, own]

theorem treesFrom_respelled (fuel : Nat) (link : Option Key) :
    (m.respelled words).treesFrom fuel link = m.treesFrom fuel link := by
  induction fuel generalizing link with
  | zero => rfl
  | succ fuel ih =>
    cases link with
    | none => rfl
    | some k => rw [treesFrom, treesFrom, ih, ih, node_respelled]

/-- Frames do not depend on what stands in the fields. -/
theorem frame_respelled (slot : String) :
    (m.respelled words).frame config k slot = m.frame config k slot := by
  -- A generated frame takes its indentation from frames that are stored further up.
  have indent : ∀ fuel k, (m.respelled words).contextIndentFrom fuel k = m.contextIndentFrom fuel k := by
    intro fuel
    induction fuel with
    | zero => exact fun _ => rfl
    | succ fuel ih =>
      intro k
      have container : (m.respelled words).container? k = m.container? k := by
        simp [container?, node_respelled, Node.edgeName]
      simp only [contextIndentFrom, container, node_respelled, ih]
  have size : (m.respelled words).nodes.size = m.nodes.size := (m.sameForest_respelled words).size
  simp only [frame, contextIndent, indent, size, node_respelled]

/-! ### The fields that a text shows -/

/-- A way of writing models shows these fields of a model, each of them once and in this order, and that is
all that it takes from the texts of fields. -/
def Shows (write : Model → Except RenderError String) (m : Model) (fields : List (Key × String)) : Prop :=
  fields.Nodup ∧ ∃ pieces, Piece.fields pieces = fields ∧
    ∀ words, write (m.respelled words) = .ok (String.ofList (Piece.fill words pieces))

/-- There is one row of fields that are shown. -/
theorem Shows.unique (shows : Shows write m fields) (shows' : Shows write m fields') :
    fields = fields' := by
  obtain ⟨nodup, pieces, rfl, written⟩ := shows
  obtain ⟨nodup', pieces', rfl, written'⟩ := shows'
  -- Both rows of pieces make up what is written, whatever the words are.
  refine Piece.fields_unique nodup nodup' fun words => ?_
  exact String.ofList_injective (Except.ok.inj ((written words).symm.trans (written' words)))

theorem Shows.exists_ok (shows : Shows write m fields) : ∃ text, write m = .ok text := by
  obtain ⟨-, pieces, -, written⟩ := shows
  have own := written m.ownWords
  rw [respelled_ownWords] at own
  exact ⟨_, own⟩

/-- The fields that a node has to show: a scalar its value, and a pair its key and, if nothing hangs on it,
its value. -/
def fieldsOf (m : Model) (k : Key) : List (Key × String) :=
  match (m.node k).kind with
  | .object | .array => []
  | .pair => (k, keyField) :: if (m.node k).head.isNone then [(k, valueName)] else []
  | .scalar => [(k, valueName)]

theorem eq_of_mem_fieldsOf {f : Key × String} (inside : f ∈ m.fieldsOf k) : f.1 = k := by
  unfold fieldsOf at inside
  split at inside
  · cases inside
  · cases inside
  · rcases List.mem_cons.1 inside with rfl | inside
    · rfl
    · split at inside
      · rw [List.mem_singleton.1 inside]
      · cases inside
  · rw [List.mem_singleton.1 inside]

theorem nodup_fieldsOf (m : Model) (k : Key) : (m.fieldsOf k).Nodup := by
  unfold fieldsOf
  split
  · exact List.nodup_nil
  · exact List.nodup_nil
  · split
    · simp [keyField, valueName]
    · exact List.nodup_singleton _
  · exact List.nodup_singleton _

theorem nodup_flatMap_fieldsOf (nodup : nodes.Nodup) : (nodes.flatMap m.fieldsOf).Nodup := by
  rw [List.nodup_flatMap]
  refine ⟨fun k _ => m.nodup_fieldsOf k, nodup.imp fun differ => ?_⟩
  -- A field shows which node it is of.
  intro f inside inside'
  exact differ ((eq_of_mem_fieldsOf inside).symm.trans (eq_of_mem_fieldsOf inside'))

theorem fieldsOf_eq_nil_iff : m.fieldsOf k = [] ↔ (m.node k).kind = .object ∨ (m.node k).kind = .array := by
  cases kind : (m.node k).kind <;> simp [fieldsOf, kind]

/-- What writing a model comes to: it shows the fields of these nodes, or one of them lacks something. -/
def Tells (write : Model → Except RenderError String) (m : Model) (nodes : List Key) : Prop :=
  ((∀ j ∈ nodes, m.lack? j = none) ∧ Shows write m (nodes.flatMap m.fieldsOf)) ∨
    ∃ j ∈ nodes, ∃ e, m.lack? j = some e ∧ write m = .error e

theorem HingesOn.tells (hinges : m.HingesOn nodes (write m))
    (shows : (∀ j ∈ nodes, m.lack? j = none) → Shows write m (nodes.flatMap m.fieldsOf)) :
    Tells write m nodes :=
  hinges.imp (fun fine => ⟨fine.2, shows fine.2⟩) id

theorem Tells.fails_iff (tells : Tells write m nodes) :
    (∃ e, write m = .error e) ↔ ∃ j ∈ nodes, m.lack? j ≠ none := by
  rcases tells with ⟨fine, shows⟩ | ⟨j, inside, e, lacks, failed⟩
  · obtain ⟨text, written⟩ := shows.exists_ok
    refine iff_of_false (fun ⟨e, failed⟩ => ?_) fun ⟨j, inside, lacks⟩ => lacks (fine j inside)
    rw [written] at failed
    cases failed
  · exact iff_of_true ⟨e, failed⟩ ⟨j, inside, by simp [lacks]⟩

theorem Tells.shows (tells : Tells write m nodes) (fine : ∀ j ∈ nodes, m.lack? j = none) :
    Shows write m (nodes.flatMap m.fieldsOf) := by
  rcases tells with ⟨-, shows⟩ | ⟨j, inside, e, lacks, -⟩
  · exact shows
  · rw [fine j inside] at lacks
    cases lacks

end Model

end DocSync
