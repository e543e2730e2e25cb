import DocSync.Proofs.Change.Unchanged
import DocSync.Proofs.Model.Reachable
import DocSync.Proofs.Render.Reads
import DocSync.Proofs.Text.Legible

/-!
Reconciliations told by texts. A snapshot's text tells its records, and between equal records there is
nothing to change: two models are in step just if their snapshots have the same text. So are the models
of two texts that differ in nothing but the blanks between their tokens.
-/

namespace DocSync

open Json (Worded)

/-! ### Records and their JSON -/

/-- The kinds go by different names. -/
theorem Kind.name_injective {kind kind' : Kind} (same : kind.name = kind'.name) : kind = kind' := by
  have known := ofName?_name kind
  rw [same, ofName?_name] at known
  exact (Option.some.inj known).symm

theorem Json.worded_ofText? (text : Option String) : Worded (Json.ofText? text) := by
  cases text with
  | none => exact .null
  | some text => exact .str text

theorem Json.ofText?_injective {text text' : Option String} (same : Json.ofText? text = Json.ofText? text') :
    text = text' := by
  cases text <;> cases text' <;> cases same <;> rfl

theorem Json.worded_ofDict (d : Dict String) : Worded (Json.ofDict .str d) := by
  refine .obj fun member inside => ?_
  obtain ⟨entry, -, rfl⟩ := List.mem_map.1 inside
  exact .str entry.2

theorem Json.ofDict_injective {d d' : Dict String} (same : Json.ofDict .str d = Json.ofDict .str d') :
    d = d' := by
  have entries := List.map_injective_iff.2 (fun a b same => by
    obtain ⟨name, value⟩ := Prod.ext_iff.1 same
    exact Prod.ext name (Json.str.inj value)) (Json.obj.inj same)
  cases d
  cases d'
  cases entries
  rfl

namespace Record

variable {r r' : Record String}

/-- Only a kind with a slot has a head. -/
def Slotted {ι : Type} (r : Record ι) : Prop := r.head.isSome → r.kind.slot?.isSome

theorem Slotted.head_eq_none (slotted : r.Slotted) (bare : r.kind.slot? = none) : r.head = none := by
  rw [Slotted, bare] at slotted
  simpa using slotted

theorem worded_toJson (r : Record String) : Worded r.toJson := by
  refine .obj ?_
  simp only [List.forall_mem_cons, List.not_mem_nil, false_implies, implies_true, and_true]
  refine ⟨Json.worded_ofDict _, .str _, Json.worded_ofText? _, .obj fun member inside => ?_, .str _⟩
  obtain ⟨slot, -, rfl⟩ := List.mem_map.1 inside
  exact Json.worded_ofText? _

/-- A record is known by its JSON. -/
theorem eq_of_toJson (slotted : r.Slotted) (slotted' : r'.Slotted) (same : r.toJson = r'.toJson) :
    r = r' := by
  obtain ⟨id, kind, fields, head, next⟩ := r
  obtain ⟨id', kind', fields', head', next'⟩ := r'
  simp only [toJson, Json.obj.injEq, List.cons.injEq, Prod.mk.injEq, Json.str.injEq, true_and,
    and_true] at same
  obtain ⟨sameFields, rfl, sameNext, sameSlots, sameKind⟩ := same
  obtain rfl := Kind.name_injective sameKind
  obtain rfl := Json.ofDict_injective sameFields
  obtain rfl := Json.ofText?_injective sameNext
  have sameHead : head = head' := by
    cases slot : kind.slot? with
    | some name =>
      simp only [slots, slot, List.map_cons, List.map_nil, List.cons.injEq, Prod.mk.injEq, true_and,
        and_true] at sameSlots
      exact Json.ofText?_injective sameSlots
    | none =>
      -- Neither record has a head to show.
      exact (slotted.head_eq_none slot).trans (slotted'.head_eq_none slot).symm
  rw [sameHead]

end Record

/-! ### Snapshots and their texts -/

variable {m m' : Model} {indent : Option Json.Indent}

/-- The records of a sound model have heads only in slots. -/
theorem Model.Sound.slotted_snapshot (sound : m.Sound) :
    ∀ r ∈ m.snapshot.records, r.Slotted := by
  intro r inside
  obtain ⟨raw, shown, rfl⟩ := List.mem_map.1 inside
  obtain ⟨k, listed, rfl⟩ := List.mem_map.1 shown
  intro headed
  have held := sound.mem_canonicalOrder.1 listed
  exact sound.slotted held (by simpa [Record.replaceIds, Model.record] using headed)

/-- A snapshot's text tells its records. -/
theorem records_eq_of_text_eq (sound : m.Sound) (sound' : m'.Sound)
    (same : m.snapshot.text indent = m'.snapshot.text indent) :
    m.snapshot.records = m'.snapshot.records := by
  have worded : ∀ s : Snapshot, Worded (.arr (s.records.map Record.toJson)) := fun s =>
    .arr fun value inside => by
      obtain ⟨r, -, rfl⟩ := List.mem_map.1 inside
      exact r.worded_toJson
  have values := Json.arr.inj ((worded m.snapshot).eq_of_write (worded m'.snapshot) same)
  refine List.ext_getElem (by simpa using congrArg List.length values) fun i inside inside' => ?_
  refine Record.eq_of_toJson (sound.slotted_snapshot _ (List.getElem_mem inside))
    (sound'.slotted_snapshot _ (List.getElem_mem inside')) ?_
  have place := congrArg (·[i]?) values
  simpa [inside, inside'] using place

/-! ### Reconciliations of equal records -/

/-- A renaming that gives each name to itself changes nothing. -/
theorem Renaming.apply_of_diagonal {names : Renaming} (diagonal : ∀ p ∈ names, p.1 = p.2) (name : String) :
    names.apply name = name := by
  unfold apply
  cases found : names.lookup name with
  | none => rfl
  | some other =>
    obtain ⟨before, after, rfl, -⟩ := List.lookup_eq_some_iff.1 found
    exact (diagonal (name, other) (by simp)).symm

theorem Record.replaceIds_id {ι : Type} (r : Record ι) : r.replaceIds (fun name => name) = r := by
  simp [replaceIds]

namespace Snapshot

variable {old new : Snapshot}

/-- Records that are the same on both sides keep their labels. -/
theorem pairedLabels_of_eq (same : old.records = new.records) : ∀ p ∈ pairedLabels old new, p.1 = p.2 := by
  intro p inside
  obtain ⟨⟨i, j⟩, paired, found⟩ := List.mem_filterMap.1 inside
  rw [recordPairs, same, Alignment.pairs_self] at paired
  obtain ⟨_, _, place⟩ := List.mem_map.1 paired
  cases place
  rw [same] at found
  cases at_ : new.records[i]? with
  | none => simp [at_] at found
  | some r =>
    simp only [at_, Option.some.injEq] at found
    rw [← found]

theorem singles_of_eq (same : old.records = new.records) : singles old new = [] := by
  have none : ∀ r ∈ old.records.zipIdx,
      (!(recordPairs old.records new.records).any (·.1 == r.2)) = false := by
    intro r inside
    have within := List.snd_lt_of_mem_zipIdx inside
    rw [recordPairs, same, Alignment.pairs_self, Bool.not_eq_false', List.any_eq_true]
    refine ⟨(r.2, r.2), List.mem_map.2 ⟨r.2, ?_, rfl⟩, beq_self_eq_true _⟩
    rw [List.length_map, List.mem_range, ← same]
    simpa using within
  rw [singles, List.filter_eq_nil_iff.2 (fun r inside => by simp [none r inside]), List.map_nil]

/-- Stabilization leaves records as they are that are the same on both sides. -/
theorem exists_stabilize_of_eq (config : Config) (same : old.records = new.records) :
    ∃ s, old.stabilize config new = .ok s ∧ s.records = new.records := by
  refine ⟨_, stabilize_of_singles config (singles_of_eq same), ?_⟩
  have kept : (Renaming.apply (pairedLabels old new ++ []).reverse) = fun name => name :=
    funext (Renaming.apply_of_diagonal fun p inside =>
      pairedLabels_of_eq same p (by simpa using inside))
  rw [rename, same]
  refine (List.map_congr_left fun r _ => ?_).trans (List.map_id' _)
  rw [Record.rename, kept, r.replaceIds_id]

/-- There is nothing between snapshots of the same records. -/
theorem isEmpty_between (same : old.records = new.records) (before after : Option Model) :
    (ChangeSet.between old new before after).isEmpty = true := by
  have fields : ∀ (id : NodeId) (fields : Dict String), ChangeSet.fieldsChanged id fields fields = [] :=
    fun id fields => List.filterMap_eq_nil_iff.2 fun _ _ => if_pos rfl
  simp [ChangeSet.isEmpty, ChangeSet.entries, ChangeSet.between, Snapshot.links, record?, same, fields]

end Snapshot

/-- Between models whose snapshots show the same records there is nothing to change. -/
theorem exists_reconcile_of_records {config : Config} {withModels : Bool}
    (given : config.givenSnapshotIndent = .ok indent)
    (same : m.snapshot.records = m'.snapshot.records) :
    ∃ c, reconcile config m m' withModels = .ok c ∧ c.isEmpty = true := by
  obtain ⟨s, stable, records⟩ := Snapshot.exists_stabilize_of_eq config same
  refine ⟨_, ?_, Snapshot.isEmpty_between records (if withModels then some m else none)
    (if withModels then some m' else none)⟩
  simp only [reconcile, Model.snapshotUnder, given, Except.map, Except.mapError, bind, Except.bind, stable]
  rfl

/-! ### Texts with the same tokens -/

/-- What a token says, wherever it stands. -/
def Token.word (t : Token) : TokenKind × String := (t.kind, t.lexeme)

/-- What the tokens of a text say, in order. -/
def Lexer.words (text : String) (file : Json) : List (TokenKind × String) :=
  (tokenize text file).tokens.map Token.word

/-- Readings of the same shapes. -/
inductive Reading.Alike : Reading → Reading → Prop
  | value {tree tree' : ParseTree} : tree.shape = tree'.shape → Alike (.value tree) (.value tree')
  | item (isObject : Bool) {tree tree' : ParseTree} : tree.shape = tree'.shape →
    Alike (.item isObject tree) (.item isObject tree')
  | items (isObject : Bool) {latest latest' : List ParseTree} :
    latest.map ParseTree.shape = latest'.map ParseTree.shape →
      Alike (.items isObject latest) (.items isObject latest')

section Words

variable {ts ts' : List Token} {reading : Reading} {tree tree' : ParseTree}

/-- The shape of a pair is that of its key and of its value. -/
theorem ParseTree.shape_pair_congr {key key' : Token} {span span' : Location}
    (derives : Derives ts (.value tree)) (derives' : Derives ts' (.value tree'))
    (sameKey : key.lexeme = key'.lexeme) (same : tree.shape = tree'.shape) :
    (ParseTree.rule .pair [.token key, tree] span).shape =
      (ParseTree.rule .pair [.token key', tree'] span').shape := by
  -- A scalar has another kind than a container.
  have apart : ∀ {t : Token} {isObject : Bool} {children : List ParseTree} {span : Location},
      (ParseTree.token t).shape ≠ (ParseTree.rule (ruleOf isObject) children span).shape := by
    intro t isObject children span same
    rw [shape_token, shape_container] at same
    cases isObject <;> simp [kindOf] at same
  cases derives with
  | @scalar t _ =>
    cases derives' with
    | @scalar t' _ =>
      rw [shape_token, shape_token] at same
      have fields := congrArg (fun shape : Shape => shape.label.2.get? valueName) same
      have sameValue : t.lexeme = t'.lexeme := Option.some.inj fields
      rw [shape_pair_token, shape_pair_token, sameKey, sameValue]
    | container _ _ _ => exact absurd same apart
  | container _ _ _ =>
    cases derives' with
    | scalar _ => exact absurd same.symm apart
    | container _ _ _ => rw [shape_pair_rule, shape_pair_rule, sameKey, same]

/-- Tokens that say the same are read as the same. -/
theorem Derives.reworded (derives : Derives ts reading) (same : ts.map Token.word = ts'.map Token.word) :
    ∃ reading', Derives ts' reading' ∧ reading.Alike reading' := by
  have kind : ∀ {t t' : Token}, t.word = t'.word → t'.kind = t.kind := fun word =>
    (congrArg Prod.fst word).symm
  -- The other tokens are split where the derivation splits these, and each mark meets its like.
  induction derives generalizing ts' with
  | @scalar t isScalar =>
    obtain ⟨t', rfl, word⟩ := List.map_eq_singleton_iff.1 same.symm
    have lexeme : t'.lexeme = t.lexeme := congrArg Prod.snd word
    refine ⟨_, .scalar (by rwa [kind word.symm]), .value ?_⟩
    rw [ParseTree.shape_token, ParseTree.shape_token, lexeme]
  | @container first last isObject ts latest opener closer _ ih =>
    rw [List.map_cons, List.map_append, List.map_singleton] at same
    obtain ⟨first', rest, rfl, isFirst, behind⟩ := List.map_eq_cons_iff.1 same.symm
    obtain ⟨ts', ends, rfl, inner, single⟩ := List.map_eq_append_iff.1 behind
    obtain ⟨last', rfl, isLast⟩ := List.map_eq_singleton_iff.1 single
    obtain ⟨_, derives, alike⟩ := ih inner.symm
    cases alike with
    | items _ shapes =>
      refine ⟨_, .container (by rw [kind isFirst.symm, opener]) (by rw [kind isLast.symm, closer]) derives,
        .value ?_⟩
      rw [ParseTree.shape_container, ParseTree.shape_container, List.map_reverse, List.map_reverse, shapes]
  | element _ ih =>
    obtain ⟨_, derives, alike⟩ := ih same
    cases alike with
    | value shape => exact ⟨_, .element derives, .item false shape⟩
  | @member key colon ts tree isString isColon derives ih =>
    rw [List.map_cons, List.map_cons] at same
    obtain ⟨key', rest, rfl, isKey, behind⟩ := List.map_eq_cons_iff.1 same.symm
    obtain ⟨colon', ts', rfl, isMark, inner⟩ := List.map_eq_cons_iff.1 behind
    obtain ⟨_, derives', alike⟩ := ih inner.symm
    cases alike with
    | value shape =>
      exact ⟨_, .member (by rw [kind isKey.symm, isString]) (by rw [kind isMark.symm, isColon]) derives',
        .item true (ParseTree.shape_pair_congr derives derives' (congrArg Prod.snd isKey.symm) shape)⟩
  | none isObject =>
    obtain rfl := List.map_eq_nil_iff.1 same.symm
    exact ⟨_, .none isObject, .items isObject rfl⟩
  | first _ ih =>
    obtain ⟨_, derives, alike⟩ := ih same
    cases alike with
    | item _ shape => exact ⟨_, .first derives, .items _ (congrArg (fun s => [s]) shape)⟩
  | @more isObject comma before ts tree latest earlier _ isComma _ ih ih' =>
    rw [List.map_append, List.map_cons] at same
    obtain ⟨before', rest, rfl, front, behind⟩ := List.map_eq_append_iff.1 same.symm
    obtain ⟨comma', ts', rfl, isMark, inner⟩ := List.map_eq_cons_iff.1 behind
    obtain ⟨_, derives, alike⟩ := ih front.symm
    obtain ⟨_, derives', alike'⟩ := ih' inner.symm
    cases alike with
    | @items _ _ latest' shapes =>
      cases alike' with
      | item _ shape =>
        obtain ⟨newest, others, rfl, -, -⟩ := List.map_eq_cons_iff.1 shapes.symm
        exact ⟨_, .more derives (by rw [kind isMark.symm, isComma]) derives',
          .items isObject (congrArg₂ List.cons shape shapes)⟩

/-- Texts whose tokens say the same are parsed as the same. -/
theorem Parser.shape_eq_of_words {text text' : String} {file file' : Json}
    (parsed : parse text file = .ok tree) (parsed' : parse text' file' = .ok tree')
    (same : Lexer.words text file = Lexer.words text' file') : tree.shape = tree'.shape := by
  obtain ⟨ts, last, -, -, tokens, -, -, -, -, derives⟩ := written_of_parse parsed
  obtain ⟨ts', last', -, -, tokens', isEnd, -, -, -, derives'⟩ := written_of_parse parsed'
  rw [Lexer.words, Lexer.words, tokens, tokens', List.map_append, List.map_append] at same
  obtain ⟨_, reworded, alike⟩ := derives.reworded (List.append_inj' same rfl).1
  cases alike with
  | value shape =>
    -- The tokens are read as one tree only.
    have read : treeOf .null (ts' ++ [last']) = _ := treeOf_of_derives reworded isEnd
    rw [treeOf_of_derives derives' isEnd] at read
    cases read
    exact shape

end Words

/-- Models of texts whose tokens say the same have the same snapshot but for the ids behind the labels. -/
theorem records_eq_of_words {text text' : String} {file file' : Json} {supply supply' count count' : Nat}
    (built : Model.build text file supply = .ok (m, count))
    (built' : Model.build text' file' supply' = .ok (m', count'))
    (same : Lexer.words text file = Lexer.words text' file') : m.snapshot.records = m'.snapshot.records := by
  obtain ⟨tree, parsed, spelled⟩ := Build.spelled_of_build built
  obtain ⟨tree', parsed', spelled'⟩ := Build.spelled_of_build built'
  obtain ⟨r, single, -⟩ := spelled.single
  obtain ⟨r', single', -⟩ := spelled'.single
  rw [spelled.sound.records_snapshot single, spelled'.sound.records_snapshot single',
    spelled.shapesAt (Parser.regular_of_parse parsed) single,
    spelled'.shapesAt (Parser.regular_of_parse parsed') single',
    Parser.shape_eq_of_words parsed parsed' same]


/-! ### Change sets without entries -/

end DocSync
