import DocSync.Proofs.Payload.Records
import Mathlib.Logic.Relation

/-!
Stored models told by what they hold, whatever the order in which the members of their objects stand. What
is stored in the types that it should have can be read part by part; whether its records fit together is
another matter.
-/

namespace DocSync

/-! ### Objects in any order -/

/-- An object with the members of another one, which may stand in another order. -/
def Json.Rearranges (value other : Json) : Prop :=
  ∃ members, value = .obj members ∧ members.Perm other.members

/-- A map stored as an object, each of its values as a relation tells. -/
def Dict.StoredAs {α : Type} (stored : α → Json → Prop) (d : Dict α) (value : Json) : Prop :=
  ∃ entries members, value = .obj members ∧ entries.Perm d.entries ∧
    List.Forall₂ (fun entry member => member.1 = entry.1 ∧ stored entry.2 member.2) entries members

/-- The text that a name is; a name that is no text has none. -/
def Name.asText : Name → String
  | .text id => id
  | _ => ""

/-- A text, or null in its absence. -/
def storedText? (text : Option String) (value : Json) : Prop := value = .ofText? text

/-- A span as it is stored. -/
def Span.StoredAs (s : Span) (value : Json) : Prop := s.Proper ∧ value.Rearranges s.toJson

/-- A frame as it is stored. -/
def Frame.StoredAs (f : Frame) (value : Json) : Prop := f.strays = [] ∧ value.Rearranges f.toJson

/-- Where a node was read, as it is stored. -/
def Origin.StoredAs (o : Origin) (value : Json) : Prop :=
  o.strays = [] ∧ ∃ fields slots span,
    o.fieldSpans.StoredAs Span.StoredAs fields ∧ o.slotSpans.StoredAs Span.StoredAs slots ∧
    o.span.StoredAs span ∧ value.Rearranges (.obj [("field_spans", fields), ("slot_spans", slots),
      ("source_hash", .ofText? o.sourceHash), ("span", span)])

/-! ### Records -/

/-- A node as its record tells it. The kind is no more than a name, and links lead to ids. -/
structure StoredNode where
  id : String
  kind : String
  content : Content
  slots : Dict (Option String)
  next : Option String

/-- A link by the ids of its ends. -/
structure StoredLink where
  parent : String
  slot : String
  child : String
  deriving DecidableEq

/-- The links of a record: those of its slots by name, and then that to its sibling. -/
def StoredNode.links (n : StoredNode) : List StoredLink :=
  (n.slots.entries.filterMap fun entry => entry.2.map (⟨n.id, entry.1, ·⟩)) ++
    n.next.toList.map (⟨n.id, nextName, ·⟩)

/-- A record of a node: its parts are of the types they should be, and frames and origin may be left out. -/
structure StoredNode.StoredAs (n : StoredNode) (record : Json) : Prop where
  id : record.member? "id" = some (.str n.id)
  kind : record.member? "type" = some (.str n.kind)
  fields : ∃ value, record.member? "fields" = some value ∧
    n.content.fields.StoredAs (fun text value => value = .str text) value
  frames : record.member? "tokens" = none ∧ n.content.frames = .empty ∨
    ∃ value, record.member? "tokens" = some value ∧ n.content.frames.StoredAs Frame.StoredAs value
  origin : Payload.optional "meta" record = none ∧ n.content.origin = none ∨
    ∃ value o, record.member? "meta" = some value ∧ n.content.origin = some o ∧ o.StoredAs value
  slots : ∃ value, record.member? "slots" = some value ∧ n.slots.StoredAs storedText? value
  next : record.member? "next" = some (.ofText? n.next)

/-- A stored model: its records, the ids of its top level, and the texts around the document. -/
structure StoredModel where
  nodes : List StoredNode
  roots : List String
  leading : String
  trailing : String
  sourceHash : Option String

namespace StoredModel

/-- A model as it is stored, with a record for each node. -/
structure StoredAs (s : StoredModel) (value : Json) : Prop where
  object : ∃ members, value = .obj members ∧ (members.map Prod.fst).Nodup
  nodes : ∃ records, value.member? "nodes" = some (.arr records) ∧
    List.Forall₂ StoredNode.StoredAs s.nodes records
  roots : value.member? "roots" = some (.arr (s.roots.map .str))
  leading : value.member? "leading" = some (.str s.leading)
  trailing : value.member? "trailing" = some (.str s.trailing)
  sourceHash : value.member? "source_hash" = some (.ofText? s.sourceHash)

/-- The ids of the records. -/
def ids (s : StoredModel) : List String := s.nodes.map StoredNode.id

/-- The links of all records. -/
def links (s : StoredModel) : List StoredLink := s.nodes.flatMap StoredNode.links

/-- One id leads to another by a link. -/
def LinksTo (s : StoredModel) (a b : String) : Prop := ∃ l ∈ s.links, l.parent = a ∧ l.child = b

/-- The records of a stored model fit together, whatever stands at its top level. -/
structure Fits (s : StoredModel) : Prop where
  ids : s.ids.Nodup
  kinds : ∀ n ∈ s.nodes, ∃ kind, Kind.ofName? n.kind = some kind
  /-- A link has the name of a slot that the kind has, or leads to a sibling. -/
  slots : ∀ n ∈ s.nodes, ∀ l ∈ n.links, l.slot = nextName ∨
    ∃ kind, Kind.ofName? n.kind = some kind ∧ kind.slot? = some l.slot
  /-- No link of a node is given twice. -/
  given : (s.links.map fun l => (l.parent, l.slot)).Nodup
  known : ∀ l ∈ s.links, l.child ∈ s.ids
  children : (s.links.map StoredLink.child).Nodup
  acyclic : ∀ id, ¬ Relation.TransGen s.LinksTo id id

/-- A stored model that fits together, and whose top level is that of its records. -/
structure Consistent (s : StoredModel) : Prop extends Fits s where
  /-- The top level lists what no link leads to, in the order of the records. -/
  roots : s.roots = s.ids.filter (· ∉ s.links.map StoredLink.child)

end StoredModel

/-! ### What is written is stored -/

theorem Json.Rearranges.refl {value : Json} {members : List (String × Json)} (object : value = .obj members) :
    value.Rearranges value :=
  ⟨members, object, by rw [object]; exact .refl _⟩

theorem Dict.storedAs_ofDict {α : Type} {stored : α → Json → Prop} {write : α → Json} {d : Dict α}
    (each : ∀ entry ∈ d.entries, stored entry.2 (write entry.2)) : d.StoredAs stored (.ofDict write d) :=
  ⟨d.entries, _, rfl, .refl _, List.forall₂_map_right_iff.2
    (List.forall₂_same.2 fun entry inside => ⟨rfl, each entry inside⟩)⟩

theorem Span.Proper.storedAs {s : Span} (proper : s.Proper) : s.StoredAs s.toJson :=
  ⟨proper, .refl proper.toJson_eq⟩

theorem Frame.storedAs {f : Frame} (proper : f.strays = []) : f.StoredAs f.toJson :=
  ⟨proper, .refl (by rw [Frame.toJson, proper, Json.withStrays_nil])⟩

theorem Origin.Proper.storedAs {o : Origin} (proper : o.Proper) : o.StoredAs o.toJson := by
  obtain ⟨own, ofFields, ofSlots⟩ := Origin.forall_spans.1 proper.spans
  refine ⟨proper.strays, _, _, _, Dict.storedAs_ofDict fun entry inside => (ofFields entry inside).storedAs,
    Dict.storedAs_ofDict fun entry inside => (ofSlots entry inside).storedAs, own.storedAs, ?_⟩
  rw [proper.toJson_eq]
  exact .refl rfl

/-! ### Reading what is stored -/

/-- A lookup in a list of different names has no regard to its order. -/
theorem Assoc.lookup_perm {α : Type} {entries entries' : List (String × α)} (perm : entries.Perm entries')
    (nodup : (entries'.map Prod.fst).Nodup) (name : String) :
    entries.lookup name = entries'.lookup name := by
  have nodup' : (entries.map Prod.fst).Nodup := (perm.map Prod.fst).nodup_iff.2 nodup
  refine Option.ext fun value => ?_
  rw [Assoc.lookup_eq_some_iff nodup, Assoc.lookup_eq_some_iff nodup', perm.mem_iff]

/-- A map comes back from its entries in any order. -/
theorem Dict.ofList_of_perm {α : Type} {d : Dict α} {entries : List (String × α)}
    (perm : entries.Perm d.entries) : ofList entries = d := by
  refine ext_get? fun name => ?_
  cases found : (ofList entries).get? name with
  | some value =>
    exact (mem_entries_iff.1 (perm.mem_iff.1 (mem_of_get?_ofList found))).symm
  | none =>
    rw [get?_eq_none_iff, mem_keys_ofList, (perm.map Prod.fst).mem_iff] at found
    exact (get?_eq_none_iff.2 found).symm

namespace Json.Rearranges

variable {value other : Json}

theorem member?_eq (same : value.Rearranges other) (nodup : (other.members.map Prod.fst).Nodup)
    (name : String) : value.member? name = other.member? name := by
  obtain ⟨members, rfl, perm⟩ := same
  exact Assoc.lookup_perm perm nodup name

/-- Where no member is of another type than it should be, none is in another order. -/
theorem strays_eq (same : value.Rearranges other) {proper : String → Json → Bool}
    (none_ : Strays.of proper other.members = []) : Strays.of proper value.members = [] := by
  obtain ⟨members, rfl, perm⟩ := same
  have filtered := perm.filter fun member => !proper member.1 member.2
  rw [show other.members.filter _ = [] from none_] at filtered
  exact filtered.eq_nil

end Json.Rearranges

namespace Payload

theorem required_eq {name : String} {record value : Json} (found : record.member? name = some value) :
    required name record = .ok value := by
  cases record with
  | obj members =>
    have there : members.lookup name = some value := found
    simp only [required, there]
  | _ => cases found

/-- A map that is stored is read back if each of its values is. -/
theorem dictOf_stored {α : Type} {stored : α → Json → Prop} {read : Json → Except PayloadError α}
    {d : Dict α} {value : Json} (isStored : d.StoredAs stored value)
    (each : ∀ a v, stored a v → read v = .ok a) : dictOf read value = .ok d := by
  obtain ⟨entries, members, rfl, perm, all⟩ := isStored
  have reads : members.mapM (fun member =>
      (do return (member.1, ← read member.2) : Except PayloadError (String × α))) = .ok entries := by
    rw [Except.mapM_eq_ok]
    refine all.flip.imp fun member entry same => ?_
    rw [each _ _ same.2, same.1]
    rfl
  simp only [dictOf, membersOf, bind, Except.bind] at reads ⊢
  rw [reads]
  exact congrArg Except.ok (Dict.ofList_of_perm perm)

/-- A map that counts as nothing holds nothing. -/
theorem eq_empty_of_stored {α : Type} {stored : α → Json → Prop} {d : Dict α} {value : Json}
    (isStored : d.StoredAs stored value) (void : value.isVoid = true) : d = .empty := by
  obtain ⟨entries, members, rfl, perm, all⟩ := isStored
  obtain rfl := List.isEmpty_iff.1 (show members.isEmpty = true from void)
  obtain rfl := List.forall₂_nil_right_iff.1 all
  rw [← Dict.ofList_of_perm perm]
  rfl

/-- A span is read back. -/
theorem readSpan_stored {s : Span} {value : Json} (stored : s.StoredAs value) :
    readSpan value = .ok s := by
  obtain ⟨proper, same⟩ := stored
  have nodup : (s.toJson.members.map Prod.fst).Nodup := by
    rw [proper.toJson_eq]
    simp [Location.toJson, Json.members]
  have member := same.member?_eq nodup
  -- Its parts are those of its own JSON, which is read back.
  have whole : spanOf s.toJson = s := by
    have read := proper.read
    rw [proper.toJson_eq] at read ⊢
    exact Except.ok.inj read
  have strays : Strays.of isSpanPart value.members = s.strays := by
    rw [proper.strays]
    exact same.strays_eq ((congrArg Span.strays whole).trans proper.strays)
  have parts : spanOf value = s := by
    rw [← whole]
    simp only [spanOf, intOf, member]
    rw [strays, ← congrArg Span.strays whole]
    rfl
  have line : value.member? "lineno" = some (.int s.line) := by
    rw [member, proper.toJson_eq]
    rfl
  have col : value.member? "col_offset" = some (.int s.col) := by
    rw [member, proper.toJson_eq]
    rfl
  rw [readSpan, required_eq line, required_eq col, parts]
  rfl

/-- A frame is read back. -/
theorem readFrame_stored {f : Frame} {value : Json} (stored : f.StoredAs value) :
    readFrame value = .ok f := by
  obtain ⟨proper, same⟩ := stored
  have names : f.toJson.members.map Prod.fst =
      ["indent", "prefix", "separator", "suffix", "trailing_separator"] := by
    rw [Frame.toJson, proper, Json.withStrays_nil]
    rfl
  have member := same.member?_eq (by rw [names]; decide)
  have whole : frameOf f.toJson = f := by
    have read := Frame.read proper
    rw [Frame.toJson, proper, Json.withStrays_nil] at read ⊢
    exact Except.ok.inj read
  have strays : Strays.of isFramePart value.members = f.strays := by
    rw [proper]
    exact same.strays_eq ((congrArg Frame.strays whole).trans proper)
  have parts : frameOf value = f := by
    rw [← whole]
    simp only [frameOf, textOf, member]
    rw [strays, ← congrArg Frame.strays whole]
    rfl
  obtain ⟨members, rfl, perm⟩ := same
  -- It has no members but those of a frame.
  have known : ∀ entry ∈ members, frameMembers.contains entry.1 = true := by
    intro entry inside
    have among := List.mem_map_of_mem (f := Prod.fst) (perm.mem_iff.1 inside)
    rw [names] at among
    have all : ∀ name ∈ ["indent", "prefix", "separator", "suffix", "trailing_separator"],
        frameMembers.contains name = true := by decide
    exact all _ among
  simp only [readFrame, membersOf, bind, Except.bind, parts, List.all_eq_true.2 known]
  rfl

/-- Where a node was read is read back. -/
theorem readOrigin_stored {o : Origin} {value : Json} (stored : o.StoredAs value) :
    readOrigin value = .ok o := by
  obtain ⟨proper, fields, slots, span, ofFields, ofSlots, own, same⟩ := stored
  have member := same.member?_eq (by simp [Json.members])
  have strays : hashStrays value = o.strays := by
    rw [proper]
    refine same.strays_eq ?_
    cases o.sourceHash <;>
      simp [Strays.of, Json.members, Json.ofText?, isTextOrNull, Json.text?, Json.isNull]
  have ownSpan : value.member? "span" = some span := member "span"
  have fieldSpans : value.member? "field_spans" = some fields := member "field_spans"
  have slotSpans : value.member? "slot_spans" = some slots := member "slot_spans"
  have hash : (value.member? "source_hash").bind Json.text? = o.sourceHash := by
    rw [member]
    cases o.sourceHash <;> rfl
  simp only [readOrigin, required_eq ownSpan, readSpan_stored own, dictAt, fieldSpans, slotSpans,
    dictOf_stored ofFields fun _ _ => readSpan_stored, dictOf_stored ofSlots fun _ _ => readSpan_stored,
    hash, strays, bind, Except.bind]
  rfl

/-- Fields are read back. -/
theorem readFields_stored {fields : Dict String} {value : Json}
    (stored : fields.StoredAs (fun text value => value = .str text) value) :
    readFields value = .ok fields := by
  unfold readFields
  split
  · next void => rw [eq_empty_of_stored stored void]
  · have read : dictOf (fun field => .ok field.asText) value = .ok fields :=
      dictOf_stored stored (by rintro _ _ rfl; rfl)
    obtain ⟨_, members, rfl, _⟩ := stored
    exact read

/-- The fields of a record are texts. -/
theorem hasTextFields_stored {n : StoredNode} {record : Json} (stored : n.StoredAs record) :
    hasTextFields record = true := by
  obtain ⟨value, found, entries, members, rfl, _, all⟩ := stored.fields
  simp only [hasTextFields, found, List.all_eq_true]
  intro field inside
  obtain ⟨entry, _, _, isText⟩ := all.flip.exists_of_mem inside
  rw [isText]
  rfl

end Payload

end DocSync
