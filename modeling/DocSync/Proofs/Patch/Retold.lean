import DocSync.Proofs.Patch.Asked

/-!
How the text of a live node is put together when splices are carried out. Either it is what the node is
shown as, or the node became what it is by staying, and then its text is made of what was in the read text
around its children and fields, and of the texts of these.
-/

namespace DocSync

open Lexer (Blanks Lexeme)

namespace PatchTask

variable {t : PatchTask} {a b c : Key} {gap out text : List Char}

/-- What may come to stand between the children of a node that stayed: the separator of its frame, or what
has stood there. -/
def Spaces (t : PatchTask) (a : Key) (gap : List Char) : Prop :=
  gap = (t.read.sampled a).separator.toList ∨ t.read.StandsBetween t.text.toList (t.read.children a) gap

/-- A text is put together for a live node. -/
inductive Retold (t : PatchTask) : List Char → Key → Prop
  | shown {b : Key} : t.live.Holds b → Retold t (t.shown b).toList b
  | scalar {a b : Key} {value : String} :
    Partners t.read t.live a b → (t.read.node a).kind = .scalar →
      (t.live.node b).fields.get? valueName = some value → Retold t value.toList b
  | field {a b : Key} {key value : String} :
    Partners t.read t.live a b → (t.read.node a).kind = .pair → t.live.children b = [] →
      (t.live.node b).fields.get? keyField = some key →
      (t.live.node b).fields.get? valueName = some value →
      Retold t (key.toList ++ ((t.read.sampled a).opening.toList ++ value.toList)) b
  | slot {a b c : Key} {key : String} {text : List Char} :
    Partners t.read t.live a b → (t.read.node a).kind = .pair → t.live.children b = [c] →
      (t.live.node b).fields.get? keyField = some key → Retold t text c →
      Retold t (key.toList ++ ((t.read.sampled a).opening.toList ++ text)) b
  /-- An opening that was laid out for children is cut down where none are left. -/
  | empty {a b : Key} {isObject : Bool} {opening : String} :
    Partners t.read t.live a b → (t.read.node a).kind = kindOf isObject → t.live.children b = [] →
      (opening = (t.read.sampled a).emptyOpening ∨
        t.read.children a = [] ∧ opening = (t.read.sampled a).opening) →
      Retold t (opening.toList ++ (t.read.sampled a).closing.toList) b
  | row {a b : Key} {isObject : Bool} {row : List Char} {stands : List Char → Key → Prop} :
    Partners t.read t.live a b → (t.read.node a).kind = kindOf isObject →
      (∀ text c, stands text c → Retold t text c) → Row (t.Spaces a) stands row (t.live.children b) →
      Retold t ((t.read.sampled a).opening.toList ++ (row ++ (t.read.sampled a).closing.toList)) b

/-- In a document the items of an object are pairs, and those of an array are not. -/
theorem shapeOf_container {m : Model} {isObject : Bool} (sound : m.Sound) (held : m.Holds b)
    (filled : m.Filled b) (kind : (m.node b).kind = kindOf isObject) :
    m.shapeOf b = .node (kindOf isObject, .empty) ((m.children b).map m.shapeOf) ∧
      ∀ item ∈ (m.children b).map m.shapeOf, item.isPair = isObject := by
  have fields : (m.node b).fields = .empty ∧
      ∀ c ∈ m.children b, ((m.node c).kind == .pair) = isObject := by
    unfold Model.Filled at filled
    rw [kind] at filled
    cases isObject
    · exact ⟨filled.1, fun c child => beq_false_of_ne (filled.2 c child)⟩
    · exact ⟨filled.1, fun c child => by rw [filled.2 c child]; rfl⟩
  constructor
  · rw [sound.toLinked.shapeOf_eq held, Model.contentOf, kind, fields.1]
  · rw [← sound.toLinked.shapesAt_head held]
    exact Model.areItems_of_children fields.2

namespace Ready

variable (ready : t.Ready)
include ready

/-- The frame of a pair that was read has a colon, and nothing behind the value. -/
theorem sampled_pair (held : t.read.Holds a) (kind : (t.read.node a).kind = .pair) :
    DocSync.Gap ':' (t.read.sampled a).opening.toList ∧ (t.read.sampled a).closing = "" := by
  cases ready.seated held with
  | @container _ isObject _ _ _ kind' =>
    rw [kind] at kind'
    cases isObject <;> cases kind'
  | scalar _ kind' =>
    rw [kind] at kind'
    cases kind'
  | @pair _ _ frame _ _ _ stored fits closing _ _ _ _ _ =>
    have sampled : t.read.sampled a = frame := by rw [Model.sampled, stored]; rfl
    have texts := fits.texts
    rw [kind] at texts
    exact ⟨sampled ▸ texts.1, sampled ▸ closing⟩

/-- What is put together for a node says what the node is. -/
theorem readsWithin_of_retold (blank : t.config.Blank) (retold : t.Retold out b) :
    ReadsWithin anyhow out (t.live.shapeOf b) := by
  -- Each way of putting a text together goes with a way of reading it.
  have soundLive := ready.soundLive
  induction retold with
  | shown held => exact ready.readsWithin_shown blank held
  | @scalar a b value partners kind valued =>
    have heldB := partners.holds_right soundLive
    have kindB := partners.kind_eq ▸ kind
    have filled := ready.furnished.filled heldB
    rw [Model.Filled, kindB] at filled
    obtain ⟨lexeme, ⟨kind', isLexeme, isScalar⟩, fields⟩ := filled
    obtain rfl : String.ofList lexeme = value := by simpa [fields] using valued
    rw [String.toList_ofList, soundLive.toLinked.shapeOf_eq heldB, Model.contentOf, kindB, fields,
      soundLive.children_of_scalar heldB kindB]
    exact ⟨[], lexeme, [], by simp, List.forall_mem_nil _, List.forall_mem_nil _, .scalar isLexeme isScalar⟩
  | @field a b key value partners kind childless keyed valued =>
    have heldB := partners.holds_right soundLive
    have kindB := partners.kind_eq ▸ kind
    have filled := ready.furnished.filled heldB
    obtain ⟨gap, _⟩ := ready.sampled_pair (partners.holds_left ready.soundRead) kind
    rw [Model.Filled, kindB] at filled
    obtain ⟨key', lexeme, ⟨value', isValue, _, fields⟩ | ⟨c, children, _⟩⟩ := filled
    · obtain rfl : String.ofList key' = key := by
        simpa [fields] using keyed
      obtain rfl : String.ofList value' = value := by
        simpa [fields] using valued
      rw [soundLive.toLinked.shapeOf_eq heldB, Model.contentOf, kindB, fields, childless]
      simpa using readsWithin_field lexeme gap isValue (List.forall_mem_nil _)
    · rw [childless] at children
      cases children
  | @slot a b c key text partners kind children keyed _ within =>
    have heldB := partners.holds_right soundLive
    have kindB := partners.kind_eq ▸ kind
    have filled := ready.furnished.filled heldB
    obtain ⟨gap, _⟩ := ready.sampled_pair (partners.holds_left ready.soundRead) kind
    rw [Model.Filled, kindB] at filled
    obtain ⟨key', lexeme, ⟨_, _, childless, _⟩ | ⟨c', children', isContainer, fields⟩⟩ := filled
    · rw [childless] at children
      cases children
    · obtain rfl : c = c' := by simpa [children] using children'
      obtain rfl : String.ofList key' = key := by simpa [fields] using keyed
      have heldC := ready.holds_child_live heldB (by rw [children]; exact List.mem_singleton_self c)
      have holds : (t.live.shapeOf c).isContainer = true := by
        rw [soundLive.toLinked.shapeOf_eq heldC]
        simpa [Shape.isContainer, Tree.label, Model.contentOf] using isContainer
      rw [soundLive.toLinked.shapeOf_eq heldB, Model.contentOf, kindB, fields, children]
      simpa using readsWithin_slot lexeme gap within holds (List.forall_mem_nil _)
  | @empty a b isObject opening partners kind childless opens =>
    have heldB := partners.holds_right soundLive
    obtain ⟨shape, _⟩ := shapeOf_container soundLive heldB (ready.furnished.filled heldB)
      (partners.kind_eq ▸ kind)
    obtain ⟨_, _, brackets, indent, _, _, _, _, _⟩ :=
      (ready.seated (partners.holds_left ready.soundRead)).exists_bracketed kind
    have mark : DocSync.Gap (openMark isObject) opening.toList := by
      rcases opens with rfl | ⟨_, rfl⟩
      · exact gap_emptyOpening (isBlank_openMark isObject) brackets.opening indent
      · exact brackets.opening
    rw [shape, childless]
    exact readsWithin_empty mark brackets.closing
  | @row a b isObject row stands partners kind _ rows within =>
    have heldB := partners.holds_right soundLive
    obtain ⟨shape, areItems⟩ := shapeOf_container soundLive heldB (ready.furnished.filled heldB)
      (partners.kind_eq ▸ kind)
    obtain ⟨_, _, brackets, _, _, _, _, _, _⟩ :=
      (ready.seated (partners.holds_left ready.soundRead)).exists_bracketed kind
    -- Between the children stand commas, old ones and new ones.
    have commas : ∀ gap, t.Spaces a gap → DocSync.Gap ',' gap := by
      rintro gap (rfl | ⟨_, _, _, comma, _⟩)
      · exact brackets.separator
      · exact comma
    rw [shape]
    exact readsWithin_row brackets.opening brackets.closing (rows.map commas within) areItems

end Ready

end PatchTask

end DocSync
