import DocSync.Grammar.Parser
import DocSync.Proofs.Model.Blueprint

/-!
The grammar as derivations over tokens, and the machine that carries it out. What the machine has
read so far is told by the containers on its stack, and every step keeps that.
-/

namespace DocSync

/-- What a run of tokens may be read as: a value, one item of a container, or its items so far,
latest first. -/
inductive Reading where
  | value (tree : ParseTree)
  | item (isObject : Bool) (tree : ParseTree)
  | items (isObject : Bool) (latest : List ParseTree)

/-- The mark that opens a container. -/
def openerOf (isObject : Bool) : TokenKind := if isObject then .lbrace else .lbracket

/-- The mark that closes a container. -/
def closerOf (isObject : Bool) : TokenKind := if isObject then .rbrace else .rbracket

/-- The rule of a container. -/
def ruleOf (isObject : Bool) : Rule := if isObject then .object else .array

/-- The grammar: which tokens are read as what. -/
inductive Derives : List Token → Reading → Prop
  | scalar {t : Token} : t.kind.isScalar = true → Derives [t] (.value (.token t))
  | container {first last : Token} {isObject : Bool} {ts : List Token} {latest : List ParseTree} :
    first.kind = openerOf isObject → last.kind = closerOf isObject →
      Derives ts (.items isObject latest) →
        Derives (first :: (ts ++ [last]))
          (.value (.rule (ruleOf isObject) latest.reverse (first.span.spanTo last.span)))
  | element {ts : List Token} {tree : ParseTree} :
    Derives ts (.value tree) → Derives ts (.item false tree)
  | member {key colon : Token} {ts : List Token} {tree : ParseTree} :
    key.kind = .string → colon.kind = .colon → Derives ts (.value tree) →
      Derives (key :: colon :: ts)
        (.item true (.rule .pair [.token key, tree] (key.span.spanTo tree.span)))
  | none (isObject : Bool) : Derives [] (.items isObject [])
  | first {isObject : Bool} {ts : List Token} {tree : ParseTree} :
    Derives ts (.item isObject tree) → Derives ts (.items isObject [tree])
  | more {isObject : Bool} {comma : Token} {before ts : List Token} {tree latest : ParseTree}
    {earlier : List ParseTree} :
    Derives before (.items isObject (latest :: earlier)) → comma.kind = .comma →
      Derives ts (.item isObject tree) →
        Derives (before ++ comma :: ts) (.items isObject (tree :: latest :: earlier))

/-- All trees of a reading follow the grammar's rules. -/
def Reading.Regular : Reading → Prop
  | .value tree => tree.Regular
  | .item _ tree => tree.Regular
  | .items _ latest => ∀ tree ∈ latest, tree.Regular

theorem Derives.regular {ts : List Token} {reading : Reading} (derives : Derives ts reading) :
    reading.Regular := by
  induction derives with
  | scalar _ => exact .token _
  | @container first last isObject ts latest _ _ _ ih =>
    have inner : ∀ tree ∈ latest.reverse, tree.Regular := fun tree member =>
      ih tree (List.mem_reverse.1 member)
    cases isObject
    · exact .array _ inner
    · exact .object _ inner
  | element _ ih => exact ih
  | member _ _ _ ih => exact .pair _ _ ih
  | none isObject => exact fun tree inside => nomatch inside
  | first _ ih => exact fun tree inside => List.mem_singleton.1 inside ▸ ih
  | more _ _ _ earlier ih =>
    exact fun tree inside => (List.mem_cons.1 inside).elim (· ▸ ih) (earlier tree)

namespace Parser

/-! ### What the machine has read -/

/-- The opening of a container and the items read of it, with nothing behind them. -/
structure Begun (read : List Token) (o : Open) : Prop where
  split : ∃ first ts, read = first :: ts ∧ first.kind = openerOf o.isObject ∧
    first.span = o.opening ∧ Derives ts (.items o.isObject o.children)
  settled : o.pending = none

/-- The opening of a container and what has been read of it, where the next item is due. -/
inductive Ready : List Token → Open → Prop
  | first {read : List Token} {o : Open} : Begun read o → o.children = [] → Ready read o
  | more {read : List Token} {o : Open} {comma : Token} :
    Begun read o → o.children ≠ [] → comma.kind = .comma → Ready (read ++ [comma]) o

/-- What has been read where a value is due, given the containers that are open. -/
inductive Due : List Token → List Open → Prop
  | top : Due [] []
  | element {before read : List Token} {o : Open} {outer : List Open} :
    Due before outer → Ready read o → o.isObject = false → Due (before ++ read) (o :: outer)
  | member {before read : List Token} {o : Open} {outer : List Open} {key colon : Token} :
    Due before outer → Ready read o → o.isObject = true → key.kind = .string →
      colon.kind = .colon →
        Due (before ++ (read ++ [key, colon])) ({ o with pending := some key } :: outer)

/-- What has been read in a state of the machine. -/
inductive Consumed : List Token → State → Prop
  | value {before : List Token} {outer : List Open} : Due before outer →
    Consumed before (.value outer)
  | first {before read : List Token} {top : Open} {outer : List Open} :
    Due before outer → Begun read top → top.children = [] →
      Consumed (before ++ read) (.first top outer)
  | key {before read : List Token} {top : Open} {outer : List Open} :
    Due before outer → Ready read top → top.isObject = true →
      Consumed (before ++ read) (.key top outer)
  | colon {before read : List Token} {top : Open} {outer : List Open} {key : Token} :
    Due before outer → Ready read top → top.isObject = true → key.kind = .string →
      Consumed (before ++ (read ++ [key])) (.colon { top with pending := some key } outer)
  | after {before read : List Token} {top : Open} {outer : List Open} :
    Due before outer → Begun read top → top.children ≠ [] →
      Consumed (before ++ read) (.after top outer)
  | done {read rest : List Token} {tree : ParseTree} : Derives read (.value tree) →
    (∀ t ∈ rest, t.kind = .eof) → Consumed (read ++ rest) (.done tree)

/-- An item read where one is due leaves the container with this item. -/
theorem Ready.begun {read ts : List Token} {o : Open} {tree : ParseTree} (ready : Ready read o)
    (derives : Derives ts (.item o.isObject tree)) :
    Begun (read ++ ts) { o with children := tree :: o.children } := by
  cases ready with
  | first begun noItems =>
    obtain ⟨⟨first, ts₀, rfl, opener, span, items⟩, settled⟩ := begun
    rw [noItems] at items
    cases items
    refine ⟨⟨first, ts, rfl, opener, span, ?_⟩, settled⟩
    rw [noItems]
    exact .first derives
  | @more read o comma begun someItems isComma =>
    obtain ⟨⟨first, ts₀, rfl, opener, span, items⟩, settled⟩ := begun
    refine ⟨⟨first, ts₀ ++ comma :: ts, by simp, opener, span, ?_⟩, settled⟩
    obtain ⟨latest, earlier, all⟩ := List.exists_cons_of_ne_nil someItems
    rw [all] at items ⊢
    exact .more items isComma derives

/-- The item that a container takes in is the one that its next value makes. -/
theorem Open.add_eq {o : Open} (settled : o.pending = none) (value : ParseTree) :
    o.add value = { o with children := value :: o.children } := by
  rw [add, settled]

theorem Open.add_pending {o : Open} (settled : o.pending = none) (key : Token) (value : ParseTree) :
    ({ o with pending := some key } : Open).add value =
      { o with
        children := .rule .pair [.token key, value] (key.span.spanTo value.span) :: o.children } := by
  simp only [add, ← settled]

theorem Ready.settled {read : List Token} {o : Open} (ready : Ready read o) : o.pending = none := by
  cases ready with
  | first begun _ => exact begun.settled
  | more begun _ _ => exact begun.settled

/-- A finished value leaves what the machine waits for next. -/
theorem Due.finish {before ts : List Token} {outer : List Open} {tree : ParseTree}
    (due : Due before outer) (derives : Derives ts (.value tree)) :
    Consumed (before ++ ts) (finish tree outer) := by
  cases due with
  | top =>
    have done : Consumed (ts ++ []) (.done tree) := .done derives (by simp)
    rwa [List.append_nil] at done
  | @element before read o outer due ready array =>
    have begun := ready.begun (by rw [array]; exact .element derives)
    rw [Parser.finish, o.add_eq ready.settled, List.append_assoc]
    exact .after due begun (List.cons_ne_nil _ _)
  | @member before read o outer key colon due ready object isString isColon =>
    have begun := ready.begun (by rw [object]; exact .member isString isColon derives)
    rw [Parser.finish, o.add_pending ready.settled, List.append_assoc, List.append_assoc]
    exact .after due begun (List.cons_ne_nil _ _)

theorem Open.closer_eq (o : Open) : o.closer = closerOf o.isObject := rfl

/-- A container closed is a value. -/
theorem Begun.close {read : List Token} {o : Open} {last : Token} (begun : Begun read o)
    (closes : last.kind = o.closer) : Derives (read ++ [last]) (.value (o.close last)) := by
  obtain ⟨⟨first, ts, rfl, opener, span, items⟩, _⟩ := begun
  rw [Open.close, ← span]
  exact .container opener closes items

/-! ### Every step keeps it -/

variable {read : List Token} {t : Token} {top : Open} {outer : List Open} {next : State}

theorem consumed_stepValue (due : Due read outer) (steps : stepValue outer t = .ok next) :
    Consumed (read ++ [t]) next := by
  have opening : ∀ isObject, t.kind = openerOf isObject →
      Begun [t] { isObject := isObject, opening := t.span } := fun isObject opener =>
    ⟨⟨t, [], rfl, opener, rfl, .none isObject⟩, rfl⟩
  unfold stepValue at steps
  -- A value begins with a bracket, which opens a container, or is done with one token.
  split at steps
  · next brace =>
    cases steps
    exact .first due (opening true brace) rfl
  · split at steps
    · next bracket =>
      cases steps
      exact .first due (opening false bracket) rfl
    · split at steps
      · next isScalar =>
        cases steps
        exact due.finish (.scalar isScalar)
      · cases steps

theorem consumed_stepKey {before : List Token} (due : Due before outer) (ready : Ready read top)
    (object : top.isObject = true) (steps : stepKey top outer t = .ok next) :
    Consumed (before ++ (read ++ [t])) next := by
  unfold stepKey at steps
  split at steps
  · next isString =>
    cases steps
    exact .colon due ready object isString
  · cases steps

/-- One token more has been read after a step. -/
theorem consumed_step {state : State} (consumed : Consumed read state)
    (steps : step state t = .ok next) : Consumed (read ++ [t]) next := by
  -- What may come next depends on what has been read; every other token is refused.
  cases consumed with
  | value due => exact consumed_stepValue due steps
  | @first before read top outer due begun noItems =>
    simp only [step] at steps
    split at steps
    · next closes =>
      cases steps
      rw [List.append_assoc]
      exact due.finish (begun.close closes)
    · split at steps
      · next object =>
        rw [List.append_assoc]
        exact consumed_stepKey due (.first begun noItems) object steps
      · next array =>
        exact consumed_stepValue
          (.element due (.first begun noItems) (Bool.not_eq_true _ ▸ array)) steps
  | @key before read top outer due ready object =>
    rw [List.append_assoc]
    exact consumed_stepKey due ready object steps
  | @colon before read top outer key due ready object isString =>
    simp only [step] at steps
    split at steps
    · next isColon =>
      cases steps
      have value := Consumed.value (.member due ready object isString isColon)
      simpa using value
    · cases steps
  | @after before read top outer due begun someItems =>
    simp only [step] at steps
    split at steps
    · next isComma =>
      cases steps
      have ready := Ready.more begun someItems isComma
      rw [List.append_assoc]
      cases object : top.isObject with
      | true => exact .key due ready object
      | false => exact .value (.element due ready object)
    · split at steps
      · next closes =>
        cases steps
        rw [List.append_assoc]
        exact due.finish (begun.close closes)
      · cases steps
  | @done read rest tree derives ends =>
    simp only [step] at steps
    split at steps
    · next isEnd =>
      cases steps
      rw [List.append_assoc]
      refine .done derives fun t' member => ?_
      rcases List.mem_append.1 member with earlier | last
      · exact ends t' earlier
      · exact List.mem_singleton.1 last ▸ isEnd
    · cases steps

/-- A run has read its tokens. -/
theorem consumed_run {state : State} {ts : List Token} (consumed : Consumed read state)
    (runs : run state ts = .ok next) : Consumed (read ++ ts) next := by
  induction ts generalizing read state with
  | nil =>
    cases runs
    simpa using consumed
  | cons t rest ih =>
    simp only [run] at runs
    split at runs
    · next state' steps =>
      have both := ih (consumed_step consumed steps) runs
      simpa using both
    · cases runs

/-- The tree of a run of tokens is one that the grammar derives from them. -/
theorem derives_of_treeOf {file : Json} {ts : List Token} {tree : ParseTree}
    (parsed : treeOf file ts = .ok tree) :
    ∃ read rest, ts = read ++ rest ∧ Derives read (.value tree) ∧ ∀ t ∈ rest, t.kind = .eof := by
  unfold treeOf at parsed
  split at parsed
  · next state runs =>
    cases parsed
    have consumed := consumed_run (.value .top) runs
    generalize whole : [] ++ ts = all at consumed
    cases consumed with
    | @done read rest _ derives ends => exact ⟨read, rest, whole, derives, ends⟩
  · cases parsed
  · cases parsed

/-- What is parsed follows the grammar's rules. -/
theorem regular_of_parse {text : String} {file : Json} {tree : ParseTree}
    (parsed : parse text file = .ok tree) : tree.Regular := by
  simp only [parse] at parsed
  split at parsed
  · cases parsed
  · obtain ⟨_, _, _, derives, _⟩ := derives_of_treeOf parsed
    exact derives.regular

end Parser

end DocSync
