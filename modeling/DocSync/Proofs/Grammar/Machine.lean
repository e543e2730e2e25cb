import DocSync.Proofs.Grammar.Derivation

/-!
The machine reads whatever the grammar derives. From where a value is due it comes to where that value
is finished, and a container takes in one item after the other until its closing bracket.
-/

namespace DocSync.Parser

variable {ts rest : List Token} {t : Token} {tree : ParseTree} {state next : State}
  {top : Open} {outer : List Open} {isObject : Bool}

theorem run_cons (steps : step state t = .ok next) : run state (t :: rest) = run next rest := by
  rw [run, steps]

/-- The first token closes nothing. -/
def Starts (ts : List Token) : Prop :=
  ∃ t later, ts = t :: later ∧ ∀ isObject, t.kind ≠ closerOf isObject

theorem Starts.append (starts : Starts ts) (rest : List Token) : Starts (ts ++ rest) := by
  obtain ⟨t, later, rfl, opens⟩ := starts
  exact ⟨t, later ++ rest, rfl, opens⟩

/-- What the machine waits for where an item is due. -/
def awaiting (top : Open) (outer : List Open) : State :=
  if top.isObject then .key top outer else .value (top :: outer)

/-- Tokens take the machine from where a reading is due to behind it. -/
def Read (ts : List Token) : Reading → Prop
  | .value tree => Starts ts ∧ ∀ outer rest,
    run (.value outer) (ts ++ rest) = run (finish tree outer) rest
  | .item isObject tree => Starts ts ∧ ∀ top outer rest, top.isObject = isObject →
    top.pending = none → run (awaiting top outer) (ts ++ rest) =
      run (.after { top with children := tree :: top.children } outer) rest
  | .items isObject latest => latest ≠ [] → Starts ts ∧ ∀ opening outer rest,
    run (.first { isObject := isObject, opening := opening } outer) (ts ++ rest) =
      run (.after { isObject := isObject, opening := opening, children := latest } outer) rest

/-- A first item is awaited just as a later one, but for the bracket that closes the container. -/
theorem run_first (starts : Starts ts) :
    run (.first top outer) ts = run (awaiting top outer) ts := by
  obtain ⟨t, later, rfl, opens⟩ := starts
  have notClosed : t.kind ≠ top.closer := opens top.isObject
  have same : step (.first top outer) t = step (awaiting top outer) t := by
    simp only [step, if_neg notClosed, awaiting]
    cases top.isObject <;> rfl
  rw [run, run, same]

/-- An opening bracket leads into its container. -/
theorem run_opening (opener : t.kind = openerOf isObject) :
    run (.value outer) (t :: rest) =
      run (.first { isObject := isObject, opening := t.span } outer) rest := by
  refine run_cons ?_
  cases isObject <;> simp [step, stepValue, opener, openerOf]

/-- A closing bracket leads out of a container that holds an item. -/
theorem run_closing (closer : t.kind = top.closer) :
    run (.after top outer) (t :: rest) = run (finish (top.close t) outer) rest := by
  refine run_cons ?_
  have noComma : t.kind ≠ .comma := by
    rw [closer, Open.closer_eq, closerOf]
    split <;> decide
  simp only [step, if_neg noComma, if_pos closer]

theorem read_of_derives {reading : Reading} (derives : Derives ts reading) : Read ts reading := by
  induction derives with
  | @scalar t isScalar =>
    have opens : ∀ isObject, t.kind ≠ closerOf isObject := by
      intro isObject same
      rw [same] at isScalar
      cases isObject <;> cases isScalar
    refine ⟨⟨t, [], rfl, opens⟩, fun outer rest => run_cons ?_⟩
    have noBrace : t.kind ≠ .lbrace := fun same => by rw [same] at isScalar; cases isScalar
    have noBracket : t.kind ≠ .lbracket := fun same => by rw [same] at isScalar; cases isScalar
    simp only [step, stepValue, if_neg noBrace, if_neg noBracket, isScalar, if_true]
  | @container first last isObject ts latest opener closer _ ih =>
    have opens : ∀ isObject, first.kind ≠ closerOf isObject := by
      intro other
      rw [opener]
      cases isObject <;> cases other <;> decide
    refine ⟨⟨first, ts ++ [last], rfl, opens⟩, fun outer rest => ?_⟩
    rw [List.cons_append, List.append_assoc, run_opening opener, List.singleton_append]
    by_cases none : latest = []
    · -- Without items the bracket that closes comes at once.
      subst none
      rename_i items
      cases items
      refine run_cons ?_
      have closes : last.kind = Open.closer { isObject := isObject, opening := first.span } := closer
      simp only [step, if_pos closes]
      rfl
    · obtain ⟨_, runs⟩ := ih none
      rw [runs, run_closing closer]
      rfl
  | element _ ih =>
    obtain ⟨starts, runs⟩ := ih
    refine ⟨starts, fun top outer rest array settled => ?_⟩
    have due : awaiting top outer = .value (top :: outer) := by simp [awaiting, array]
    rw [due, runs, finish, top.add_eq settled]
  | @member key colon ts tree isString isColon _ ih =>
    obtain ⟨_, runs⟩ := ih
    have opens : ∀ isObject, key.kind ≠ closerOf isObject := by
      intro isObject
      rw [isString]
      cases isObject <;> decide
    refine ⟨⟨key, colon :: ts, rfl, opens⟩, fun top outer rest object settled => ?_⟩
    have keyed : step (awaiting top outer) key =
        .ok (.colon { top with pending := some key } outer) := by
      simp only [awaiting, object, if_true, step, stepKey, isString]
    have parted : step (.colon { top with pending := some key } outer) colon =
        .ok (.value ({ top with pending := some key } :: outer)) := by
      simp only [step, isColon, if_true]
    rw [List.cons_append, List.cons_append, run_cons keyed, run_cons parted, runs, finish,
      top.add_pending settled]
  | none isObject => exact fun some_ => absurd rfl some_
  | first _ ih =>
    obtain ⟨starts, runs⟩ := ih
    refine fun _ => ⟨starts, fun opening outer rest => ?_⟩
    rw [run_first (starts.append rest), runs _ outer rest rfl rfl]
  | @more isObject comma before ts tree latest earlier _ isComma _ ih ih' =>
    obtain ⟨starts, runs⟩ := ih (List.cons_ne_nil _ _)
    obtain ⟨_, runs'⟩ := ih'
    refine fun _ => ⟨starts.append _, fun opening outer rest => ?_⟩
    -- The comma leads from behind the items so far to where the next one is due.
    have onward : ∀ top : Open, step (.after top outer) comma = .ok (awaiting top outer) := by
      intro top
      simp only [step, isComma, if_true, awaiting]
    rw [List.append_assoc, runs, List.cons_append, run_cons (onward _), runs' _ outer rest rfl rfl]

/-- Tokens that a tree is derived from are parsed as that tree. -/
theorem treeOf_of_derives {file : Json} {last : Token} (derives : Derives ts (.value tree))
    (isEnd : last.kind = .eof) : treeOf file (ts ++ [last]) = .ok tree := by
  have whole := (read_of_derives derives).2 [] [last]
  have ended : step (.done tree) last = .ok (.done tree) := by simp [step, isEnd]
  rw [treeOf, whole, finish, run_cons ended]
  rfl

end DocSync.Parser
