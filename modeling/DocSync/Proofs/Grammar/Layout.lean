import DocSync.Proofs.Grammar.Phrase

/-!
Parse trees laid out in a text: each stands in a stretch of the text that its span covers, and a
container's stretch is its children's with a bracket on either side and commas between them.
-/

namespace DocSync

open Lexer (Blanks Cursor Lexeme)

/-- A pair is the item of an object; whatever else is a value is the item of an array. -/
def ParseTree.isPair : ParseTree → Bool
  | .rule .pair _ _ => true
  | _ => false

/-- A child in the text of a container: what lies before it, what is its own, and its tree. -/
structure Cell where
  gap : List Char
  text : List Char
  tree : ParseTree

/-- The text of a row of children. -/
def rowText (row : List Cell) : List Char := row.flatMap fun cell => cell.gap ++ cell.text

/-- The children of a row, each with the position where its own text starts. -/
def placed (at_ : Nat) : List Cell → List (Nat × Cell)
  | [] => []
  | cell :: rest =>
    (at_ + cell.gap.length, cell) :: placed (at_ + cell.gap.length + cell.text.length) rest

/-- A tree stands in a text, which starts at a position. -/
inductive Laid : Nat → List Char → ParseTree → Prop
  | token {at_ : Nat} {text : List Char} {t : Token} :
    Lexeme t.kind text → t.kind.isScalar = true → t.lexeme = String.ofList text →
      t.span.start = at_ → t.span.stop = (at_ + text.length : Nat) → Laid at_ text (.token t)
  | empty {at_ : Nat} {isObject : Bool} {blank : List Char} {span : Location} :
    Blanks blank → span.start = at_ → span.stop = (at_ + (blank.length + 2) : Nat) →
      Laid at_ (openMark isObject :: (blank ++ [closeMark isObject]))
        (.rule (ruleOf isObject) [] span)
  | container {at_ : Nat} {isObject : Bool} {blank text closing : List Char} {tree : ParseTree}
    {rest : List Cell} {span : Location} :
    Blanks blank → (∀ cell ∈ rest, Gap ',' cell.gap) → Blanks closing →
      tree.isPair = isObject → (∀ cell ∈ rest, cell.tree.isPair = isObject) →
      span.start = at_ →
      span.stop = (at_ + (rowText (⟨openMark isObject :: blank, text, tree⟩ :: rest)).length +
        (closing.length + 1) : Nat) →
      (∀ p ∈ placed at_ (⟨openMark isObject :: blank, text, tree⟩ :: rest),
        Laid p.1 p.2.text p.2.tree) →
      Laid at_
        (rowText (⟨openMark isObject :: blank, text, tree⟩ :: rest) ++
          (closing ++ [closeMark isObject]))
        (.rule (ruleOf isObject) (tree :: rest.map Cell.tree) span)
  | pair {at_ : Nat} {keyText gap text : List Char} {key : Token} {tree : ParseTree}
    {span : Location} :
    Laid at_ keyText (.token key) → key.kind = .string → Gap ':' gap → tree.isPair = false →
      Laid (at_ + keyText.length + gap.length) text tree → span.start = at_ →
      span.stop = (at_ + keyText.length + gap.length + text.length : Nat) →
      Laid at_ (keyText ++ (gap ++ text)) (.rule .pair [.token key, tree] span)

namespace Laid

variable {at_ : Nat} {text : List Char} {tree : ParseTree}

/-- The span of a tree covers the text it stands in. -/
theorem span (laid : Laid at_ text tree) :
    tree.span.start = at_ ∧ tree.span.stop = (at_ + text.length : Nat) := by
  cases laid with
  | token _ _ _ start stop => exact ⟨start, stop⟩
  | empty _ start stop =>
    exact ⟨start, by rw [ParseTree.span, stop]; simp; omega⟩
  | container _ _ _ _ _ start stop _ =>
    exact ⟨start, by rw [ParseTree.span, stop]; simp; omega⟩
  | pair _ _ _ _ _ start stop =>
    exact ⟨start, by rw [ParseTree.span, stop]; simp; omega⟩

/-- A tree's text is not empty. -/
theorem text_ne_nil (laid : Laid at_ text tree) : text ≠ [] := by
  cases laid with
  | token lexeme _ _ _ _ =>
    obtain ⟨c, tail, rfl, _⟩ := lexeme
    exact List.cons_ne_nil _ _
  | empty _ _ _ => exact List.cons_ne_nil _ _
  | container _ _ _ _ _ _ _ _ => simp
  | pair _ _ gap _ _ _ _ =>
    obtain ⟨before, after, rfl, _⟩ := gap
    simp

end Laid

/-! ### From the grammar to the layout -/

theorem placed_append (at_ : Nat) (row row' : List Cell) :
    placed at_ (row ++ row') = placed at_ row ++ placed (at_ + (rowText row).length) row' := by
  induction row generalizing at_ with
  | nil => rfl
  | cons cell rest ih =>
    have total : at_ + cell.gap.length + cell.text.length + (rowText rest).length =
        at_ + (rowText (cell :: rest)).length := by
      simp [rowText]
      omega
    rw [List.cons_append, placed, placed, ih, total, List.cons_append]

theorem exists_placed {cell : Cell} {row : List Cell} (member : cell ∈ row) (at_ : Nat) :
    ∃ start, (start, cell) ∈ placed at_ row := by
  induction row generalizing at_ with
  | nil => cases member
  | cons first rest ih =>
    rcases List.mem_cons.1 member with rfl | later
    · exact ⟨_, List.mem_cons_self⟩
    · obtain ⟨start, inside⟩ := ih later (at_ + first.gap.length + first.text.length)
      exact ⟨start, List.mem_cons_of_mem _ inside⟩

/-- What a text is read as is laid out in it. -/
def Reading.LaidOut (at_ : Nat) (cs : List Char) : Reading → Prop
  | .value tree => Laid at_ cs tree ∧ tree.isPair = false
  | .item isObject tree => Laid at_ cs tree ∧ tree.isPair = isObject
  | .items isObject latest => (latest = [] ∧ cs = []) ∨ ∃ blank text tree rest,
    latest.reverse = tree :: rest.map Cell.tree ∧ cs = rowText (⟨blank, text, tree⟩ :: rest) ∧
      Blanks blank ∧ (∀ cell ∈ rest, Gap ',' cell.gap) ∧ tree.isPair = isObject ∧
      (∀ cell ∈ rest, cell.tree.isPair = isObject) ∧
      ∀ p ∈ placed at_ (⟨blank, text, tree⟩ :: rest), Laid p.1 p.2.text p.2.tree

/-- A text of the grammar has laid out in it what it is read as. -/
theorem Phrase.laidOut {file : Json} {pos : Cursor} {cs : List Char} {reading : Reading}
    (phrase : Phrase file pos cs reading) : reading.LaidOut pos.offset cs := by
  have ends (pos : Cursor) (text : List Char) :
      (extent file pos text).stop = (pos.offset + text.length : Nat) := by
    rw [extent, Lexer.Cursor.offset_advance]
  induction phrase with
  | @scalar pos kind text isScalar spelling =>
    exact ⟨.token (Lexer.lexeme_of_spelling spelling) isScalar rfl rfl (ends pos text), rfl⟩
  | @container pos isObject inner closing text latest _ blanks shape ih =>
    have isValue : (ParseTree.rule (ruleOf isObject) latest.reverse (extent file pos text)).isPair =
        false := by
      cases isObject <;> rfl
    refine ⟨?_, isValue⟩
    have stop := ends pos text
    rw [Lexer.Cursor.offset_advance, List.length_singleton] at ih
    rcases ih with ⟨rfl, rfl⟩ |
      ⟨space, text₀, tree, row, trees, rfl, spaces, gaps, isItem, areItems, laid⟩
    · subst shape
      refine .empty blanks rfl ?_
      rw [stop]
      simp [Int.add_assoc]
    · -- The opening bracket belongs to what lies before the first item.
      have whole : text = rowText (⟨openMark isObject :: space, text₀, tree⟩ :: row) ++
          (closing ++ [closeMark isObject]) := by
        rw [shape]
        simp [rowText]
      subst whole
      rw [trees]
      refine .container spaces gaps blanks isItem areItems rfl ?_ ?_
      · rw [stop]
        simp only [List.length_append, List.length_singleton, Nat.add_assoc]
      · have here : pos.offset + 1 + space.length =
            pos.offset + (openMark isObject :: space).length := by
          rw [List.length_cons]
          omega
        rw [placed, List.forall_mem_cons, here] at laid
        exact List.forall_mem_cons.2 laid
  | element _ ih => exact ih
  | @member pos key gap value text tree spelling isGap phrase shape ih =>
    obtain ⟨laid, notPair⟩ := ih
    have stop := ends pos text
    rw [Lexer.Cursor.offset_advance, List.length_append, ← Nat.add_assoc] at laid
    subst shape
    refine ⟨.pair (.token (Lexer.lexeme_of_spelling spelling) rfl rfl rfl (ends pos key)) rfl isGap
      notPair laid rfl ?_, rfl⟩
    rw [stop]
    simp only [List.length_append, Nat.add_assoc]
  | none pos isObject => exact .inl ⟨rfl, rfl⟩
  | @first pos isObject blank text tree blanks _ ih =>
    rw [Lexer.Cursor.offset_advance] at ih
    refine .inr ⟨blank, text, tree, [], rfl, by simp [rowText], blanks, by simp, ih.2, by simp, ?_⟩
    simpa [placed] using ih.1
  | @more pos isObject before gap text tree latest earlier _ isGap _ ih ih' =>
    rw [Lexer.Cursor.offset_advance] at ih'
    obtain ⟨laid, isItem⟩ := ih'
    rcases ih with ⟨nothing, _⟩ |
      ⟨blank, text₀, tree₀, row, trees, rfl, blanks, gaps, isItem₀, areItems, laidRow⟩
    · cases nothing
    · refine .inr ⟨blank, text₀, tree₀, row ++ [⟨gap, text, tree⟩], ?_, ?_, blanks, ?_, isItem₀, ?_, ?_⟩
      · rw [List.reverse_cons, trees]
        simp
      · simp [rowText]
      · simp only [List.forall_mem_append, List.forall_mem_singleton]
        exact ⟨gaps, isGap⟩
      · simp only [List.forall_mem_append, List.forall_mem_singleton]
        exact ⟨areItems, isItem⟩
      · rw [← List.cons_append, placed_append]
        simp only [List.forall_mem_append, placed, List.forall_mem_singleton]
        refine ⟨laidRow, ?_⟩
        rwa [List.length_append, ← Nat.add_assoc] at laid

/-- A text that is parsed has its tree laid out in it, with blanks on either side. -/
theorem Parser.laid_of_parse {text : String} {file : Json} {tree : ParseTree}
    (parsed : parse text file = .ok tree) :
    ∃ leading body trailing, text.toList = leading ++ (body ++ trailing) ∧ Blanks leading ∧
      Blanks trailing ∧ Laid leading.length body tree ∧ tree.isPair = false := by
  obtain ⟨leading, body, trailing, split, blanks, blanks', phrase⟩ := document_of_parse parsed
  obtain ⟨laid, notPair⟩ := phrase.laidOut
  rw [Lexer.Cursor.offset_advance, Nat.zero_add] at laid
  exact ⟨leading, body, trailing, split, blanks, blanks', laid, notPair⟩

end DocSync
