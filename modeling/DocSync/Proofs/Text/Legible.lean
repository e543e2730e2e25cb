import DocSync.Json.Writer
import Mathlib.Algebra.Ring.Nat
import Mathlib.Data.List.Basic

/-!
Values of texts are told by how they are written, under whatever indentation. Read from the front, each
part of the text shows where it ends, and what it is a part of.
-/

namespace DocSync.Text

/-- Digits of sixteen stand for different numbers. -/
theorem hexDigit_injective : ∀ a < 16, ∀ b < 16, hexDigit a = hexDigit b → a = b := by decide

/-- Numerals of one width stand for different numbers. -/
theorem hex_injective {width a b : Nat} (same : hex width a = hex width b) (fits : a < 16 ^ width)
    (fits' : b < 16 ^ width) : a = b := by
  induction width generalizing a b with
  | zero =>
    rw [Nat.pow_zero] at fits fits'
    omega
  | succ width ih =>
    obtain ⟨high, low⟩ := List.append_inj' same rfl
    rw [Nat.pow_succ] at fits fits'
    have front := ih high (by omega) (by omega)
    have last := hexDigit_injective _ (Nat.mod_lt a (by decide)) _ (Nat.mod_lt b (by decide))
      (List.cons.inj low).1
    omega

end DocSync.Text

namespace DocSync.Json

variable {c d : Char} {x y r r' text text' : List Char} {step : Option String} {margin : List Char}

/-! ### Texts in quotes -/

/-- The characters with an escape of their own, each with the mark behind its backslash. -/
def shortEscapes : List (Char × Char) :=
  [('"', '"'), ('\\', '\\'), ('\n', 'n'), ('\r', 'r'), ('\t', 't'), ('\x08', 'b'), ('\x0c', 'f')]

/-- The code of a character is no surrogate. -/
theorem code_valid (c : Char) : c.toNat < 0xD800 ∨ 0xDFFF < c.toNat ∧ c.toNat < 0x110000 := c.valid

/-- How a character is written between quotes. -/
inductive Escaped : Char → List Char → Prop
  | short {c mark : Char} : (c, mark) ∈ shortEscapes → Escaped c ['\\', mark]
  | plain {c : Char} : c ≠ '"' → c ≠ '\\' → Escaped c [c]
  | unit {c : Char} : c.toNat < 0x10000 → Escaped c (escapeUnit c.toNat)
  | pair {c : Char} : 0x10000 ≤ c.toNat →
    Escaped c (escapeUnit (0xD800 + (c.toNat - 0x10000) / 0x400) ++
      escapeUnit (0xDC00 + (c.toNat - 0x10000) % 0x400))

theorem escaped_escapeChar (c : Char) : Escaped c (escapeChar c) := by
  unfold escapeChar
  split
  · next same => rw [same]; exact .short (by decide)
  next notQuote =>
  split
  · next same => rw [same]; exact .short (by decide)
  next notEscape =>
  iterate 5
    split
    · next same => rw [same]; exact .short (by decide)
  split
  · exact .plain notQuote notEscape
  split
  · next small => exact .unit small
  · next large => exact .pair (Nat.not_lt.1 large)

/-- Of two numerals at the front of one text, each is the other. -/
theorem escapeUnit_cancel {a b : Nat} (small : a < 0x10000) (small' : b < 0x10000)
    (same : escapeUnit a ++ r = escapeUnit b ++ r') : a = b ∧ r = r' := by
  have numerals : Text.hex 4 a ++ r = Text.hex 4 b ++ r' := by simpa [escapeUnit] using same
  obtain ⟨front, behind⟩ := List.append_inj numerals (by simp only [Text.length_hex])
  exact ⟨Text.hex_injective front small small', behind⟩

/-- A character is known by how it is written, whatever comes behind it. -/
theorem Escaped.cancel (first : Escaped c x) (second : Escaped d y) (same : x ++ r = y ++ r') :
    c = d ∧ r = r' := by
  have unique : ∀ p ∈ shortEscapes, ∀ q ∈ shortEscapes, p.2 = q.2 → p.1 = q.1 := by decide
  have noUnit : ∀ p ∈ shortEscapes, p.2 ≠ 'u' := by decide
  -- A code unit is no surrogate, and a pair begins with one.
  have apart : ∀ {c d : Char} {r r' : List Char}, c.toNat < 0x10000 → 0x10000 ≤ d.toNat →
      escapeUnit c.toNat ++ r ≠ escapeUnit (0xD800 + (d.toNat - 0x10000) / 0x400) ++ r' := by
    intro c d r r' small large same
    have valid := code_valid c
    have bound := code_valid d
    have code := (escapeUnit_cancel small (by omega) same).1
    omega
  cases first with
  | short inside =>
    cases second with
    | short inside' =>
      obtain ⟨mark, behind⟩ : _ ∧ _ := by simpa using same
      exact ⟨unique _ inside _ inside' mark, behind⟩
    | plain _ notEscape => exact absurd (List.cons.inj same).1.symm notEscape
    | unit _ | pair _ => exact absurd (List.cons.inj (List.cons.inj same).2).1 (noUnit _ inside)
  | plain _ notEscape =>
    cases second with
    | plain _ _ => exact List.cons.inj same
    | short _ | unit _ | pair _ => exact absurd (List.cons.inj same).1 notEscape
  | unit small =>
    cases second with
    | short inside => exact absurd (List.cons.inj (List.cons.inj same).2).1.symm (noUnit _ inside)
    | plain _ notEscape => exact absurd (List.cons.inj same).1.symm notEscape
    | unit small' =>
      obtain ⟨code, behind⟩ := escapeUnit_cancel small small' same
      exact ⟨Char.toNat_inj.1 code, behind⟩
    | pair large =>
      rw [List.append_assoc] at same
      exact absurd same (apart small large)
  | pair large =>
    cases second with
    | short inside => exact absurd (List.cons.inj (List.cons.inj same).2).1.symm (noUnit _ inside)
    | plain _ notEscape => exact absurd (List.cons.inj same).1.symm notEscape
    | unit small =>
      rw [List.append_assoc] at same
      exact absurd same.symm (apart small large)
    | pair large' =>
      have bound := code_valid c
      have bound' := code_valid d
      rw [List.append_assoc, List.append_assoc] at same
      obtain ⟨high, same⟩ := escapeUnit_cancel (by omega) (by omega) same
      obtain ⟨low, behind⟩ := escapeUnit_cancel (by omega) (by omega) same
      exact ⟨Char.toNat_inj.1 (by omega), behind⟩

theorem Escaped.start (escaped : Escaped c x) : ∃ first tail, x = first :: tail ∧ first ≠ '"' := by
  cases escaped with
  | plain notQuote _ => exact ⟨_, _, rfl, notQuote⟩
  | short _ | unit _ | pair _ => exact ⟨'\\', _, rfl, by decide⟩

/-- What stands between quotes is known by how it is written. -/
theorem escaped_cancel (same : x.flatMap escapeChar ++ '"' :: r = y.flatMap escapeChar ++ '"' :: r') :
    x = y ∧ r = r' := by
  -- No character is written with a bare quote in front.
  have ended : ∀ {c : Char} {y r r' : List Char},
      '"' :: r ≠ (c :: y).flatMap escapeChar ++ '"' :: r' := by
    intro c y r r' same
    obtain ⟨first, tail, written, other⟩ := (escaped_escapeChar c).start
    rw [List.flatMap_cons, written] at same
    exact other (List.cons.inj same).1.symm
  induction x generalizing y with
  | nil =>
    cases y with
    | nil => exact ⟨rfl, (List.cons.inj same).2⟩
    | cons d y => exact absurd same ended
  | cons c x ih =>
    cases y with
    | nil => exact absurd same.symm ended
    | cons d y =>
      rw [List.flatMap_cons, List.flatMap_cons, List.append_assoc, List.append_assoc] at same
      obtain ⟨rfl, behind⟩ := (escaped_escapeChar c).cancel (escaped_escapeChar d) same
      obtain ⟨rfl, rest⟩ := ih behind
      exact ⟨rfl, rest⟩

theorem quote_cancel {s t : String} (same : (quote s).toList ++ r = (quote t).toList ++ r') :
    s = t ∧ r = r' := by
  simp only [quote, String.toList_ofList, List.cons_append, List.append_assoc, List.nil_append,
    List.cons.injEq, true_and] at same
  obtain ⟨inner, behind⟩ := escaped_cancel same
  exact ⟨String.toList_inj.1 inner, behind⟩

/-! ### Values written from front to back -/

/-- What stands between a bracket and the part of a value at a margin. -/
def gap (step : Option String) (margin : List Char) : List Char :=
  if step.isSome then '\n' :: margin else []

/-- What stands between two parts of a value at a margin. -/
def separator (step : Option String) (margin : List Char) : List Char :=
  ',' :: if step.isSome then '\n' :: margin else [' ']

/-- The margin of the parts of a value. -/
def deeper (step : Option String) (margin : List Char) : List Char := margin ++ (step.getD "").toList

/-- The parts of a value between its brackets. -/
def enclosed (step : Option String) (margin : List Char) (left right : Char) (parts : List (List Char)) :
    List Char :=
  if parts.isEmpty then [left, right]
  else left :: (gap step (deeper step margin) ++
    ((separator step (deeper step margin)).intercalate parts ++ (gap step margin ++ [right])))

mutual
/-- A value written from front to back, at a margin. -/
def flat (step : Option String) (margin : List Char) : Json → List Char
  | arr items => enclosed step margin '[' ']' (flatItems step (deeper step margin) items)
  | obj members => enclosed step margin '\x7b' '\x7d' (flatMembers step (deeper step margin) members)
  | value => (compact value).toList

/-- Several values, each written at a margin. -/
def flatItems (step : Option String) (margin : List Char) : List Json → List (List Char)
  | [] => []
  | item :: rest => flat step margin item :: flatItems step margin rest

/-- Several members, each written at a margin. -/
def flatMembers (step : Option String) (margin : List Char) : List (String × Json) → List (List Char)
  | [] => []
  | (name, value) :: rest =>
    ((quote name).toList ++ (':' :: ' ' :: flat step margin value)) :: flatMembers step margin rest
end

theorem flatItems_eq_map (items : List Json) :
    flatItems step margin items = items.map (flat step margin) := by
  induction items with
  | nil => rfl
  | cons item rest ih => rw [flatItems, ih, List.map_cons]

/-- A member, written at a margin. -/
def flatMember (step : Option String) (margin : List Char) (member : String × Json) : List Char :=
  (quote member.1).toList ++ (':' :: ' ' :: flat step margin member.2)

theorem flatMembers_eq_map (members : List (String × Json)) :
    flatMembers step margin members = members.map (flatMember step margin) := by
  induction members with
  | nil => rfl
  | cons member rest ih => rw [flatMembers, ih, List.map_cons, flatMember]

/-! ### On a single line -/

theorem enclosed_none (left right : Char) (parts : List (List Char)) :
    enclosed none margin left right parts = left :: ([',', ' '].intercalate parts ++ [right]) := by
  cases parts <;> simp [enclosed, gap, separator]

mutual
theorem toList_compact (margin : List Char) : ∀ value : Json,
    (compact value).toList = flat none margin value
  | arr items => by
    rw [flat, enclosed_none, compact, ← toList_compactItems]
    simp [String.toList_intercalate]
  | obj members => by
    rw [flat, enclosed_none, compact, ← toList_compactMembers]
    simp [String.toList_intercalate]
  | null | bool _ | int _ | float _ | str _ => by simp only [flat]

theorem toList_compactItems (margin : List Char) : ∀ items : List Json,
    (compactItems items).map String.toList = flatItems none margin items
  | [] => rfl
  | item :: rest => by
    rw [compactItems, flatItems, List.map_cons, toList_compact margin, toList_compactItems margin]

theorem toList_compactMembers (margin : List Char) : ∀ members : List (String × Json),
    (compactMembers members).map String.toList = flatMembers none margin members
  | [] => rfl
  | (name, value) :: rest => by
    rw [compactMembers, flatMembers, List.map_cons, toList_compactMembers margin,
      ← toList_compact margin value]
    simp
end

/-! ### On several lines -/

/-- Lines one below the other, all but the first behind a margin. -/
def block (margin : List Char) (lines : List String) : List Char :=
  ('\n' :: margin).intercalate (lines.map String.toList)

section Blocks

variable {line : String} {lines lines' : List String}

theorem block_cons (some_ : lines ≠ []) :
    block margin (line :: lines) = line.toList ++ ('\n' :: margin ++ block margin lines) := by
  obtain ⟨next, rest, rfl⟩ := List.exists_cons_of_ne_nil some_
  rw [block, List.map_cons, List.map_cons, List.intercalate_cons_cons, List.append_assoc]
  rfl

theorem block_append (some_ : lines ≠ []) (some' : lines' ≠ []) :
    block margin (lines ++ lines') = block margin lines ++ ('\n' :: margin ++ block margin lines') := by
  induction lines with
  | nil => exact absurd rfl some_
  | cons line rest ih =>
    by_cases last : rest = []
    · rw [last, List.singleton_append, block_cons some']
      simp [block]
    · rw [List.cons_append, block_cons (by simp [last]), ih last, block_cons last]
      simp

theorem block_openLines (lead : String) (some_ : lines ≠ []) :
    block margin (openLines lead lines) = lead.toList ++ block margin lines := by
  obtain ⟨first, rest, rfl⟩ := List.exists_cons_of_ne_nil some_
  cases rest <;> simp [openLines, block]

theorem block_closeLines (margin : List Char) (tail : String) (some_ : lines ≠ []) :
    block margin (closeLines tail lines) = block margin lines ++ tail.toList ∧
      closeLines tail lines ≠ [] := by
  induction lines with
  | nil => exact absurd rfl some_
  | cons line rest ih =>
    cases rest with
    | nil => simp [closeLines, block]
    | cons next rest =>
      obtain ⟨closed, still⟩ := ih (List.cons_ne_nil _ _)
      rw [closeLines, block_cons still, closed, block_cons (List.cons_ne_nil _ _)]
      · exact ⟨by simp, List.cons_ne_nil _ _⟩
      · simp

/-- Lines that are indented by a step are lines behind a deeper margin. -/
theorem block_map (step : String) (some_ : lines ≠ []) :
    block margin (lines.map (step ++ ·)) = step.toList ++ block (margin ++ step.toList) lines := by
  induction lines with
  | nil => exact absurd rfl some_
  | cons line rest ih =>
    by_cases last : rest = []
    · simp [last, block]
    · rw [List.map_cons, block_cons (by simpa using last), ih last, block_cons last]
      simp

/-- Blocks one below the other have a comma between them. -/
theorem block_joinBlocks (margin : List Char) {blocks : List (List String)}
    (each : ∀ lines ∈ blocks, lines ≠ []) :
    block margin (joinBlocks blocks) = (',' :: '\n' :: margin).intercalate (blocks.map (block margin)) ∧
      (blocks ≠ [] → joinBlocks blocks ≠ []) := by
  induction blocks with
  | nil => exact ⟨rfl, fun none => absurd rfl none⟩
  | cons lines rest ih =>
    rw [List.forall_mem_cons] at each
    cases rest with
    | nil => exact ⟨by simp [joinBlocks], fun _ => each.1⟩
    | cons next rest =>
      obtain ⟨joined, still⟩ := ih each.2
      obtain ⟨closed, more⟩ := block_closeLines margin "," each.1
      rw [joinBlocks, block_append more (still (List.cons_ne_nil _ _)), closed, joined]
      · exact ⟨by simp [List.intercalate_cons_cons], fun _ => by simp [more]⟩
      · simp

theorem block_bracketed (step : String) {left right : String} {l r : Char} (opens : left.toList = [l])
    (closes : right.toList = [r]) {blocks : List (List String)} (each : ∀ lines ∈ blocks, lines ≠ []) :
    block margin (bracketed step left right blocks) =
        enclosed (some step) margin l r (blocks.map (block (deeper (some step) margin))) ∧
      bracketed step left right blocks ≠ [] := by
  unfold bracketed enclosed
  cases blocks with
  | nil => simp [block, opens, closes]
  | cons lines rest =>
    obtain ⟨joined, still⟩ := block_joinBlocks (deeper (some step) margin) each
    have some_ := still (List.cons_ne_nil _ _)
    have inner : ((joinBlocks (lines :: rest)).map (step ++ ·)) ≠ [] := by simpa using some_
    refine ⟨?_, by simp⟩
    rw [if_neg (by simp), if_neg (by simp), block_append (List.cons_ne_nil _ _) (List.cons_ne_nil _ _),
      block_cons inner, block_map step some_,
      show margin ++ step.toList = deeper (some step) margin from rfl, joined]
    simp [block, opens, closes, gap, separator, deeper]

end Blocks

mutual
theorem block_lines (step : String) : ∀ (value : Json) (margin : List Char),
    block margin (lines step value) = flat (some step) margin value ∧ lines step value ≠ []
  | arr items, margin => by
    obtain ⟨written, each⟩ := block_itemLines step items (deeper (some step) margin)
    rw [flat, ← written]
    exact block_bracketed step rfl rfl each
  | obj members, margin => by
    obtain ⟨written, each⟩ := block_memberLines step members (deeper (some step) margin)
    rw [flat, ← written]
    exact block_bracketed step rfl rfl each
  | null, margin | bool _, margin | int _, margin | float _, margin | str _, margin => by
    simp [lines, flat, block]

theorem block_itemLines (step : String) : ∀ (items : List Json) (margin : List Char),
    (itemLines step items).map (block margin) = flatItems (some step) margin items ∧
      ∀ block ∈ itemLines step items, block ≠ []
  | [], _ => ⟨rfl, fun _ inside => nomatch inside⟩
  | item :: rest, margin => by
    obtain ⟨written, some_⟩ := block_lines step item margin
    obtain ⟨others, each⟩ := block_itemLines step rest margin
    rw [itemLines, flatItems, List.map_cons, written, others]
    exact ⟨rfl, List.forall_mem_cons.2 ⟨some_, each⟩⟩

theorem block_memberLines (step : String) : ∀ (members : List (String × Json)) (margin : List Char),
    (memberLines step members).map (block margin) = flatMembers (some step) margin members ∧
      ∀ block ∈ memberLines step members, block ≠ []
  | [], _ => ⟨rfl, fun _ inside => nomatch inside⟩
  | (name, value) :: rest, margin => by
    obtain ⟨written, some_⟩ := block_lines step value margin
    obtain ⟨others, each⟩ := block_memberLines step rest margin
    have opened : openLines (quote name ++ ": ") (lines step value) ≠ [] := by
      cases lines step value <;> simp [openLines]
    rw [memberLines, flatMembers, List.map_cons, block_openLines _ some_, written, others]
    exact ⟨by simp, List.forall_mem_cons.2 ⟨opened, each⟩⟩
end

/-- A value is written from front to back, whatever the indentation. -/
theorem toList_write (indent : Option Indent) (value : Json) :
    (value.write indent).toList = flat (indent.map Indent.step) [] value := by
  rw [write, String.toList_intercalate]
  cases indent with
  | none =>
    rw [linesWith, List.map_singleton, List.intercalate_singleton, toList_compact]
    rfl
  | some indent => exact (block_lines indent.step value []).1

/-! ### Values of texts -/

/-- A value of texts: there is no number and no truth value in it. -/
inductive Worded : Json → Prop
  | null : Worded null
  | str (text : String) : Worded (str text)
  | arr {items : List Json} : (∀ value ∈ items, Worded value) → Worded (arr items)
  | obj {members : List (String × Json)} : (∀ member ∈ members, Worded member.2) →
    Worded (obj members)

/-- Parts that are known by how they are written are known in a row with a comma between each two. -/
theorem row_cancel {α : Type} {f : α → List Char} {as bs : List α} {between : List Char}
    (each : ∀ a ∈ as, ∀ b ∈ bs, ∀ {r r'}, f a ++ r = f b ++ r' → a = b ∧ r = r')
    (some_ : as ≠ []) (some' : bs ≠ []) (ends : r.head? ≠ some ',') (ends' : r'.head? ≠ some ',')
    (same : (',' :: between).intercalate (as.map f) ++ r = (',' :: between).intercalate (bs.map f) ++ r') :
    as = bs ∧ r = r' := by
  induction as generalizing bs with
  | nil => exact absurd rfl some_
  | cons a as ih =>
    obtain ⟨b, bs, rfl⟩ := List.exists_cons_of_ne_nil some'
    have first {r r'} := @each a List.mem_cons_self b List.mem_cons_self r r'
    cases as with
    | nil =>
      cases bs with
      | nil =>
        obtain ⟨rfl, behind⟩ := first (by simpa using same)
        exact ⟨rfl, behind⟩
      | cons b' bs =>
        -- One side ends where the other one goes on with a comma.
        rw [List.map_cons, List.map_cons, List.map_cons, List.intercalate_cons_cons] at same
        obtain ⟨-, behind⟩ := first (by simpa using same)
        rw [behind] at ends
        exact absurd rfl ends
    | cons a' as =>
      cases bs with
      | nil =>
        rw [List.map_cons, List.map_cons, List.map_cons, List.intercalate_cons_cons] at same
        obtain ⟨-, behind⟩ := first (by simpa using same)
        rw [← behind] at ends'
        exact absurd rfl ends'
      | cons b' bs =>
        simp only [List.map_cons, List.intercalate_cons_cons, List.append_assoc] at same
        obtain ⟨rfl, behind⟩ := first same
        have others := fun x (inside : x ∈ a' :: as) y (inside' : y ∈ b' :: bs) {r r'} =>
          @each x (List.mem_cons_of_mem _ inside) y (List.mem_cons_of_mem _ inside') r r'
        obtain ⟨rest, behind⟩ := ih others (List.cons_ne_nil _ _) (List.cons_ne_nil _ _)
          (List.append_cancel_left behind)
        exact ⟨by rw [rest], behind⟩

/-- So they are between brackets, if no part begins as the brackets end. -/
theorem enclosed_cancel {α : Type} {f : α → List Char} {as bs : List α} {left right : Char}
    (each : ∀ a ∈ as, ∀ b ∈ bs, ∀ {r r'}, f a ++ r = f b ++ r' → a = b ∧ r = r')
    (starts : ∀ a ∈ as, ∃ c tail, f a = c :: tail ∧ c ≠ right)
    (starts' : ∀ b ∈ bs, ∃ c tail, f b = c :: tail ∧ c ≠ right) (noComma : right ≠ ',')
    (noEnd : right ≠ '\n')
    (same : enclosed step margin left right (as.map f) ++ r =
      enclosed step margin left right (bs.map f) ++ r') : as = bs ∧ r = r' := by
  -- Empty brackets close at once.
  have apart : ∀ {b : α} {bs : List α} {r r' : List Char}, (∃ c tail, f b = c :: tail ∧ c ≠ right) →
      enclosed step margin left right [] ++ r ≠
        enclosed step margin left right ((b :: bs).map f) ++ r' := by
    rintro b bs r r' ⟨c, tail, written, other⟩ same
    cases step with
    | some step =>
      simp only [enclosed, gap, List.isEmpty_nil, List.map_cons, List.isEmpty_cons, if_true,
        Bool.false_eq_true, if_false, Option.isSome_some, List.cons_append, List.cons.injEq] at same
      exact noEnd same.2.1
    | none =>
      cases bs <;> simp [enclosed, gap, written, List.intercalate_cons_cons, Ne.symm other] at same
  -- Behind the last part stands the end of the brackets.
  have ends : ∀ r : List Char, (gap step margin ++ ([right] ++ r)).head? ≠ some ',' := by
    intro r
    cases step <;> simp [gap, noComma]
  cases as with
  | nil =>
    cases bs with
    | nil => exact ⟨rfl, List.append_cancel_left same⟩
    | cons b bs => exact absurd same (apart (starts' b List.mem_cons_self))
  | cons a as =>
    cases bs with
    | nil => exact absurd same.symm (apart (starts a List.mem_cons_self))
    | cons b bs =>
      rw [enclosed, enclosed, if_neg (by simp), if_neg (by simp)] at same
      simp only [List.cons_append, List.append_assoc, List.cons.injEq, true_and] at same
      obtain ⟨all, behind⟩ := row_cancel each (List.cons_ne_nil _ _) (List.cons_ne_nil _ _) (ends r)
        (ends r') (List.append_cancel_left same)
      exact ⟨all, List.append_cancel_left (List.append_cancel_left behind)⟩

/-- The character a value of texts begins with. -/
def opening : Json → Char
  | arr _ => '['
  | obj _ => '\x7b'
  | str _ => '"'
  | _ => 'n'

theorem quote_start (text : String) : ∃ tail, (quote text).toList = '"' :: tail :=
  ⟨_, String.toList_ofList⟩

theorem flat_str (text : String) : flat step margin (str text) = (quote text).toList := by
  simp [flat, compact]

theorem enclosed_start (left right : Char) (parts : List (List Char)) :
    ∃ tail, enclosed step margin left right parts = left :: tail := by
  unfold enclosed
  split
  · exact ⟨_, rfl⟩
  · exact ⟨_, rfl⟩

theorem Worded.start {value : Json} (worded : Worded value) (step : Option String) (margin : List Char) :
    ∃ tail, flat step margin value = opening value :: tail := by
  cases worded with
  | null => exact ⟨['u', 'l', 'l'], by simp [flat, compact, opening]⟩
  | str text => rw [flat_str]; exact quote_start text
  | arr _ => rw [flat]; exact enclosed_start _ _ _
  | obj _ => rw [flat]; exact enclosed_start _ _ _

/-- Values that begin differently are not written alike. -/
theorem Worded.opening_eq {value other : Json} (worded : Worded value) (worded' : Worded other)
    (same : flat step margin value ++ r = flat step margin other ++ r') :
    opening value = opening other := by
  obtain ⟨tail, written⟩ := worded.start step margin
  obtain ⟨tail', written'⟩ := worded'.start step margin
  rw [written, written'] at same
  exact (List.cons.inj same).1

/-- A value of texts is known by how it is written, whatever comes behind it. -/
theorem Worded.cancel {value other : Json} (worded : Worded value) (worded' : Worded other)
    (same : flat step margin value ++ r = flat step margin other ++ r') : value = other ∧ r = r' := by
  have begins := worded.opening_eq worded' same
  -- The first character tells which case the other value is.
  induction worded generalizing other margin r r' with
  | null =>
    cases worded' with
    | null => exact ⟨rfl, List.append_cancel_left same⟩
    | str _ | arr _ | obj _ => exact absurd begins (by simp [opening])
  | str text =>
    cases worded' with
    | str text' =>
      rw [flat_str, flat_str] at same
      obtain ⟨rfl, behind⟩ := quote_cancel same
      exact ⟨rfl, behind⟩
    | null | arr _ | obj _ => exact absurd begins (by simp [opening])
  | @arr items each ih =>
    cases worded' with
    | @arr items' each' =>
      rw [flat, flat, flatItems_eq_map, flatItems_eq_map] at same
      have starts : ∀ {items : List Json}, (∀ value ∈ items, Worded value) → ∀ value ∈ items,
          ∃ c tail, flat step (deeper step margin) value = c :: tail ∧ c ≠ ']' := by
        intro items each value inside
        obtain ⟨tail, written⟩ := (each value inside).start step (deeper step margin)
        refine ⟨_, tail, written, ?_⟩
        unfold opening
        split <;> decide
      obtain ⟨rfl, behind⟩ := enclosed_cancel
        (fun a inside b inside' {r r'} same =>
          ih a inside (each' b inside') same ((each a inside).opening_eq (each' b inside') same))
        (starts each) (starts each') (by decide) (by decide) same
      exact ⟨rfl, behind⟩
    | null | str _ | obj _ => exact absurd begins (by simp [opening])
  | @obj members each ih =>
    cases worded' with
    | @obj members' each' =>
      rw [flat, flat, flatMembers_eq_map, flatMembers_eq_map] at same
      have starts : ∀ (members : List (String × Json)), ∀ member ∈ members,
          ∃ c tail, flatMember step (deeper step margin) member = c :: tail ∧ c ≠ '\x7d' := by
        intro members member inside
        obtain ⟨tail, written⟩ := quote_start member.1
        exact ⟨'"', _, by rw [flatMember, written]; rfl, by decide⟩
      obtain ⟨rfl, behind⟩ := enclosed_cancel (fun a inside b inside' {r r'} same => by
          rw [flatMember, flatMember, List.append_assoc, List.append_assoc] at same
          obtain ⟨name, same⟩ := quote_cancel same
          have values := (List.cons.inj (List.cons.inj same).2).2
          obtain ⟨value, behind⟩ := ih a inside (each' b inside') values
            ((each a inside).opening_eq (each' b inside') values)
          exact ⟨Prod.ext name value, behind⟩)
        (starts members) (starts members') (by decide) (by decide) same
      exact ⟨rfl, behind⟩
    | null | str _ | arr _ => exact absurd begins (by simp [opening])

/-- Values of texts that are written alike under an indentation are the same. -/
theorem Worded.eq_of_write {value other : Json} {indent : Option Indent} (worded : Worded value)
    (worded' : Worded other) (same : value.write indent = other.write indent) : value = other := by
  have written := congrArg String.toList same
  rw [toList_write, toList_write] at written
  exact (worded.cancel worded' (r := []) (by rw [List.append_nil, written, List.append_nil])).1

end DocSync.Json
