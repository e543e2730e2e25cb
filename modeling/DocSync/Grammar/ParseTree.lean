import DocSync.Grammar.Token

/-!
Parse trees: rule instances with their children in source order, tokens at the leaves, and a span on
each. Punctuation is dropped; the spans keep it recoverable.
-/

namespace DocSync

/-- The rule a tree instance belongs to. A grammar of one's own may have rules unknown here. -/
inductive Rule where
  | object
  | array
  | pair
  | other (name : String)
  deriving DecidableEq, Repr, Inhabited

/-- The rule's name. -/
def Rule.name : Rule → String
  | object => "object"
  | array => "array"
  | pair => "pair"
  | other name => name

/-- The rule of a name. -/
def Rule.ofName (name : String) : Rule :=
  match name with
  | "object" => .object
  | "array" => .array
  | "pair" => .pair
  | _ => .other name

/-- A parse: a token, or an instance of a rule. -/
inductive ParseTree where
  | token (token : Token)
  | rule (rule : Rule) (children : List ParseTree) (span : Location)
  deriving Repr, Inhabited

namespace ParseTree

/-- The span of a tree. -/
def span : ParseTree → Location
  | token t => t.span
  | rule _ _ span => span

mutual
/-- The rule instances of a tree, each before those inside it, with their child counts. -/
def instances : ParseTree → List (Rule × Nat × Location)
  | token _ => []
  | rule r children span => (r, children.length, span) :: instancesAll children

/-- The rule instances of several trees. -/
def instancesAll : List ParseTree → List (Rule × Nat × Location)
  | [] => []
  | tree :: rest => instances tree ++ instancesAll rest
end

/-- A text on one line: line feeds become spaces. -/
def oneLine (text : List Char) : List Char := text.map fun c => if c = '\n' then ' ' else c

mutual
/-- One line per rule instance and token, indented by depth. -/
def outline (source : List Char) (depth : Nat) : ParseTree → List String
  | token t => [String.ofList (List.replicate (2 * depth) ' ') ++ t.kind.name ++ ":" ++ t.lexeme]
  | rule r children span =>
    (String.ofList (List.replicate (2 * depth) ' ') ++ r.name ++ ":[" ++ toString span.start ++
        "-" ++ toString span.stop ++ "]:" ++ String.ofList (oneLine (span.slice source))) ::
      outlineAll source (depth + 1) children

/-- The lines of several trees of one depth. -/
def outlineAll (source : List Char) (depth : Nat) : List ParseTree → List String
  | [] => []
  | tree :: rest => outline source depth tree ++ outlineAll source depth rest
end

/-- A listing of the tree with the text of every rule instance. -/
def listing (tree : ParseTree) (source : String) : String :=
  "\n".intercalate (tree.outline source.toList 0)

end ParseTree

end DocSync
