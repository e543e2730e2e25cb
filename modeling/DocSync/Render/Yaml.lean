import DocSync.Render.Source

/-!
A model written as block-style YAML. Stored frames play no part: objects become block mappings,
arrays block sequences, both indented by two spaces a level, and what is empty stays on its line.
-/

namespace DocSync

namespace Yaml

/-- How far each level is indented. -/
def step : Nat := 2

/-- A run of spaces. -/
def spaces (width : Nat) : String := String.ofList (List.replicate width ' ')

/-- What a container without children looks like; the other kinds are no containers. -/
def empty? (kind : Kind) : Option String :=
  kind.brackets?.map fun brackets => brackets.1 ++ brackets.2

variable (m : Model)

mutual
/-- The lines of a tree. The first one opens with `lead`, the others are indented by `indent`. -/
def lines (indent : Nat) (lead : String) : Tree Key → Except RenderError (List String)
  | .node k children =>
    let node := m.node k
    match node.kind with
    | .scalar => return [lead ++ (← node.scalarText)]
    | .pair =>
      match node.fields.get? keyField with
      | none => throw (.pairWithoutKey node.id)
      | some key => valueLines node indent (lead ++ key ++ ":") children
    -- A mapping needs no mark, for its keys show where each member starts.
    | .object =>
      if children.isEmpty then return [lead ++ (empty? .object).getD ""]
      else chainLines indent "" lead children
    | .array =>
      if children.isEmpty then return [lead ++ (empty? .array).getD ""]
      else chainLines indent "- " lead children

/-- The lines of a pair whose key is already written. Only the head of the value's chain can be
shown. -/
def valueLines (pair : Node) (indent : Nat) (opened : String) :
    List (Tree Key) → Except RenderError (List String)
  | [] =>
    match pair.fields.get? valueName with
    | none => throw (.pairWithoutValue pair.id)
    | some value => return [opened ++ " " ++ value]
  | head :: _ =>
    let value := m.node head.label
    match value.kind with
    | .scalar => return [opened ++ " " ++ (← value.scalarText)]
    | kind =>
      match empty? kind, head.children with
      -- What is empty stays on the line of its key, all else starts on the next one.
      | some empty, [] => return [opened ++ " " ++ empty]
      | _, _ => return opened :: (← lines (indent + step) (spaces (indent + step)) head)

/-- The lines of a chain, each of its trees opened by a mark; the first one continues `lead`. -/
def chainLines (indent : Nat) (mark lead : String) :
    List (Tree Key) → Except RenderError (List String)
  | [] => return []
  | tree :: rest => do
    -- The further lines of a tree are indented past its mark.
    let first ← lines (indent + mark.length) (lead ++ mark) tree
    let others ← chainLines indent mark (spaces indent) rest
    return first ++ others
end

/-- Lines as a text, each ended by a line feed. -/
def ofLines (lines : List String) : String := String.join (lines.map (· ++ "\n"))

end Yaml

namespace Model

/-- A node and everything below it as YAML, without its following siblings. -/
def yamlSubtree (m : Model) (k : Key) : Except RenderError String :=
  (Yaml.lines m 0 "" (m.tree k)).map Yaml.ofLines

/-- The whole model as YAML, one document for each top-level node. -/
def yaml (m : Model) : Except RenderError String := do
  let documents ← m.roots.mapM m.yamlSubtree
  return "---\n".intercalate documents

end Model

end DocSync
