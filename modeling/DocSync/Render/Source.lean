import DocSync.Error
import DocSync.Model.Forest

/-!
A model written as document text. The text is emitted from a stack of parts still to be shown, so
neither depth nor length of the document drives a recursion over nodes; `treeText` says what comes
out.
-/

namespace DocSync

/-- Something still to be shown. -/
inductive Part where
  | text (text : String)
  /-- What a stored model gave in place of a text. -/
  | stray
  /-- Trees of one chain with a separator between them, and after the last one if it trails. -/
  | chain (trees : List (Tree Key)) (separator : Json) (trailing : Bool)
  | node (tree : Tree Key)
  deriving Inhabited

/-- The part that a value is in the place of a text. -/
def Part.ofGiven : Json → Part
  | .str value => .text value
  | _ => .stray

/-- The text of a scalar. -/
def Node.scalarText (n : Node) : Except RenderError String :=
  match n.fields.get? valueName with
  | some value => .ok value
  | none => .error (.scalarWithoutValue n.id)

namespace Model

variable (m : Model) (config : Config)

/-- The chain of a slot in its frame. -/
def chainPart (children : List (Tree Key)) (frame : Frame) : Part :=
  .chain children frame.givenSeparator frame.trailing

/-- The parts that a node shows, in order. -/
def layout (k : Key) (children : List (Tree Key)) : Except RenderError (List Part) := do
  let node := m.node k
  match node.kind with
  | .object | .array =>
    let frame ← (m.frame config k (node.edgeName .child)).mapError .misfit
    let closing := Part.ofGiven frame.givenClosing
    match children with
    | [] => return [.ofGiven (← frame.openingWhenEmpty.mapError .misfit), closing]
    | _ => return [.ofGiven frame.givenOpening, chainPart children frame, closing]
  | .pair =>
    match node.fields.get? keyField with
    | none => throw (.pairWithoutKey node.id)
    | some key =>
      let frame ← (m.frame config k valueName).mapError .misfit
      let framed (body : Part) : List Part :=
        [.text key, .ofGiven frame.givenOpening, body, .ofGiven frame.givenClosing]
      match children, node.fields.get? valueName with
      | [], none => throw (.pairWithoutValue node.id)
      | [], some value => return framed (.text value)
      | _, _ => return framed (chainPart children frame)
  | .scalar => return [.text (← node.scalarText)]

/-- The parts in whose place a part is shown. -/
def expandPart : Part → Except RenderError (List Part)
  | .text _ => .ok []
  | .stray => .error (.misfit .noText)
  | .chain [] _ _ => .ok []
  | .chain [last] separator trailing =>
    .ok (.node last :: if trailing then [.ofGiven separator] else [])
  | .chain (first :: rest) separator trailing =>
    .ok [.node first, .ofGiven separator, .chain rest separator trailing]
  | .node (.node k children) => m.layout config k children

/-- The text of a stack of parts, appended to what has been shown; `fuel` bounds the parts taken
from the stack. -/
def emit : Nat → String → List Part → Except RenderError String
  | 0, shown, _ => .ok shown
  | _, shown, [] => .ok shown
  | fuel + 1, shown, .text text :: rest => emit fuel (shown ++ text) rest
  | fuel + 1, shown, part :: rest => do
    let parts ← m.expandPart config part
    emit fuel shown (parts ++ rest)

/-- A bound on the parts that showing so many nodes takes: for each node itself, the four parts of
its layout, and its share of its chain with the separator behind it. -/
def emitBound (nodes parts : Nat) : Nat := 8 * nodes + 2 * parts + 1

/-- The text of one part of a layout. A chain in it is what the children come to with its separator, trailing or
not; a layout has no node of its own. -/
def partText (inner : Json → Bool → Except RenderError String) : Part → Except RenderError String
  | .text text => .ok text
  | .stray => .error (.misfit .noText)
  | .chain _ separator trailing => inner separator trailing
  | .node _ => .ok ""

/-- The text of a separator, which matters only where it is shown. -/
def gapText (shown : Bool) : Json → Except RenderError String
  | .str text => .ok (if shown then text else "")
  | _ => if shown then .error (.misfit .noText) else .ok ""

mutual
/-- The text of a tree: the texts of its layout, one behind the other. -/
def treeText : Tree Key → Except RenderError String
  | .node k children => do
    let parts ← m.layout config k children
    let texts ← parts.mapM (partText fun separator trailing => chainText separator trailing children)
    return String.join texts

/-- The texts of several trees with a separator between them, and behind the last one if it trails. -/
def chainText (separator : Json) (trailing : Bool) : List (Tree Key) → Except RenderError String
  | [] => return ""
  | tree :: rest => do
    let text ← treeText tree
    let gap ← gapText (trailing || !rest.isEmpty) separator
    return text ++ gap ++ (← chainText separator trailing rest)
end

/-- A node and everything below it as text, without its following siblings. -/
def renderSubtree (k : Key) : Except RenderError String :=
  let tree := m.tree k
  m.emit config (emitBound tree.size 1) "" [.node tree]

/-- The whole document as text. Top-level nodes stand on lines of their own; there are several only
while an edit is under way. -/
def render : Except RenderError String := do
  let forest := m.forest
  let parts :=
    (forest.map fun trees => Part.chain trees (.str "\n") false).intersperse (.text "\n")
  let body ← m.emit config (emitBound (Tree.sizeAll forest.flatten) parts.length) "" parts
  match m.givenLeading, m.givenTrailing with
  | .str leading, .str trailing => return leading ++ body ++ trailing
  | _, _ => throw (.misfit .noSum)

end Model

end DocSync
