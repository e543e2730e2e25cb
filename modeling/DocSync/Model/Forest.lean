import DocSync.Model.Basic

/-! The model seen as a forest: what hangs below each node, and the order of a document. -/

namespace DocSync

/-- A finite tree with a label on every node. -/
inductive Tree (α : Type) where
  | node (label : α) (children : List (Tree α))
  deriving Repr, Inhabited

namespace Tree

variable {α : Type}

/-- The label at the root. -/
def label : Tree α → α
  | node label _ => label

/-- The trees below the root. -/
def children : Tree α → List (Tree α)
  | node _ children => children

mutual
/-- The labels, each before those below it. -/
def preorder : Tree α → List α
  | node label children => label :: preorderAll children

/-- The labels of several trees, one tree after the other. -/
def preorderAll : List (Tree α) → List α
  | [] => []
  | tree :: rest => preorder tree ++ preorderAll rest
end

mutual
/-- The number of labels. -/
def size : Tree α → Nat
  | node _ children => 1 + sizeAll children

/-- The number of labels of several trees. -/
def sizeAll : List (Tree α) → Nat
  | [] => 0
  | tree :: rest => size tree + sizeAll rest
end

end Tree

namespace Model

/-- The trees of a chain that starts at a link; `fuel` bounds the number of links on a path. -/
def treesFrom (m : Model) : Nat → Option Key → List (Tree Key)
  | 0, _ => []
  | _, none => []
  | fuel + 1, some k =>
    .node k (m.treesFrom fuel (m.node k).head) :: m.treesFrom fuel (m.node k).next

/-- A node with everything below it, without its following siblings. -/
def tree (m : Model) (k : Key) : Tree Key := .node k (m.treesFrom m.nodes.size (m.node k).head)

/-- A node and its following siblings, each with everything below it. -/
def chainTrees (m : Model) (k : Key) : List (Tree Key) := m.treesFrom m.nodes.size (some k)

/-- The document: a chain of trees for each top-level node. -/
def forest (m : Model) : List (List (Tree Key)) := m.roots.map m.chainTrees

/-- A node and everything below it, in document order. -/
def subtree (m : Model) (k : Key) : List Key := (m.tree k).preorder

/-- A node, its following siblings, and everything below them, in document order. -/
def subtreeAndNext (m : Model) (k : Key) : List Key := Tree.preorderAll (m.chainTrees k)

/-- The nodes of the document in order. -/
def order (m : Model) : List Key := m.roots.flatMap m.subtreeAndNext

/-- The number of nodes that hang on a node, following siblings included. -/
def descendantCount (m : Model) (k : Key) : Nat := (m.subtreeAndNext k).length - 1

end Model

end DocSync
