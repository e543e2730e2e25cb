import DocSync.Model.Build
import DocSync.Proofs.Model.Sound

/-!
What a parse becomes, told without the order in which it is built: for each node of the model its
kind and all that it holds, in one tree. A model stands on such a tree when the node under a key and
those its links lead to are the ones that the tree describes.
-/

namespace DocSync

/-- A node without its identity and its links: its kind and what it holds. -/
abbrev Makeup := Kind × Content

namespace Build

variable (source : List Char) (fingerprint : String)

/-- A scalar that a token becomes. -/
def scalarMakeup (t : Token) : Makeup :=
  (.scalar,
    { fields := Dict.ofList [(valueName, t.lexeme)]
      origin := origin fingerprint t.span [(valueName, t.span)] [] })

/-- A container that an instance of a rule becomes. -/
def containerMakeup (kind : Kind) (slot : String) (children : List ParseTree) (span : Location) :
    Makeup :=
  (kind,
    { frames := Dict.ofList [(slot, Frame.ofContainer source span (children.map ParseTree.span))]
      origin := origin fingerprint span [] [(slot, span)] })

/-- The parts of a pair that are fields: its key, and its value if that is a token. -/
def pairFields (key : Token) (value : ParseTree) : List (String × Token) :=
  (keyField, key) :: match value with
    | .token t => [(valueName, t)]
    | .rule .. => []

/-- A pair that a key and a value become. -/
def pairMakeup (key : Token) (value : ParseTree) (span : Location) : Makeup :=
  (.pair,
    { fields := Dict.ofList ((pairFields key value).map fun part => (part.1, part.2.lexeme))
      frames := Dict.ofList [(valueName, Frame.ofPair source span key.span value.span)]
      origin := origin fingerprint span ((pairFields key value).map fun part => (part.1, part.2.span))
        [(valueName, key.span.restOf span)] })

/-- What a tree's node is made of; what the grammar has no rule for becomes no node. -/
def makeup : ParseTree → Makeup
  | .token t => scalarMakeup fingerprint t
  | .rule .object children span => containerMakeup source fingerprint .object membersSlot children span
  | .rule .array children span => containerMakeup source fingerprint .array itemsSlot children span
  | .rule .pair [.token key, value] span => pairMakeup source fingerprint key value span
  | .rule _ _ _ => default

end Build

namespace ParseTree

/-- The trees that become the chain of a tree's node; the value of a pair is its only child. -/
def nested : ParseTree → List ParseTree
  | .token _ => []
  | .rule .object children _ => children
  | .rule .array children _ => children
  | .rule .pair [_, .rule r children span] _ => [.rule r children span]
  | .rule _ _ _ => []

/-- A tree follows the grammar's rules: a pair has a token for its key and one value. -/
inductive Regular : ParseTree → Prop
  | token (t : Token) : Regular (.token t)
  | object {children : List ParseTree} (span : Location) :
    (∀ tree ∈ children, Regular tree) → Regular (.rule .object children span)
  | array {children : List ParseTree} (span : Location) :
    (∀ tree ∈ children, Regular tree) → Regular (.rule .array children span)
  | pair (key : Token) {value : ParseTree} (span : Location) :
    Regular value → Regular (.rule .pair [.token key, value] span)

mutual
/-- What a tree and all below it become. -/
def blueprint (source : List Char) (fingerprint : String) : ParseTree → Tree Makeup
  | .token t => .node (Build.scalarMakeup fingerprint t) []
  | .rule .object children span =>
    .node (Build.containerMakeup source fingerprint .object membersSlot children span)
      (blueprintAll source fingerprint children)
  | .rule .array children span =>
    .node (Build.containerMakeup source fingerprint .array itemsSlot children span)
      (blueprintAll source fingerprint children)
  | .rule .pair [.token key, .token value] span =>
    .node (Build.pairMakeup source fingerprint key (.token value) span) []
  | .rule .pair [.token key, .rule r children inner] span =>
    .node (Build.pairMakeup source fingerprint key (.rule r children inner) span)
      [blueprint source fingerprint (.rule r children inner)]
  | .rule _ _ _ => default

/-- What several trees and all below them become. -/
def blueprintAll (source : List Char) (fingerprint : String) : List ParseTree → List (Tree Makeup)
  | [] => []
  | tree :: rest => blueprint source fingerprint tree :: blueprintAll source fingerprint rest
end

theorem blueprintAll_eq_map (source : List Char) (fingerprint : String) (trees : List ParseTree) :
    blueprintAll source fingerprint trees = trees.map (blueprint source fingerprint) := by
  induction trees with
  | nil => rw [blueprintAll, List.map_nil]
  | cons tree rest ih => rw [blueprintAll, List.map_cons, ih]

theorem blueprint_eq {source : List Char} {fingerprint : String} {tree : ParseTree}
    (regular : tree.Regular) :
    tree.blueprint source fingerprint = .node (Build.makeup source fingerprint tree)
      (tree.nested.map (blueprint source fingerprint)) := by
  rw [← blueprintAll_eq_map]
  cases regular with
  | token t => simp [blueprint, Build.makeup, nested, blueprintAll]
  | object span children => simp [blueprint, Build.makeup, nested]
  | array span children => simp [blueprint, Build.makeup, nested]
  | @pair key value span inner =>
    cases value <;> simp [blueprint, Build.makeup, nested, blueprintAll]

end ParseTree

/-- The trees of a link are what the given trees describe, and all their nodes lie inside. -/
inductive Model.Stands (m : Model) (inside : Key → Prop) : Option Key → List (Tree Makeup) → Prop
  | nil : m.Stands inside none []
  | cons {k : Key} {children rest : List (Tree Makeup)} : inside k → m.Holds k →
    m.Stands inside (m.node k).head children → m.Stands inside (m.node k).next rest →
      m.Stands inside (some k)
        (.node ((m.node k).kind, (m.node k).toContent) children :: rest)

namespace Model.Stands

variable {m m' : Model} {inside inside' : Key → Prop} {link : Option Key}
  {trees : List (Tree Makeup)}

/-- What stands somewhere stands in every model that has the same nodes there. -/
theorem mono (stands : m.Stands inside link trees) (wider : ∀ k, inside k → inside' k)
    (same : ∀ k, inside k → m.Holds k → m'.Holds k ∧ m'.node k = m.node k) :
    m'.Stands inside' link trees := by
  induction stands with
  | nil => exact .nil
  | @cons k children rest here held _ _ below after =>
    obtain ⟨held', node⟩ := same k here held
    rw [← node] at below after ⊢
    exact .cons (wider k here) held' below after

/-- In a linked model what stands on trees has these trees. -/
theorem mapAll_treesAt (stands : m.Stands inside link trees) (linked : m.Linked) :
    Tree.mapAll (fun k => ((m.node k).kind, (m.node k).toContent)) (m.treesAt link) = trees := by
  induction stands with
  | nil => rw [treesAt_none, Tree.mapAll]
  | cons _ held _ _ below after =>
    rw [linked.treesAt_some held, tree_eq, Tree.mapAll, Tree.map, below, after]

end Model.Stands

end DocSync
