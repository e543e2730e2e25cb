import DocSync.Digest.Fingerprint
import DocSync.Error
import DocSync.Grammar.Parser
import DocSync.Model.Host

/-!
From a parse to a model. Every node keeps the spans it was read from and the frames sampled around
its children, so that showing the model gives the text back.
-/

namespace DocSync

/-- A step of building: edits of a workspace that nobody listens to. -/
abbrev Build := EStateM Error Workspace

namespace Build

/-- The workspace under construction. -/
def host : Host Error Workspace := Workspace.silent .edit

/-- What a node keeps of the place it was read from. -/
def origin (fingerprint : String) (span : Location)
    (fieldSpans slotSpans : List (String × Location)) : Option Origin :=
  some
    { span := span, fieldSpans := Dict.ofList (kept fieldSpans)
      slotSpans := Dict.ofList (kept slotSpans), sourceHash := some fingerprint }
where
  kept (spans : List (String × Location)) : List (String × Span) :=
    spans.map fun entry => (entry.1, { toLocation := entry.2 })

/-- The node of a container: its frame is sampled between its children. -/
def container (source : List Char) (fingerprint : String) (kind : Kind) (slot : String)
    (children : List ParseTree) (span : Location) : Build Key :=
  let frame := Frame.ofContainer source span (children.map ParseTree.span)
  host.createNode none kind
    { frames := Dict.ofList [(slot, frame)]
      origin := origin fingerprint span [] [(slot, span)] }

/-- The node of a pair: its key is a field, and so is its value if that is a token. -/
def pair (source : List Char) (fingerprint : String) (key : Token) (value : ParseTree)
    (span : Location) : Build Key :=
  let frame := Frame.ofPair source span key.span value.span
  let valueField := match value with
    | .token t => [(valueName, t)]
    | .rule .. => []
  let parts := (keyField, key) :: valueField
  host.createNode none .pair
    { fields := Dict.ofList (parts.map fun part => (part.1, part.2.lexeme))
      frames := Dict.ofList [(valueName, frame)]
      origin := origin fingerprint span (parts.map fun part => (part.1, part.2.span))
        [(valueName, key.span.restOf span)] }

/-- The node of a parse, without those below it. -/
def nodeOf (source : List Char) (fingerprint : String) : ParseTree → Build Key
  | .token t =>
    host.createNode none .scalar
      { fields := Dict.ofList [(valueName, t.lexeme)]
        origin := origin fingerprint t.span [(valueName, t.span)] [] }
  | .rule .object children span => container source fingerprint .object membersSlot children span
  | .rule .array children span => container source fingerprint .array itemsSlot children span
  | .rule .pair children span =>
    match children with
    | [.token key, value] => pair source fingerprint key value span
    | [_, _] => throw (.parse ⟨.keyNotTerminal, some span.line, none, .null⟩)
    | _ => throw .pairShape
  | .rule (.other name) _ span => throw (.parse ⟨.unknownRule name, some span.line, none, .null⟩)

/-- The nodes of a chain, made from left to right and linked from `previous` by the given slot. -/
def chain (source : List Char) (fingerprint : String) (previous : Key) (slot : String) :
    List ParseTree → Build (List Key)
  | [] => return []
  | tree :: rest => do
    let key ← nodeOf source fingerprint tree
    host.link previous slot key
    return key :: (← chain source fingerprint key nextName rest)

mutual
/-- What lies below a node: its chain first, then what lies below the chain, from its end. -/
def expand (source : List Char) (fingerprint : String) (key : Key) : ParseTree → Build Unit
  | .token _ => return
  | .rule .object children _ => do
    let keys ← chain source fingerprint key membersSlot children
    expandAll source fingerprint keys children
  | .rule .array children _ => do
    let keys ← chain source fingerprint key itemsSlot children
    expandAll source fingerprint keys children
  | .rule .pair [_, .rule r children span] _ => do
    let inner ← nodeOf source fingerprint (.rule r children span)
    host.link key valueName inner
    expand source fingerprint inner (.rule r children span)
  | .rule .pair _ _ => return
  | .rule (.other _) _ _ => return

/-- What lies below each node of a chain, the last node's first. -/
def expandAll (source : List Char) (fingerprint : String) :
    List Key → List ParseTree → Build Unit
  | key :: keys, tree :: rest => do
    expandAll source fingerprint keys rest
    expand source fingerprint key tree
  | _, _ => return
end

end Build

namespace Model

/-- The model of a parse of a text, in a workspace that has handed out `supply` ids; with it comes
the number handed out afterwards. -/
def ofParse (tree : ParseTree) (source : String) (supply : Nat) : Except Error (Model × Nat) :=
  let text := source.toList
  let fingerprint := Digest.fingerprint source
  let blank : Model :=
    { leading := String.ofList (Text.sliceTo text tree.span.start)
      trailing := String.ofList (Text.sliceFrom text tree.span.stop)
      sourceHash := some fingerprint }
  let built : Build Unit := do
    let root ← Build.nodeOf text fingerprint tree
    Build.expand text fingerprint root tree
  match built { model := blank, supply := supply } with
  | .ok _ w => .ok (w.model, w.supply)
  | .error e _ => .error e

/-- The model of a text. -/
def build (text : String) (file : Json) (supply : Nat) : Except Error (Model × Nat) :=
  match Parser.parse text file with
  | .ok tree => ofParse tree text supply
  | .error e => .error (.parse e)

end Model

end DocSync
