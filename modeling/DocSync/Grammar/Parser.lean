import DocSync.Grammar.Lexer
import DocSync.Grammar.ParseTree

/-!
From tokens to a parse tree, one token at a time. The machine keeps the containers still open on a
stack and refuses a token in the very step that meets it.
-/

namespace DocSync.Parser

/-- A container whose closing bracket has not been read. -/
structure Open where
  /-- Object or array. -/
  isObject : Bool
  opening : Location
  /-- The children finished so far, latest first. -/
  children : List ParseTree := []
  /-- The key of the pair whose value comes next. -/
  pending : Option Token := none
  deriving Repr, Inhabited

/-- The bracket that closes a container. -/
def Open.closer (o : Open) : TokenKind := if o.isObject then .rbrace else .rbracket

/-- A finished value taken in; after a key it makes a pair. -/
def Open.add (o : Open) (value : ParseTree) : Open :=
  match o.pending with
  | none => { o with children := value :: o.children }
  | some key =>
    let pair := .rule .pair [.token key, value] (key.span.spanTo value.span)
    { o with children := pair :: o.children, pending := none }

/-- The container as a tree, closed by a bracket. -/
def Open.close (o : Open) (closing : Token) : ParseTree :=
  .rule (if o.isObject then .object else .array) o.children.reverse
    (o.opening.spanTo closing.span)

/-- What the machine waits for; containers are listed from the innermost out. -/
inductive State where
  /-- A value. -/
  | value (outer : List Open)
  /-- The first element of a container, or the bracket that closes it. -/
  | first (top : Open) (outer : List Open)
  /-- A key. -/
  | key (top : Open) (outer : List Open)
  /-- The colon after a key. -/
  | colon (top : Open) (outer : List Open)
  /-- A comma, or the bracket that closes the container. -/
  | after (top : Open) (outer : List Open)
  /-- Nothing but the end. -/
  | done (tree : ParseTree)
  deriving Repr, Inhabited

/-- A finished value handed to the container around it. -/
def finish (value : ParseTree) : List Open → State
  | [] => .done value
  | top :: outer => .after (top.add value) outer

/-- A token where a value is due. -/
def stepValue (outer : List Open) (t : Token) : Except Wanted State :=
  if t.kind = .lbrace then .ok (.first { isObject := true, opening := t.span } outer)
  else if t.kind = .lbracket then .ok (.first { isObject := false, opening := t.span } outer)
  else if t.kind.isScalar then .ok (finish (.token t) outer)
  else .error .value

/-- A token where a key is due. -/
def stepKey (top : Open) (outer : List Open) (t : Token) : Except Wanted State :=
  if t.kind = .string then .ok (.colon { top with pending := some t } outer)
  else .error (.token .string)

/-- One token: what the machine waits for after it, or what it wanted instead. -/
def step : State → Token → Except Wanted State
  | .value outer, t => stepValue outer t
  | .first top outer, t =>
    if t.kind = top.closer then .ok (finish (top.close t) outer)
    else if top.isObject then stepKey top outer t
    else stepValue (top :: outer) t
  | .key top outer, t => stepKey top outer t
  | .colon top outer, t =>
    if t.kind = .colon then .ok (.value (top :: outer)) else .error (.token .colon)
  | .after top outer, t =>
    if t.kind = .comma then
      .ok (if top.isObject then .key top outer else .value (top :: outer))
    else if t.kind = top.closer then .ok (finish (top.close t) outer)
    else .error (.token top.closer)
  | .done tree, t => if t.kind = .eof then .ok (.done tree) else .error (.token .eof)

/-- A token the machine refuses, and what it wanted. -/
abbrev Refused := Wanted × Token

/-- The machine over a run of tokens; it stops at the first token it refuses. -/
def run : State → List Token → Except Refused State
  | state, [] => .ok state
  | state, t :: rest =>
    match step state t with
    | .ok next => run next rest
    | .error wanted => .error (wanted, t)

/-- The tree of a whole run of tokens, the last of which marks the end. -/
def treeOf (file : Json) (tokens : List Token) : Except ParseError ParseTree :=
  match run (.value []) tokens with
  | .ok (.done tree) => .ok tree
  | .error (wanted, t) =>
    .error ⟨.expected wanted t.kind t.lexeme, some t.span.line, some t.span.col, file⟩
  -- Without the end mark the text may break off anywhere.
  | .ok _ => .error ⟨.expected .value .eof "", none, none, file⟩

/-- The parse of a text as one document. A text whose tokens are faulty is refused for that. -/
def parse (text : String) (file : Json := .null) : Except ParseError ParseTree :=
  let lexed := Lexer.tokenize text file
  match lexed.error with
  | some e => .error e
  | none => treeOf file lexed.tokens

end DocSync.Parser
