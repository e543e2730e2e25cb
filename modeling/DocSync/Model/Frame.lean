import DocSync.Config
import DocSync.Json.Stray
import DocSync.Location
import DocSync.Model.Kind

/-!
Frames: the text a slot puts around its chain and between its siblings. Frames of parsed nodes are
sampled from the source, those of new nodes are generated.
-/

namespace DocSync

/-- The formatting of one slot of one node. -/
structure Frame where
  /-- Text before the first sibling. -/
  opening : String := ""
  /-- Text after the last sibling. -/
  closing : String := ""
  /-- Text between two siblings. -/
  separator : String := ""
  /-- The blanks that lead each sibling's line; empty where siblings share a line. -/
  indent : String := ""
  /-- Whether the separator also follows the last sibling. -/
  trailing : Bool := false
  /-- What a stored model gave in another type than the parts above have. Its text counts as empty,
  and it trails unless it stands for nothing. -/
  strays : Strays := []
  deriving DecidableEq, Repr, Inhabited

namespace Frame

/-- The spaces and tabs that follow the last line feed of a separator. -/
def indentOf (separator : List Char) : List Char :=
  if separator.contains '\n' then
    let lastLine := (separator.reverse.takeWhile (· != '\n')).reverse
    lastLine.takeWhile fun c => c == ' ' || c == '\t'
  else []

/--
The opening to show when a chain spread over lines has lost every sibling. The indent that led the
first sibling goes, and its line feed too where the closing text starts a line of its own.
-/
def emptyOpening (f : Frame) : String :=
  let opening := f.opening.toList
  let indent := f.indent.toList
  if indent.isEmpty || !('\n' :: indent).isSuffixOf opening then f.opening
  else
    let kept := opening.take (opening.length - indent.length)
    String.ofList (if ['\n'].isPrefixOf f.closing.toList then kept.dropLast else kept)

/-- The value that a text of the frame was given as, by its name. -/
def given (f : Frame) (name text : String) : Json := (f.strays.lookup name).getD (.str text)

/-- The opening as it was given. -/
def givenOpening (f : Frame) : Json := f.given "prefix" f.opening

/-- The closing as it was given. -/
def givenClosing (f : Frame) : Json := f.given "suffix" f.closing

/-- The separator as it was given. -/
def givenSeparator (f : Frame) : Json := f.given "separator" f.separator

/-- The indent as it was given. -/
def givenIndent (f : Frame) : Json := f.given "indent" f.indent

/-- The slot shows no text of its own around its chain. -/
def transparent (f : Frame) : Bool := f.givenOpening.isVoid && f.givenClosing.isVoid

/-- The opening to show when the chain has lost every sibling, for a frame whose parts may be no
texts. They are looked into in turn, and only as far as they matter. -/
def openingWhenEmpty (f : Frame) : Except Misfit Json :=
  if f.givenIndent.isVoid then .ok f.givenOpening
  else
    match f.givenOpening, f.givenIndent, f.givenClosing with
    | .str opening, .str indent, closing =>
      if !('\n' :: indent.toList).isSuffixOf opening.toList then .ok f.givenOpening
      else if closing.text?.isNone then .error .noText
      else .ok (.str f.emptyOpening)
    | .str _, _, _ => .error .noSum
    | _, _, _ => .error .noText

/-- The separator on a single line. -/
def flatSeparator : String := ", "

/-- The frame of a generated chain on a single line. -/
def flat (config : Config) (left right : String) : Frame where
  opening := left
  closing := right
  separator := flatSeparator
  trailing := config.trailingSeparator

/-- The frame of a generated chain over several lines, its siblings indented by `inner` and its
closing by `indent`. -/
def spread (config : Config) (left right indent inner : String) : Frame where
  opening := left ++ "\n" ++ inner
  closing := "\n" ++ indent ++ right
  separator := ",\n" ++ inner
  indent := inner
  trailing := config.trailingSeparator

/-- The frame generated for a slot under the given enclosing indent. -/
def generated (config : Config) (kind : Kind) (indent : String) : Frame :=
  match kind.brackets? with
  | some (left, right) =>
    if indent.isEmpty then flat config left right
    else spread config left right indent (indent ++ config.defaultIndent)
  | none => if kind = .pair then { opening := ": " } else {}

/-- The frame generated under an indent and by settings that may be no texts. Only a container
continues the indent, and only then the indent and one more level of it are put together. -/
def generatedUnder (config : Config) (kind : Kind) (indent : Json) : Except Misfit Frame :=
  match kind.brackets? with
  | none => .ok (generated config kind "")
  | some (left, right) =>
    let flag := config.strays.filter fun member => member.1 == "trailing_separator"
    if indent.isVoid then .ok { flat config left right with strays := flag }
    else
      match indent.sum? config.givenIndent with
      | none => .error .noSum
      | some (.str inner) => .ok
          { spread config left right indent.asText inner with strays := flag }
      | some inner => .ok
          { spread config left right indent.asText inner.asText with
            indent := "", strays := ("indent", inner) :: flag }

/-- Settings of their own types generate the same frame under any text. -/
theorem generatedUnder_str {config : Config} (plain : config.strays = []) (kind : Kind)
    (indent : String) :
    generatedUnder config kind (.str indent) = .ok (generated config kind indent) := by
  unfold generatedUnder generated
  cases kind.brackets? with
  | none => rfl
  | some brackets =>
    simp only [Json.isVoid, Config.givenIndent, plain, Json.sum?, Json.asText, Json.text?,
      List.filter_nil, List.lookup_nil, Option.getD_none, Option.getD_some]
    split <;> rfl

/-- The frame of a container, sampled from the text around and between its children. -/
def ofContainer (source : List Char) (span : Location) : List Location → Frame
  | [] =>
    -- The split before the closing bracket lets a first child land inside.
    let text := span.slice source
    { opening := String.ofList text.dropLast
      closing := String.ofList (Text.sliceFrom text (-1))
      separator := flatSeparator }
  | first :: rest =>
    let opening := Text.slice source span.start first.start
    let separator := match rest with
      | second :: _ => Text.slice source first.stop second.start
      | [] =>
        -- An only child on a line of its own sets the style for the next one.
        if opening.contains '\n' then ',' :: opening.tail else flatSeparator.toList
    { opening := String.ofList opening
      closing := String.ofList (Text.slice source ((rest.getLast?).getD first).stop span.stop)
      separator := String.ofList separator
      indent := String.ofList (indentOf separator) }

/-- The frame of a pair's value: what lies between key and value, and after the value. -/
def ofPair (source : List Char) (span key value : Location) : Frame :=
  { opening := String.ofList (Text.slice source key.stop value.start)
    closing := String.ofList (Text.slice source value.stop span.stop) }

/-- The frame sampled for a node of a kind. A pair has exactly two parts; of any other number
nothing can be sampled. -/
def sampled? (source : List Char) (kind : Kind) (span : Location) (parts : List Location) :
    Option Frame :=
  match kind with
  | .object | .array => some (ofContainer source span parts)
  | .pair => match parts with
    | [key, value] => some (ofPair source span key value)
    | _ => none
  | .scalar => some {}

end Frame

end DocSync
