import DocSync.Payload.Error

/-!
The members of a stored node: its kind, its fields, its frames, and where it was read. A member of
the wrong shape is refused, but the parts of a span or a frame may be of any type.
-/

namespace DocSync.Payload

/-- A member that has to be there. -/
def required (name : String) (value : Json) : Except PayloadError Json :=
  match value with
  | .obj members =>
    match members.lookup name with
    | some value => .ok value
    | none => .error (.absent (Text.quoted name))
  | _ => .error .badRecord

/-- A member that may be null or missing. -/
def optional (name : String) (value : Json) : Option Json :=
  match value.member? name with
  | some .null => none
  | found => found

/-- A text member; what is no text counts as empty. -/
def textOf (name : String) (value : Json) : String :=
  ((value.member? name).bind Json.text?).getD ""

/-- An integer member; what is no integer counts as zero. -/
def intOf (name : String) (value : Json) : Int := ((value.member? name).bind Json.int?).getD 0

/-- A text or null. -/
def isTextOrNull (value : Json) : Bool := value.text?.isSome || value.isNull

/-- An integer or null. -/
def isIntOrNull (value : Json) : Bool := value.int?.isSome || value.isNull

/-- The members of a value that has to be an object. -/
def membersOf : Json → Except PayloadError (List (String × Json))
  | .obj members => .ok members
  | _ => .error .badRecord

/-- A map read from the members of an object. -/
def dictOf {α : Type} (read : Json → Except PayloadError α) (value : Json) :
    Except PayloadError (Dict α) := do
  let entries ← (← membersOf value).mapM fun entry => do return (entry.1, ← read entry.2)
  return .ofList entries

/-- A map that may be missing. -/
def dictAt {α : Type} (name : String) (read : Json → Except PayloadError α) (value : Json) :
    Except PayloadError (Dict α) :=
  match value.member? name with
  | some value => dictOf read value
  | none => .ok .empty

/-- A part of a span is of the type it should be. -/
def isSpanPart (name : String) (value : Json) : Bool :=
  match name with
  | "lineno" | "col_offset" | "offset" | "end_offset" => value.int?.isSome
  | "end_lineno" | "end_col_offset" => isIntOrNull value
  | _ => true

/-- A span from its parts. -/
def spanOf (value : Json) : Span where
  line := intOf "lineno" value
  col := intOf "col_offset" value
  start := intOf "offset" value
  stop := intOf "end_offset" value
  endLine := (value.member? "end_lineno").bind Json.int?
  endCol := (value.member? "end_col_offset").bind Json.int?
  file := (value.member? "source_file").getD .null
  strays := .of isSpanPart value.members

/-- A span, whose start has to be there. -/
def readSpan (value : Json) : Except PayloadError Span := do
  discard (required "lineno" value)
  discard (required "col_offset" value)
  return spanOf value

/-- The part of an origin that is no hash where one should be. -/
def hashStrays (value : Json) : Strays :=
  .of (fun name value => name != "source_hash" || isTextOrNull value) value.members

/-- Where a node was read. -/
def readOrigin (value : Json) : Except PayloadError Origin := do
  let span ← readSpan (← required "span" value)
  return {
    span := span
    fieldSpans := ← dictAt "field_spans" readSpan value
    slotSpans := ← dictAt "slot_spans" readSpan value
    sourceHash := (value.member? "source_hash").bind Json.text?
    strays := hashStrays value }

/-- The members a frame may have. -/
def frameMembers : List String := ["prefix", "suffix", "separator", "indent", "trailing_separator"]

/-- A part of a frame is of the type it should be. -/
def isFramePart (name : String) (value : Json) : Bool :=
  if name = "trailing_separator" then value.bool?.isSome else value.text?.isSome

/-- A frame from its parts; what is left out is empty. -/
def frameOf (value : Json) : Frame where
  opening := textOf "prefix" value
  closing := textOf "suffix" value
  separator := textOf "separator" value
  indent := textOf "indent" value
  trailing := ((value.member? "trailing_separator").map fun flag => !flag.isVoid).getD false
  strays := .of isFramePart value.members

/-- A frame, which may have no other members. -/
def readFrame (value : Json) : Except PayloadError Frame := do
  if (← membersOf value).all fun entry => frameMembers.contains entry.1 then return frameOf value
  else throw .badRecord

/-- A kind by its name. -/
def readKind (value : Json) : Except PayloadError Kind :=
  match value.text?.bind Kind.ofName? with
  | some kind => .ok kind
  | none => .error (.unknownKind value.shown)

/-- One field from a list of name and value. -/
def readField (value : Json) : Except PayloadError (String × String) :=
  match value.parts? with
  | some [name, value] =>
    if (Name.of? name).isSome then .ok (name.asText, value.asText) else .error .badRecord
  | _ => .error .badRecord

/-- The fields of a node, as an object or as a list of pairs. -/
def readFields (value : Json) : Except PayloadError (Dict String) :=
  if value.isVoid then .ok .empty
  else
    match value with
    | .obj _ => dictOf (fun field => .ok field.asText) value
    | .arr items => return .ofList (← items.mapM readField)
    | _ => .error .badRecord

/-- All fields of a record have texts for names and for values. -/
def hasTextFields (record : Json) : Bool :=
  let isText (value : Json) : Bool := value.text?.isSome
  match record.member? "fields" with
  | some (.obj members) => members.all fun field => isText field.2
  | some (.arr items) => items.all fun item => (item.parts?.getD []).all isText
  | _ => true

end DocSync.Payload
