import SourceAtlas.Json.Token

/-! JSON values as far as they can be read. A reader of a malformed text meets the values before the
fault, so that a fault of another kind in one of them comes first. -/
namespace SourceAtlas.Json

/-- A value, up to where reading stops. `array` and `object` without an ending are closed. A key or
text is `none` if it has an unpaired half of a character in it. -/
inductive Draft
  | null
  | bool (value : Bool)
  | number (text : List Char)
  | text (content : Option String)
  | array (items : List Draft) (ending : Option Stop)
  | object (members : List (Option String × Draft)) (ending : Option Stop)
  | broken (stop : Stop)
  deriving Repr

abbrev Member := Option String × Draft

/-- A container around the value being read: what is read of it, latest first. -/
inductive Frame
  | array (items : List Draft)
  | object (members : List Member) (key : Option String)

def Frame.fill (value : Draft) (ending : Option Stop) : Frame → Draft
  | array items => .array (value :: items).reverse ending
  | object members key => .object ((key, value) :: members).reverse ending

/-- What comes next within the innermost frame, with what is read of the container beside it, latest
first. -/
inductive Expected
  | value
  | firstItem
  | firstKey
  | key (members : List Member)
  | colon (members : List Member) (key : Option String)
  | afterItem (items : List Draft)
  | afterMember (members : List Member)
  | nothing (value : Draft)

abbrev Progress := Expected × List Frame

def place (value : Draft) : List Frame → Progress
  | [] => (.nothing value, [])
  | .array items :: frames => (.afterItem (value :: items), frames)
  | .object members key :: frames => (.afterMember ((key, value) :: members), frames)

/-- Starts a value with a token. -/
def startValue (frames : List Frame) : Token → Except Stop Progress
  | .openArray => .ok (.firstItem, frames)
  | .openObject => .ok (.firstKey, frames)
  | .null => .ok (place .null frames)
  | .bool value => .ok (place (.bool value) frames)
  | .number numeral => .ok (place (.number numeral) frames)
  | .text content => .ok (place (.text content) frames)
  | .broken stop | .brokenText stop => .error stop
  | .closeArray | .closeObject | .comma | .colon | .stray => .error (.both .malformed)

/-- Starts a member with a token. -/
def startMember (members : List Member) (frames : List Frame) : Token → Except Stop Progress
  | .text key => .ok (.colon members key, frames)
  | .brokenText stop => .error stop
  | _ => .error (.both .malformed)

def advance (frames : List Frame) (token : Token) : Expected → Except Stop Progress
  | .value => startValue frames token
  | .firstItem =>
    if token = .closeArray then .ok (place (.array [] none) frames)
    else startValue (.array [] :: frames) token
  | .firstKey =>
    if token = .closeObject then .ok (place (.object [] none) frames)
    else startMember [] frames token
  | .key members => startMember members frames token
  | .colon members key =>
    if token = .colon then .ok (.value, .object members key :: frames) else .error (.both .malformed)
  | .afterItem items =>
    if token = .comma then .ok (.value, .array items :: frames)
    else if token = .closeArray then .ok (place (.array items.reverse none) frames)
    else .error (.both .malformed)
  | .afterMember members =>
    if token = .comma then .ok (.key members, frames)
    else if token = .closeObject then .ok (place (.object members.reverse none) frames)
    else .error (.both .malformed)
  | .nothing _ => .error (.both .malformed)

def Expected.cut (stop : Stop) : Expected → Draft
  | value => .broken stop
  | firstItem => .array [] (some stop)
  | firstKey => .object [] (some stop)
  | key members => .object members.reverse (some stop)
  | colon members name => .object ((name, .broken stop) :: members).reverse (some stop)
  | afterItem items => .array items.reverse (some stop)
  | afterMember members => .object members.reverse (some stop)
  | nothing draft => draft

def cutAll (stop : Stop) (expected : Expected) (frames : List Frame) : Draft :=
  frames.foldl (fun value frame => frame.fill value (some stop)) (expected.cut stop)

/-- A text as one value. `trailing` says that something follows the value. -/
structure Document where
  value : Draft
  trailing : Bool
  deriving Repr

def readFrom (expected : Expected) (frames : List Frame) : List Token → Document
  | [] => ⟨cutAll (.both .endOfText) expected frames, false⟩
  | token :: rest =>
    match expected with
    | .nothing value => ⟨value, true⟩
    | expected =>
      match advance frames token expected with
      | .ok (expected, frames) => readFrom expected frames rest
      | .error stop => ⟨cutAll stop expected frames, false⟩

def Document.ofTokens (tokens : List Token) : Document := readFrom .value [] tokens

def Document.ofText (text : String) : Document := .ofTokens (tokens text.toList)

end SourceAtlas.Json
