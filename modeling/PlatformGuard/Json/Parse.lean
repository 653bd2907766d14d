import PlatformGuard.Json.Token

/-!
# Drafts from texts

A machine with a stack of open arrays and objects goes through the tokens of a text. It does not
recurse into the value, so nesting has no limit here. Where no token fits, it stops, and the
draft has its hole there.
-/

namespace PlatformGuard.Json

/-- An array or object that is open, with what it holds so far, the latest first. An object keeps
the key whose value is due. -/
inductive Frame where
  | array (items : List Draft)
  | object (entries : List (DraftKey × Draft)) (key : Option String)

/-- What is due next. -/
inductive Due where
  | value
  /-- A value, or the end of the array just opened. -/
  | firstItem
  /-- A key, or the end of the object just opened. -/
  | firstKey
  | key
  | colon
  /-- Whatever can follow a value. -/
  | after (value : Draft)

/-- The machine: what is due, and what is open, the innermost first. -/
structure ParseState where
  due : Due := .value
  frames : List Frame := []

/-- What a text says: a value, and whether something stands after it. -/
structure Document where
  value : Draft
  more : Bool := false

/-- What a step comes to. -/
inductive ParseStep where
  | next (state : ParseState)
  | stop (document : Document)

/-- The value that has another as the last thing in it. Nothing is known of what follows. -/
def Frame.enclose (inner : Draft) : Frame → Draft
  | array items => .array (inner :: items).reverse (.cut .endOfText)
  | object entries key => .object ((.text key, inner) :: entries).reverse (.cut .endOfText)

/-- The text breaks within a value. -/
def breakIn (frames : List Frame) (inner : Draft) : Document :=
  ⟨frames.foldl Frame.enclose inner, false⟩

/-- The text breaks after a value. Alone, the value is complete. -/
def breakAfter (frames : List Frame) (value : Draft) (e : JsonError) : Document :=
  match frames with
  | [] => ⟨value, e != .endOfText⟩
  | .array items :: frames => breakIn frames (.array (value :: items).reverse (.cut e))
  | .object entries key :: frames =>
    breakIn frames (.object ((.text key, value) :: entries).reverse (.cut e))

def breakAtKey (entries : List (DraftKey × Draft)) (frames : List Frame) (fault : Fault)
    (asValue : JsonError) : Document :=
  breakIn frames (.object ((.broken fault asValue, .absent) :: entries).reverse (.cut .endOfText))

/-- What a token is where a value is due: a value, or a hole. An array or object is only opened. -/
def Token.draft : Token → Draft
  | null => .null
  | bool b => .bool b
  | number n => .number n
  | text v => .text v
  | broken start fault => .broken (some start) fault
  | openArray => .array [] (.cut .endOfText)
  | openObject => .object [] (.cut .endOfText)
  | closeArray => .broken (some ']') (.always .malformed)
  | closeObject => .broken (some '\x7d') (.always .malformed)
  | comma => .broken (some ',') (.always .malformed)
  | colon => .broken (some ':') (.always .malformed)

/-- A token where a value is due. -/
def valueStep (frames : List Frame) (t : Token) : ParseStep :=
  match t with
  | .openArray => .next ⟨.firstItem, .array [] :: frames⟩
  | .openObject => .next ⟨.firstKey, .object [] none :: frames⟩
  | .null | .bool _ | .number _ | .text _ => .next ⟨.after t.draft, frames⟩
  | .broken _ _ | .closeArray | .closeObject | .comma | .colon => .stop (breakIn frames t.draft)

def keyStep (entries : List (DraftKey × Draft)) (frames : List Frame) (t : Token) : ParseStep :=
  match t with
  | .text k => .next ⟨.colon, .object entries k :: frames⟩
  | .broken '"' fault => .stop (breakAtKey entries frames fault fault.read)
  | t => .stop (breakAtKey entries frames (.always .malformed) t.draft.refusal)

def parseStep (s : ParseState) (t : Token) : ParseStep :=
  match s.due, s.frames, t with
  | .value, frames, t => valueStep frames t
  | .firstItem, .array _ :: frames, .closeArray => .next ⟨.after (.array [] .closed), frames⟩
  | .firstItem, frames, t => valueStep frames t
  | .firstKey, .object _ _ :: frames, .closeObject => .next ⟨.after (.object [] .closed), frames⟩
  | .firstKey, .object entries _ :: frames, t => keyStep entries frames t
  | .key, .object entries _ :: frames, t => keyStep entries frames t
  | .colon, frames, .colon => .next ⟨.value, frames⟩
  | .after v, .array items :: frames, .comma => .next ⟨.value, .array (v :: items) :: frames⟩
  | .after v, .array items :: frames, .closeArray =>
    .next ⟨.after (.array (v :: items).reverse .closed), frames⟩
  | .after v, .object entries k :: frames, .comma =>
    .next ⟨.key, .object ((.text k, v) :: entries) none :: frames⟩
  | .after v, .object entries k :: frames, .closeObject =>
    .next ⟨.after (.object ((.text k, v) :: entries).reverse .closed), frames⟩
  | .after v, frames, _ => .stop (breakAfter frames v .malformed)
  | _, frames, _ => .stop (breakIn frames (.broken (some ':') (.always .malformed)))

/-- The text ends in the middle. -/
def parseEnd (s : ParseState) : Document :=
  match s.due, s.frames with
  | .after v, frames => breakAfter frames v .endOfText
  | .firstItem, .array _ :: frames => breakIn frames (.array [] (.cut .endOfText))
  | .firstKey, .object entries _ :: frames | .key, .object entries _ :: frames =>
    breakAtKey entries frames (.always .endOfText) .endOfText
  | _, frames => breakIn frames .absent

/-- The machine on the tokens that are left. -/
def parseFrom : ParseState → List Token → Document
  | s, [] => parseEnd s
  | s, t :: rest =>
    match parseStep s t with
    | .next state => parseFrom state rest
    | .stop document => document

def Document.ofText (s : String) : Document :=
  parseFrom {} (tokens s)

end PlatformGuard.Json
