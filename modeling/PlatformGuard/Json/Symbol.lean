import PlatformGuard.Json.Read
import PlatformGuard.Symbol.Table

/-!
# Positions and symbols as JSON

Fields that say nothing are left out, except the spans, which are always written.
-/

namespace PlatformGuard

open Json

namespace Position

def toJson (p : Position) : Json :=
  .object [("line", .nat p.line.toNat), ("column", .nat p.column.toNat),
    ("offset", .nat p.offset.toNat)]

def ofJson (v : Json) : Except JsonError Position := do
  let r ← readRecord ["line", "column", "offset"] v
  return {
    line := ← r.required "line" readUInt64
    column := ← r.required "column" readUInt64
    offset := ← r.withDefault "offset" 0 readUInt64 }

def form : Form Position where
  shape := .record
    [("line", .required, .natural UInt64.size), ("column", .required, .natural UInt64.size),
     ("offset", .optional, .natural UInt64.size)]
  read := ofJson

end Position

namespace Span

def toJson (s : Span) : Json :=
  .object [("start", s.start.toJson), ("end", s.stop.toJson)]

def ofJson (v : Json) : Except JsonError Span := do
  let r ← readRecord ["start", "end"] v
  return ⟨← r.required "start" Position.ofJson, ← r.required "end" Position.ofJson⟩

def form : Form Span where
  shape := .record
    [("start", .required, Position.form.shape), ("end", .required, Position.form.shape)]
  read := ofJson

end Span

namespace SymbolId

def toJson (id : SymbolId) : Json :=
  .nat id.val.toNat

def ofJson (v : Json) : Except JsonError SymbolId :=
  (readUInt32 v).map SymbolId.mk

def form : Form SymbolId := ⟨.natural UInt32.size, ofJson⟩

end SymbolId

namespace SymbolKind

def names : List (String × SymbolKind) :=
  [("assembly", assembly), ("type", type), ("method", method), ("constructor", constructor),
   ("property", property), ("field", field), ("event", event), ("accessor", accessor),
   ("local_function", localFunction)]

def name : SymbolKind → String
  | assembly => "assembly"
  | type => "type"
  | method => "method"
  | constructor => "constructor"
  | property => "property"
  | field => "field"
  | event => "event"
  | accessor => "accessor"
  | localFunction => "local_function"

end SymbolKind

namespace AttributeKind

def names : List (String × AttributeKind) :=
  [("supported", supported), ("unsupported", unsupported), ("obsoleted", obsoleted),
   ("supported_guard", supportedGuard), ("unsupported_guard", unsupportedGuard)]

def name : AttributeKind → String
  | supported => "supported"
  | unsupported => "unsupported"
  | obsoleted => "obsoleted"
  | supportedGuard => "supported_guard"
  | unsupportedGuard => "unsupported_guard"

end AttributeKind

namespace PlatformAttribute

def toJson (a : PlatformAttribute) : Json :=
  .object <|
    [("kind", Json.text a.kind.name), ("platform", .text a.platform)] ++
    field? "message" .text a.message ++ field? "url" .text a.url ++ [("span", a.span.toJson)]

def ofJson (v : Json) : Except JsonError PlatformAttribute := do
  let r ← readRecord ["kind", "platform", "message", "url", "span"] v
  return {
    kind := ← r.required "kind" (readTag .direct AttributeKind.names)
    platform := ← r.required "platform" readText
    message := ← r.optional "message" readText
    url := ← r.optional "url" readText
    span := ← r.withDefault "span" {} Span.ofJson }

def form : Form PlatformAttribute where
  shape := .record
    [("kind", .required, (Form.name AttributeKind.names).shape), ("platform", .required, .text),
     ("message", .optional, .nullable .text), ("url", .optional, .nullable .text),
     ("span", .optional, Span.form.shape)]
  read := ofJson

end PlatformAttribute

/-- A field that is left out when the list is empty. -/
def listField {α : Type} (name : String) (write : α → Json) (items : List α) :
    List (String × Json) :=
  if items.isEmpty then [] else [(name, .list write items)]

namespace Symbol

def toJson (s : Symbol) : Json :=
  .object <|
    [("id", s.id.toJson), ("name", .text s.name), ("kind", .text s.kind.name)] ++
    field? "containing" SymbolId.toJson s.containing ++
    field? "associated" SymbolId.toJson s.associated ++
    listField "implements" SymbolId.toJson s.implements ++
    listField "attributes" PlatformAttribute.toJson s.attributes ++
    field? "file" .text s.file

def ofJson (v : Json) : Except JsonError Symbol := do
  let r ← readRecord
    ["id", "name", "kind", "containing", "associated", "implements", "attributes", "file"] v
  return {
    id := ← r.required "id" SymbolId.ofJson
    name := ← r.required "name" readText
    kind := ← r.required "kind" (readTag .direct SymbolKind.names)
    containing := ← r.optional "containing" SymbolId.ofJson
    associated := ← r.optional "associated" SymbolId.ofJson
    implements := ← r.withDefault "implements" [] (readList SymbolId.ofJson)
    attributes := ← r.withDefault "attributes" [] (readList PlatformAttribute.ofJson)
    file := ← r.optional "file" readText }

def form : Form Symbol where
  shape := .record
    [("id", .required, SymbolId.form.shape), ("name", .required, .text),
     ("kind", .required, (Form.name SymbolKind.names).shape),
     ("containing", .optional, .nullable SymbolId.form.shape),
     ("associated", .optional, .nullable SymbolId.form.shape),
     ("implements", .optional, .list SymbolId.form.shape),
     ("attributes", .optional, .list PlatformAttribute.form.shape),
     ("file", .optional, .nullable .text)]
  read := ofJson

end Symbol

namespace SymbolTable

def toJson (t : SymbolTable) : Json :=
  .list Symbol.toJson t.toList

def ofJson (v : Json) : Except JsonError SymbolTable :=
  (readList Symbol.ofJson v).map ofSymbols

def form : Form SymbolTable := ⟨.list Symbol.form.shape, ofJson⟩

end SymbolTable

end PlatformGuard
