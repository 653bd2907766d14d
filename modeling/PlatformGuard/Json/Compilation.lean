import PlatformGuard.Compilation
import PlatformGuard.Json.Operation

/-!
# Compilations as JSON

`Compilation.ofJson` reads from a value; `Compilation.parse` reads from a text.
-/

namespace PlatformGuard

open Json

namespace MethodBody

def toJson (b : MethodBody) : Json :=
  .object [("owner", b.owner.toJson), ("file", .text b.file), ("body", b.body.toJson)]

def ofJson (v : Json) : Except JsonError MethodBody := do
  let r ← readRecord ["owner", "file", "body"] v
  return {
    owner := ← r.required "owner" SymbolId.ofJson
    file := ← r.withDefault "file" "" readText
    body := ← r.required "body" Operation.ofJson }

def form : Form MethodBody where
  shape := .record
    [("owner", .required, SymbolId.form.shape), ("file", .optional, .text),
      ("body", .required, Operation.form.shape)]
  read := ofJson

end MethodBody

namespace Compilation

def toJson (c : Compilation) : Json :=
  .object <|
    [("name", Json.text c.name)] ++ field? "target_framework" .text c.targetFramework ++
    [("symbols", c.symbols.toJson), ("bodies", .list MethodBody.toJson c.bodies)]

def ofJson (v : Json) : Except JsonError Compilation := do
  let r ← readRecord ["name", "target_framework", "symbols", "bodies"] v
  return {
    name := ← r.required "name" readText
    targetFramework := ← r.optional "target_framework" readText
    symbols := ← r.withDefault "symbols" .empty SymbolTable.ofJson
    bodies := ← r.withDefault "bodies" [] (readList MethodBody.ofJson) }

def form : Form Compilation where
  shape := .record
    [("name", .required, .text), ("target_framework", .optional, .nullable .text),
     ("symbols", .optional, SymbolTable.form.shape),
     ("bodies", .optional, .list MethodBody.form.shape)]
  read := ofJson

def parse (s : String) : Except JsonError Compilation :=
  form.parse s

end Compilation

/-- Why a compilation could not be read from a file. -/
inductive LoadError where
  /-- There is no such file, or it holds no text. -/
  | unreadable
  | json (error : JsonError)
deriving Repr, DecidableEq

namespace Compilation

def withoutByteOrderMarks (text : String) : String :=
  String.ofList (text.toList.dropWhile (· == '\uFEFF'))

/-- Reads a compilation from the bytes of a file, if there is one. -/
def ofFile (bytes : Option ByteArray) : Except LoadError Compilation :=
  match bytes.bind String.fromUTF8? with
  | some content => (parse (withoutByteOrderMarks content)).mapError .json
  | none => .error .unreadable

end Compilation

end PlatformGuard
