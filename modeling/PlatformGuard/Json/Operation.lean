import PlatformGuard.Json.Symbol
import PlatformGuard.Operation.Tag

/-!
# Operations as JSON

An operation is written as its kind and its span. The kind is an object with the tag `op`
beside the parts, or an array of the tag and the parts. A constant is written with the tag
`type` beside its `value`.

Reading goes through the value once, from the leaves up: for each value it finds out what it is as
an operation, as a list of operations and as a kind, and each is taken where it is asked for.
-/

namespace PlatformGuard

open Json

/-! ## Constants and operators -/

namespace BinaryOperator

def names : List (String × BinaryOperator) :=
  [("and", and), ("or", or), ("equals", equals), ("not_equals", notEquals), ("other", other)]

def name : BinaryOperator → String
  | and => "and"
  | or => "or"
  | equals => "equals"
  | notEquals => "not_equals"
  | other => "other"

end BinaryOperator

namespace UnaryOperator

def names : List (String × UnaryOperator) :=
  [("not", not), ("other", other)]

def name : UnaryOperator → String
  | not => "not"
  | other => "other"

end UnaryOperator

namespace LocalId

def toJson (x : LocalId) : Json :=
  .nat x.val.toNat

def ofJson (v : Json) : Except JsonError LocalId :=
  (readUInt32 v).map LocalId.mk

end LocalId

/-- A tag: a name or, where numbers are taken, the place of a name. -/
def readTagName {α : Type} (numbered : Bool) (names : List (String × α)) (v : Json) :
    Except JsonError α :=
  match v with
  | .text s => tagged names s
  | .int n =>
    match names[n.toNat]? with
    | some entry => if numbered && decide (0 ≤ n) then .ok entry.2 else .error .mismatch
    | none => .error .mismatch
  | _ => .error .mismatch

inductive ConstantTag where
  | bool
  | int
  | string
  | null
deriving Repr, DecidableEq

def ConstantTag.names : List (String × ConstantTag) :=
  [("bool", bool), ("int", int), ("string", string), ("null", null)]

namespace Constant

def toJson : Constant → Json
  | bool b => .object [("type", .text "bool"), ("value", .bool b)]
  | int n => .object [("type", .text "int"), ("value", .int n.toInt)]
  | string s => .object [("type", .text "string"), ("value", .text s)]
  | null => .object [("type", .text "null")]

def ofValue (tag : ConstantTag) (v : Json) : Except JsonError Constant :=
  match tag with
  | .bool => (readBool v).map bool
  | .int => (readInt64 v).map int
  | .string => (readText v).map string
  | .null =>
    match v with
    | .null => .ok null
    | _ => .error .mismatch

/-- A tag and a value. Only the null constant needs no value in an object. In an array the tag may
be the place of a name. -/
def ofJson (v : Json) : Except JsonError Constant := do
  let r ← readRecord ["type", "value"] v
  let tag ← r.required "type" fun tag =>
    if r.positional then readTagName true ConstantTag.names tag
    else readTag .held ConstantTag.names tag
  match r.find? "value", tag with
  | some value, tag => ofValue tag value
  | none, .null => if r.positional then throw .mismatch else return null
  | none, _ => throw .mismatch

end Constant

/-! ## Writing -/

namespace Operation

/-- An operation by its kind, parts and span. -/
def written (tag : OperationTag) (parts : List (String × Json)) (span : Span) : Json :=
  .object [("kind", .object (("op", Json.text tag.name) :: parts)), ("span", span.toJson)]

mutual
/-- The kind and the span; parts that are missing are left out. -/
def toJson : Operation → Json
  | block s ops => written .block [("operations", .array (toJsonAll ops))] s
  | conditional s c t e =>
    written .conditional
      ([("condition", toJson c), ("when_true", toJson t)] ++ toJsonField "when_false" e) s
  | loop s c b => written .loop (toJsonField "condition" c ++ [("body", toJson b)]) s
  | switch s v cs => written .switch [("value", toJson v), ("cases", .array (toJsonAll cs))] s
  | ret s v => written .ret (toJsonField "value" v) s
  | raise s v => written .raise (toJsonField "value" v) s
  | breakOut s => written .breakOut [] s
  | continueLoop s => written .continueLoop [] s
  | invocation s t r as =>
    written .invocation
      ([("target", t.toJson)] ++ toJsonField "instance" r ++
        [("arguments", .array (toJsonAll as))]) s
  | delegateInvocation s t as =>
    written .delegateInvocation [("target", toJson t), ("arguments", .array (toJsonAll as))] s
  | memberReference s m r =>
    written .memberReference ([("member", m.toJson)] ++ toJsonField "instance" r) s
  | methodReference s m => written .methodReference [("method", m.toJson)] s
  | objectCreation s c as =>
    written .objectCreation [("constructor", c.toJson), ("arguments", .array (toJsonAll as))] s
  | literal s v => written .literal [("value", v.toJson)] s
  | localReference s x => written .localReference [("local", x.toJson)] s
  | localAssignment s x v =>
    written .localAssignment ([("local", x.toJson)] ++ toJsonField "value" v) s
  | binary s op l r =>
    written .binary [("operator", .text op.name), ("left", toJson l), ("right", toJson r)] s
  | unary s op e => written .unary [("operator", .text op.name), ("operand", toJson e)] s
  | localFunction s f b => written .localFunction [("symbol", f.toJson), ("body", toJson b)] s
  | lambda s b => written .lambda [("body", toJson b)] s
  | other s cs => written .other [("children", .array (toJsonAll cs))] s

def toJsonAll : List Operation → List Json
  | [] => []
  | op :: ops => toJson op :: toJsonAll ops

/-- A field with an operation that may be missing. -/
def toJsonField (name : String) : Option Operation → List (String × Json)
  | none => []
  | some op => [(name, toJson op)]
end

/-! ## Reading -/

/-- A value with what it is as an operation, as a list of operations, and as the kind of an
operation. -/
structure Reading where
  value : Json
  operation : Except JsonError Operation
  operations : Except JsonError (List Operation)
  kind : Except JsonError (Span → Operation)

namespace Reading

def operation? (r : Reading) : Except JsonError (Option Operation) :=
  match r.value with
  | .null => .ok none
  | _ => r.operation.map some

end Reading

/-- The tag of a kind, and the layout of its parts. -/
def splitKind (numbered : Bool) : Layout Reading → Except JsonError (OperationTag × Layout Reading)
  | .named entries =>
    match entries.filter fun e => e.1 == "op" with
    | [tag] => do
      let tag ← readTagName numbered OperationTag.names tag.2.value
      return (tag, .named (entries.filter fun e => e.1 != "op"))
    | _ => .error .mismatch
  | .positional (tag :: items) => do
    let tag ← readTagName numbered OperationTag.names tag.value
    return (tag, .positional items)
  | .positional [] => .error .mismatch
  | .neither => .error .mismatch

def partNames : OperationTag → List String
  | .block => ["operations"]
  | .conditional => ["condition", "when_true", "when_false"]
  | .loop => ["condition", "body"]
  | .switch => ["value", "cases"]
  | .ret | .raise => ["value"]
  | .breakOut | .continueLoop => []
  | .invocation => ["target", "instance", "arguments"]
  | .delegateInvocation => ["target", "arguments"]
  | .memberReference => ["member", "instance"]
  | .methodReference => ["method"]
  | .objectCreation => ["constructor", "arguments"]
  | .literal => ["value"]
  | .localReference => ["local"]
  | .localAssignment => ["local", "value"]
  | .binary => ["operator", "left", "right"]
  | .unary => ["operator", "operand"]
  | .localFunction => ["symbol", "body"]
  | .lambda => ["body"]
  | .other => ["children"]

def ofParts (tag : OperationTag) (r : Record Reading) : Except JsonError (Span → Operation) := do
  let operation := fun name => r.required name Reading.operation
  let operation? := fun name => r.withDefault name none Reading.operation?
  let operations := fun name => r.required name Reading.operations
  let operationsOrNone := fun name => r.withDefault name [] Reading.operations
  let symbol := fun name => r.required name fun v => SymbolId.ofJson v.value
  let var := fun name => r.required name fun v => LocalId.ofJson v.value
  match tag with
  | .block =>
    let ops ← operations "operations"
    return fun s => .block s ops
  | .conditional =>
    let c ← operation "condition"
    let t ← operation "when_true"
    let e ← operation? "when_false"
    return fun s => .conditional s c t e
  | .loop =>
    let c ← operation? "condition"
    let b ← operation "body"
    return fun s => .loop s c b
  | .switch =>
    let v ← operation "value"
    let cs ← operations "cases"
    return fun s => .switch s v cs
  | .ret =>
    let v ← operation? "value"
    return fun s => .ret s v
  | .raise =>
    let v ← operation? "value"
    return fun s => .raise s v
  | .breakOut => return fun s => .breakOut s
  | .continueLoop => return fun s => .continueLoop s
  | .invocation =>
    let t ← symbol "target"
    let receiver ← operation? "instance"
    let as ← operationsOrNone "arguments"
    return fun s => .invocation s t receiver as
  | .delegateInvocation =>
    let t ← operation "target"
    let as ← operationsOrNone "arguments"
    return fun s => .delegateInvocation s t as
  | .memberReference =>
    let m ← symbol "member"
    let receiver ← operation? "instance"
    return fun s => .memberReference s m receiver
  | .methodReference =>
    let m ← symbol "method"
    return fun s => .methodReference s m
  | .objectCreation =>
    let c ← symbol "constructor"
    let as ← operationsOrNone "arguments"
    return fun s => .objectCreation s c as
  | .literal =>
    let v ← r.required "value" fun v => Constant.ofJson v.value
    return fun s => .literal s v
  | .localReference =>
    let x ← var "local"
    return fun s => .localReference s x
  | .localAssignment =>
    let x ← var "local"
    let v ← operation? "value"
    return fun s => .localAssignment s x v
  | .binary =>
    let op ← r.required "operator" fun v => readTag .held BinaryOperator.names v.value
    let left ← operation "left"
    let right ← operation "right"
    return fun s => .binary s op left right
  | .unary =>
    let op ← r.required "operator" fun v => readTag .held UnaryOperator.names v.value
    let e ← operation "operand"
    return fun s => .unary s op e
  | .localFunction =>
    let f ← symbol "symbol"
    let b ← operation "body"
    return fun s => .localFunction s f b
  | .lambda =>
    let b ← operation "body"
    return fun s => .lambda s b
  | .other =>
    let cs ← operationsOrNone "children"
    return fun s => .other s cs

def kindOf (numbered : Bool) (layout : Layout Reading) : Except JsonError (Span → Operation) := do
  let (tag, parts) ← splitKind numbered layout
  let r ← Record.ofLayout (partNames tag) parts
  ofParts tag r

def operationOf (layout : Layout Reading) : Except JsonError Operation := do
  let r ← Record.ofLayout ["kind", "span"] layout
  let kind ← r.required "kind" Reading.kind
  let span ← r.withDefault "span" {} fun v => Span.ofJson v.value
  return kind span

mutual
def reading : Json → Reading
  | .array items =>
    let parts := readings items
    { value := .array items
      operation := operationOf (.positional parts)
      operations := parts.mapM Reading.operation
      kind := kindOf true (.positional parts) }
  | .object entries =>
    let parts := readingEntries entries
    { value := .object entries
      operation := operationOf (.named parts)
      operations := .error .mismatch
      kind := kindOf true (.named parts) }
  | v =>
    { value := v, operation := .error .mismatch, operations := .error .mismatch,
      kind := .error .mismatch }

def readings : List Json → List Reading
  | [] => []
  | v :: rest => reading v :: readings rest

def readingEntries : List (String × Json) → List (String × Reading)
  | [] => []
  | (k, v) :: rest => (k, reading v) :: readingEntries rest
end

/-- The kind that a value is, where its tag is not held aside. -/
def kindOfJson : Json → Except JsonError (Span → Operation)
  | .array items => kindOf false (.positional (readings items))
  | .object entries => kindOf false (.named (readingEntries entries))
  | _ => .error .mismatch

def ofJson (v : Json) : Except JsonError Operation := do
  let r ← readRecord ["kind", "span"] v
  let kind ← r.required "kind" kindOfJson
  let span ← r.withDefault "span" {} Span.ofJson
  return kind span

def form : Form Operation where
  shape := .record
    [("kind", .required, .tagged "op" (OperationTag.names.map (·.1)) fun v => (kindOfJson v).isOk),
     ("span", .optional, Span.form.shape)]
  read := ofJson

end Operation

end PlatformGuard
