import PlatformGuard.Callable.Search
import PlatformGuard.Operation.Basic

/-!
# Local functions and lambdas

A body may define local functions and lambdas. They are walked after the body, each with what is
known at the places that invoke it. A callable that is used in any other way escapes: it may be
invoked from anywhere.

* `CallableIndex.ofBody`: the callables of a body, what escapes, and who invokes whom.
* `CallableIndex.walkOrder`: the order in which callables are walked, invokers before those they
  invoke, and whether each is part of a cycle of several.
-/

namespace PlatformGuard

/-- What can be walked on its own. -/
inductive CallableKey where
  /-- The body itself. -/
  | body
  | function (symbol : SymbolId)
  /-- A lambda held by a local. -/
  | lambda (var : LocalId)
  /-- A lambda used directly as a value, numbered in the order of the text. -/
  | anonymous (number : Nat)
deriving DecidableEq, Repr, Inhabited

def CallableKey.text : CallableKey → String
  | body => "body"
  | function symbol => "function " ++ symbol.text
  | lambda x => "lambda " ++ x.text
  | anonymous n => "anonymous " ++ Text.number n

structure CallableDef where
  key : CallableKey
  body : Operation
  /-- Whether it may be invoked from anywhere. -/
  escapes : Bool

/-! ## Definitions -/

/-- Where a callable is defined. -/
inductive DefinitionSite where
  | function (symbol : SymbolId) (body : Operation)
  | lambda (var : LocalId) (body : Operation)
  | anonymous (body : Operation)

/-- The definition sites of an operation, and those strictly below it. -/
structure DefinitionSites where
  all : List DefinitionSite
  below : List DefinitionSite

/-- The definition sites of an operation in the order of the text. A lambda that is assigned to a
local belongs to the local. -/
def Operation.definitionSites : Operation → DefinitionSites :=
  fold fun op parts =>
    let inner := parts.flatMap (·.all)
    match op with
    | .localFunction _ symbol body => ⟨.function symbol body :: inner, inner⟩
    | .localAssignment _ x (some (.lambda _ body)) =>
      ⟨.lambda x body :: parts.flatMap (·.below), inner⟩
    | .lambda _ body => ⟨.anonymous body :: inner, inner⟩
    | _ => ⟨inner, inner⟩

/-- The definitions at sites, with anonymous lambdas numbered from a number on. These escape. -/
def defineFrom : Nat → List DefinitionSite → List CallableDef
  | _, [] => []
  | n, .function symbol body :: rest => ⟨.function symbol, body, false⟩ :: defineFrom n rest
  | n, .lambda x body :: rest => ⟨.lambda x, body, false⟩ :: defineFrom n rest
  | n, .anonymous body :: rest => ⟨.anonymous n, body, true⟩ :: defineFrom (n + 1) rest

def firstDefinitions : List CallableDef → List CallableDef
  | [] => []
  | d :: rest => d :: (firstDefinitions rest).filter fun e => e.key ≠ d.key

/-! ## Uses -/

/-- A use of a callable. -/
inductive CallableUse where
  | invoke (callee : CallableKey)
  | escape (callee : CallableKey)

/-- The uses of callables in one unit, without those in the callables it defines. -/
def Operation.callableUses (defined : CallableKey → Bool) : Operation → List CallableUse :=
  fold fun op parts =>
    match op with
    | .localFunction .. | .lambda .. => []
    | .invocation _ target _ _ =>
      (if defined (.function target) then [.invoke (.function target)] else []) ++ parts.flatten
    | .delegateInvocation _ (.localReference _ x) _ =>
      if defined (.lambda x) then .invoke (.lambda x) :: parts.tail.flatten else parts.flatten
    | .methodReference _ method => [.escape (.function method)]
    | .localReference _ x => [.escape (.lambda x)]
    | _ => parts.flatten

def Operation.assignmentCount (body : Operation) (x : LocalId) : Nat :=
  body.subterms.countP fun
    | .localAssignment _ y (some _) => y = x
    | _ => false

/-- The callables of a body. -/
structure CallableIndex where
  defs : List CallableDef
  /-- Who invokes whom, each pair once, in the order of first appearance. -/
  invocations : List (CallableKey × CallableKey)

namespace CallableIndex

def size (index : CallableIndex) : Nat := index.defs.length

def get? (index : CallableIndex) (key : CallableKey) : Option CallableDef :=
  index.defs.find? fun d => d.key = key

def isLocalFunction (index : CallableIndex) (symbol : SymbolId) : Bool :=
  (index.get? (.function symbol)).isSome

/-- Whether a local holds a lambda of the body. -/
def isLambda (index : CallableIndex) (x : LocalId) : Bool :=
  (index.get? (.lambda x)).isSome

/-- Adds a pair to a list of pairs that lacks it. -/
def addInvocation (pairs : List (CallableKey × CallableKey)) (pair : CallableKey × CallableKey) :
    List (CallableKey × CallableKey) :=
  if pair ∈ pairs then pairs else pairs ++ [pair]

/-- The callables of a body. A lambda whose local is given a value more than once escapes, for the
local may hold something else. -/
def ofBody (body : Operation) : CallableIndex :=
  let defs := firstDefinitions (defineFrom 0 body.definitionSites.all)
  let defined := fun key => defs.any fun d => d.key = key
  let units := (CallableKey.body, body) :: defs.map fun d => (d.key, d.body)
  let uses := units.flatMap fun u => (u.2.callableUses defined).map fun use => (u.1, use)
  let escaping := uses.filterMap fun
    | (_, .escape callee) => some callee
    | _ => none
  let reassigned := fun
    | .lambda x => decide (1 < body.assignmentCount x)
    | _ => false
  { defs := defs.map fun d =>
      { d with escapes := d.escapes || reassigned d.key || escaping.contains d.key }
    invocations := (uses.filterMap fun
      | (unit, .invoke callee) => some (unit, callee)
      | _ => none).foldl addInvocation [] }

/-- The callables that a unit invokes, the latest first. -/
def callees (index : CallableIndex) (unit : CallableKey) : List CallableKey :=
  ((index.invocations.filter fun e => e.1 = unit).map (·.2)).reverse

/-- The body and its callables. -/
def units (index : CallableIndex) : List CallableKey :=
  .body :: index.defs.map (·.key)

/-- The callables of some components, each with whether its component has others. -/
def orderOf (components : List (List CallableKey)) : List (CallableKey × Bool) :=
  (components.flatMap fun component =>
    component.map fun key => (key, decide (1 < component.length))).filter fun e => e.1 ≠ .body

/-- The order in which callables are walked, each with whether it is on a cycle with others. -/
def walkOrder (index : CallableIndex) : List (CallableKey × Bool) :=
  orderOf (Search.components index.callees index.units)

end CallableIndex

end PlatformGuard
