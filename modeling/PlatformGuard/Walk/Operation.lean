import PlatformGuard.Guard.Expression
import PlatformGuard.Walk.Basic

/-!
# The walk of an operation

Which combinator each kind of operation is walked by. Definitions of local functions and lambdas are
passed over here; callables are walked on their own.
-/

namespace PlatformGuard

/-- How a guard expression splits. Its checks are not events: they were visited where
the local was assigned. -/
def GuardExpr.split : GuardExpr → Worlds → Split
  | constant b, w => if b then ⟨[.poll], w, .none⟩ else ⟨[.poll], .none, w⟩
  | check g, w => ⟨[.poll], w.inter g.worlds, w.sdiff g.worlds⟩
  | not e, w =>
    let s := e.split w
    ⟨.poll :: s.events, s.whenFalse, s.whenTrue⟩
  | and a b, w =>
    let l := a.split w
    let r := b.split l.whenTrue
    ⟨.poll :: (l.events ++ r.events), r.whenTrue, l.whenFalse.union r.whenFalse⟩
  | or a b, w =>
    let l := a.split w
    let r := b.split l.whenFalse
    ⟨.poll :: (l.events ++ r.events), l.whenTrue.union r.whenTrue, r.whenFalse⟩
  | compare keeps e, w =>
    let s := e.split w
    if keeps then ⟨.poll :: s.events, s.whenTrue, s.whenFalse⟩
    else ⟨.poll :: s.events, s.whenFalse, s.whenTrue⟩

/-- What the walk of a body needs to know of the whole body and its compilation. -/
structure WalkScope where
  reader : GuardReader
  cached : CachedGuards
  callables : CallableIndex
  /-- The type with the assertion method. -/
  debugType : Option SymbolId

namespace WalkScope

def ofBody (reader : GuardReader) (body : Operation) : WalkScope where
  reader
  cached := .ofBody reader body
  callables := .ofBody body
  debugType := reader.declarations.table.findType? CheckApi.debugType

/-- Whether a symbol is the assertion method. -/
def isAssertion (scope : WalkScope) (target : SymbolId) : Bool :=
  scope.debugType.isSome &&
    match scope.reader.declarations.table.get? target with
    | some s => s.containing = scope.debugType && s.name == CheckApi.assert
    | none => false

def callWorlds? (scope : WalkScope) (target : SymbolId) (arguments : List Operation) :
    Option Worlds :=
  (scope.reader.ofCall? target arguments).map Guard.worlds

def memberWorlds? (scope : WalkScope) (member : SymbolId) : Option Worlds :=
  (scope.reader.ofMember? member).map Guard.worlds

end WalkScope

namespace Operation

mutual
def walk (scope : WalkScope) : Operation → Walk
  | .block _ operations => .sequence (walkAll scope operations)
  | .other _ children => .sequence (walkAll scope children)
  | .conditional _ condition whenTrue whenFalse =>
    .conditional (walk scope condition) (walk scope whenTrue) (walkOption scope whenFalse)
  | .loop _ condition body => .loop (walkOption scope condition) (walk scope body)
  | .switch _ value cases => .switch (walk scope value) (walkAll scope cases)
  | .ret _ value => .leave (walkOption scope value)
  | .raise _ value => .leave (walkOption scope value)
  | .breakOut _ => .leave none
  | .continueLoop _ => .leave none
  | .invocation span target receiver arguments =>
    let guard := scope.callWorlds? target arguments
    let event :=
      if scope.callables.isLocalFunction target then WalkEvent.invoke (.function target)
      else .use target span
    let receiver := walkOption scope receiver
    match scope.isAssertion target, walkAll scope arguments with
    | true, condition :: rest => .assertion guard receiver condition rest
    | _, arguments => .call guard event receiver arguments
  | .delegateInvocation _ target arguments =>
    let visited := Walk.delegate (walk scope target) (walkAll scope arguments)
    match target.local? with
    | some x =>
      if scope.callables.isLambda x then
        .lambdaCall (.invoke (.lambda x)) (walkAll scope arguments)
      else visited
    | none => visited
  | .memberReference span member receiver =>
    .member (scope.memberWorlds? member) (.use member span) (walkOption scope receiver)
  | .methodReference span method =>
    if scope.callables.isLocalFunction method then .idle else .member none (.use method span) none
  | .objectCreation span constructor arguments =>
    .call none (.use constructor span) none (walkAll scope arguments)
  | .literal _ (.bool b) => .truth b
  | .literal _ _ => .idle
  | .localReference _ x =>
    match scope.cached.find? x with
    | some e => .cachedLocal e.split
    | none => .idle
  | .localAssignment _ _ value => .assignment (walkOption scope value)
  | .unary _ operator operand =>
    match operator with
    | .not => .negation (walk scope operand)
    | .other => .plainOperator [walk scope operand]
  | .binary _ operator left right =>
    let onLeft := walk scope left
    let onRight := walk scope right
    match operator with
    | .and => .conjunction onLeft onRight
    | .or => .disjunction onLeft onRight
    | .equals | .notEquals =>
      match comparedSide? left right with
      | some (.left b) => .comparison (operator.keepsOperand b) onLeft
      | some (.right b) => .comparison (operator.keepsOperand b) onRight
      | none => .plainOperator [onLeft, onRight]
    | .other => .plainOperator [onLeft, onRight]
  | .localFunction _ _ _ => .idle
  | .lambda _ _ => .idle

def walkAll (scope : WalkScope) : List Operation → List Walk
  | [] => []
  | op :: ops => walk scope op :: walkAll scope ops

def walkOption (scope : WalkScope) : Option Operation → Option Walk
  | none => none
  | some op => some (walk scope op)
end

end Operation

end PlatformGuard
