import PlatformGuard.Cancellation
import PlatformGuard.Check
import PlatformGuard.Compilation
import PlatformGuard.Walk.Operation

/-!
# The analysis of a body

A body is walked from the worlds its owner's contract allows; then each of its callables is walked,
from the worlds in which it is invoked or, where these cannot be known, from those its contract
allows. Each use of a symbol on the way is checked against the contract of the symbol.

Contracts are remembered across bodies. A body whose walk is cancelled has no findings at all.
-/

namespace PlatformGuard

/-- What the analyses of all bodies share. -/
structure Session where
  cache : ContractCache := .empty
  cancellation : Cancellation := .never

/-- What a body keeps to itself while it is walked. -/
structure BodyRecord where
  /-- The worlds in which each callable was invoked. -/
  invoked : List (CallableKey × Worlds) := []
  diagnostics : List Diagnostic := []

/-- What is known while a body is walked. -/
structure BodyState extends BodyRecord where
  session : Session

/-- The unit that is being walked. -/
structure WalkUnit where
  key : CallableKey
  file : String
  /-- The contract of the code of the unit. -/
  enclosing : Contract

namespace BodyRecord

def invokedIn? (r : BodyRecord) (callee : CallableKey) : Option Worlds :=
  (r.invoked.find? fun e => e.1 = callee).map (·.2)

/-- Records an invocation. What a unit knows of itself adds nothing. -/
def recordInvocation (r : BodyRecord) (unit callee : CallableKey) (w : Worlds) : BodyRecord :=
  if callee = unit then r
  else
    let joined := match r.invokedIn? callee with
      | some known => known.union w
      | none => w
    { r with invoked := (callee, joined) :: r.invoked.filter fun e => e.1 ≠ callee }

/-- Checks a use of a symbol with a contract. -/
def recordUse (r : BodyRecord) (d : Declarations) (unit : WalkUnit) (contract : Contract)
    (target : SymbolId) (span : Span) (w : Worlds) : BodyRecord :=
  if contract.isEmpty then r
  else
    let use : Use :=
      { target := d.table.displayName target
        contract
        worlds := w
        enclosing := unit.enclosing
        location := .ofSpan unit.file span }
    { r with diagnostics := r.diagnostics ++ use.check }

/-- The worlds from which a callable is walked. -/
def entryWorlds (r : BodyRecord) (callable : CallableDef) (cyclic : Bool) (allowed : Worlds) :
    Worlds :=
  match r.invokedIn? callable.key with
  | some invoked => if callable.escapes || cyclic then allowed else invoked.inter allowed
  | none => allowed

end BodyRecord

namespace BodyState

def contract (s : BodyState) (d : Declarations) (id : SymbolId) : Contract × BodyState :=
  let (contract, cache) := s.session.cache.contract d id
  (contract, { s with session := { s.session with cache } })

def recordInvocation (s : BodyState) (unit callee : CallableKey) (w : Worlds) : BodyState :=
  { s with toBodyRecord := s.toBodyRecord.recordInvocation unit callee w }

def recordUse (s : BodyState) (d : Declarations) (unit : WalkUnit) (target : SymbolId) (span : Span)
    (w : Worlds) : BodyState :=
  let (contract, s) := s.contract d target
  { s with toBodyRecord := s.toBodyRecord.recordUse d unit contract target span w }

/-- Goes through the events of a unit, unless one of them fails. -/
def follow (d : Declarations) (unit : WalkUnit) :
    List WalkEvent → BodyState → BodyState × Except AnalysisError Unit
  | [], s => (s, .ok ())
  | .poll :: rest, s =>
    match s.session.cancellation.poll with
    | .ok left => follow d unit rest { s with session := { s.session with cancellation := left } }
    | .error e => (s, .error e)
  | .use target span w :: rest, s => follow d unit rest (s.recordUse d unit target span w)
  | .invoke callee w :: rest, s => follow d unit rest (s.recordInvocation unit.key callee w)

end BodyState

/-- The analysis of a body: its walk, and what its callables start from where nothing better is
known. -/
structure BodyAnalysis where
  declarations : Declarations
  scope : WalkScope
  file : String
  /-- The contract of the owner of the body. -/
  contract : Contract

namespace BodyAnalysis

def walkUnit (a : BodyAnalysis) (unit : WalkUnit) (code : Operation) (entry : Worlds)
    (s : BodyState) : BodyState × Except AnalysisError Unit :=
  s.follow a.declarations unit ((code.walk a.scope).visit entry).events

/-- The contract of the code of a callable: a local function has its own, a lambda that of the
body. -/
def callableContract (a : BodyAnalysis) (key : CallableKey) (s : BodyState) :
    Contract × BodyState :=
  match key with
  | .function symbol => s.contract a.declarations symbol
  | _ => (a.contract, s)

def walkCallables (a : BodyAnalysis) :
    List (CallableKey × Bool) → BodyState → BodyState × Except AnalysisError Unit
  | [], s => (s, .ok ())
  | (key, cyclic) :: rest, s =>
    match a.scope.callables.get? key with
    | none => walkCallables a rest s
    | some d =>
      let (contract, s) := a.callableContract key s
      let entry := s.entryWorlds d cyclic contract.allowedWorlds
      match a.walkUnit { key, file := a.file, enclosing := contract } d.body entry s with
      | (s, .ok ()) => walkCallables a rest s
      | (s, .error e) => (s, .error e)

/-- Walks a body and then its callables. -/
def run (a : BodyAnalysis) (body : Operation) (s : BodyState) :
    BodyState × Except AnalysisError Unit :=
  let unit : WalkUnit := { key := .body, file := a.file, enclosing := a.contract }
  match a.walkUnit unit body a.contract.allowedWorlds s with
  | (s, .ok ()) => a.walkCallables a.scope.callables.walkOrder s
  | (s, .error e) => (s, .error e)

end BodyAnalysis

/-- The findings of a body in the order of the walk, unless it was given up; and the session after
it. -/
def analyzeBody (reader : GuardReader) (body : MethodBody) (session : Session) :
    Except AnalysisError (List Diagnostic) × Session :=
  let d := reader.declarations
  let (contract, s) := BodyState.contract { session } d body.owner
  let analysis : BodyAnalysis :=
    { declarations := d, scope := .ofBody reader body.body, file := body.file, contract }
  match analysis.run body.body s with
  | (s, .ok ()) => (.ok s.diagnostics, s.session)
  | (s, .error e) => (.error e, s.session)

end PlatformGuard
