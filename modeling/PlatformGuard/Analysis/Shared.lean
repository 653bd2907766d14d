import PlatformGuard.Analysis.Body

/-!
# Analyses side by side

The bodies of a compilation are analysed at the same time. They share one set of remembered
contracts and one cancellation, and nothing else. Here an analysis is a process: it takes one step
after the other on what is shared, and steps of other analyses may come between any two of them.

What the attributes on a symbol say, and its contract, are looked up, put together where they are
missing, and added. Where another analysis has added them in the meantime, what was added first
stays, and is the answer.

On its own, a process does what `analyzeBody` does.
-/

namespace PlatformGuard

/-- A step on what is shared. -/
inductive Access where
  | poll
  | attributes (id : SymbolId)
  | addAttributes (id : SymbolId) (declared : Declared)
  | contract (id : SymbolId)
  | addContract (id : SymbolId) (contract : Contract)

def Access.Answer : Access → Type
  | poll => Except AnalysisError Unit
  | attributes _ => Option Declared
  | addAttributes _ _ => Declared
  | contract _ => Option Contract
  | addContract _ _ => Contract

def Session.serve (s : Session) : (access : Access) → access.Answer × Session
  | .poll =>
    match s.cancellation.poll with
    | .ok left => (.ok (), { s with cancellation := left })
    | .error e => (.error e, s)
  | .attributes id => (s.cache.attributes[id]?, s)
  | .addAttributes id declared =>
    match s.cache.attributes[id]? with
    | some first => (first, s)
    | none => (declared, { s with cache := s.cache.rememberAttributes id declared })
  | .contract id => (s.cache.get? id, s)
  | .addContract id contract =>
    match s.cache.get? id with
    | some first => (first, s)
    | none => (contract, { s with cache := s.cache.remember id contract })

/-- Steps on what is shared, each told by the answers to those before it, up to a result. -/
inductive Process (α : Type) where
  | done (result : α)
  | ask (access : Access) (next : access.Answer → Process α)

namespace Process

variable {α β : Type}

def bind : Process α → (α → Process β) → Process β
  | done a, f => f a
  | ask access next, f => ask access fun answer => (next answer).bind f

instance : Monad Process where
  pure := done
  bind := bind

def poll : Process (Except AnalysisError Unit) := ask .poll done

def attributes? (id : SymbolId) : Process (Option Declared) := ask (.attributes id) done

def addAttributes (id : SymbolId) (declared : Declared) : Process Declared :=
  ask (.addAttributes id declared) done

def contract? (id : SymbolId) : Process (Option Contract) := ask (.contract id) done

def addContract (id : SymbolId) (contract : Contract) : Process Contract :=
  ask (.addContract id contract) done

/-- One process and then another, unless the first one fails. -/
def andThen (p : Process (Except AnalysisError α)) (f : α → Process (Except AnalysisError β)) :
    Process (Except AnalysisError β) := do
  match ← p with
  | .ok a => f a
  | .error e => return .error e

/-- Takes all steps in a row. -/
def run : Process α → Session → α × Session
  | done a, s => (a, s)
  | ask access next, s =>
    let (answer, s) := s.serve access
    (next answer).run s

/-! ## Contracts -/

def declared (d : Declarations) (id : SymbolId) : Process Declared := do
  match ← attributes? id with
  | some known => return known
  | none => addAttributes id (d.declared id)

/-- Merges the layers of scopes from outside in. -/
def mergeLayers (d : Declarations) (c : Contract) : List SymbolId → Process Contract
  | [] => return c
  | scope :: rest => do
    let declared ← declared d scope
    mergeLayers d (c.mergeChild declared.layer) rest

mutual
/-- The contract of a symbol while those of `visiting` are being built. -/
def resolve (d : Declarations) (visiting : List SymbolId) (id : SymbolId) : Process Contract := do
  match ← contract? id with
  | some contract => return contract
  | none =>
    if _ : id ∈ visiting then return .empty
    else
      match _ : d.table.get? id with
      | none => addContract id .empty
      | some s =>
        let scopes := d.scopes id
        let outer ← mergeLayers d .empty scopes.1
        let implemented := s.implements.filter fun i => decide (i ≠ id)
        let merged ← mergeResolved d (id :: visiting) implemented outer
        let inner ← mergeLayers d merged (scopes.2 ++ s.associated.toList ++ [id])
        addContract id inner
termination_by (d.table.unvisited visiting, 0)
decreasing_by exact Prod.Lex.left _ _ (SymbolTable.unvisited_cons_lt ‹_› ‹_›)

def mergeResolved (d : Declarations) (visiting : List SymbolId) (ids : List SymbolId)
    (outer : Contract) : Process Contract :=
  match ids with
  | [] => return outer
  | id :: rest => do
    let contract ← resolve d visiting id
    mergeResolved d visiting rest (outer.mergeChild contract)
termination_by (d.table.unvisited visiting, ids.length + 1)
end

def contract (d : Declarations) (id : SymbolId) : Process Contract :=
  resolve d [] id

/-! ## Bodies -/

/-- Goes through the events of a unit, unless one of them fails. -/
def follow (d : Declarations) (unit : WalkUnit) :
    List WalkEvent → BodyRecord → Process (Except AnalysisError BodyRecord)
  | [], r => return .ok r
  | .poll :: rest, r => poll.andThen fun _ => follow d unit rest r
  | .use target span w :: rest, r => do
    let contract ← contract d target
    follow d unit rest (r.recordUse d unit contract target span w)
  | .invoke callee w :: rest, r => follow d unit rest (r.recordInvocation unit.key callee w)

def walkUnit (a : BodyAnalysis) (unit : WalkUnit) (code : Operation) (entry : Worlds)
    (r : BodyRecord) : Process (Except AnalysisError BodyRecord) :=
  follow a.declarations unit ((code.walk a.scope).visit entry).events r

/-- The contract of the code of a callable. -/
def callableContract (a : BodyAnalysis) : CallableKey → Process Contract
  | .function symbol => contract a.declarations symbol
  | _ => return a.contract

def walkCallables (a : BodyAnalysis) :
    List (CallableKey × Bool) → BodyRecord → Process (Except AnalysisError BodyRecord)
  | [], r => return .ok r
  | (key, cyclic) :: rest, r =>
    match a.scope.callables.get? key with
    | none => walkCallables a rest r
    | some d => do
      let contract ← callableContract a key
      let entry := r.entryWorlds d cyclic contract.allowedWorlds
      let unit : WalkUnit := { key, file := a.file, enclosing := contract }
      (walkUnit a unit d.body entry r).andThen (walkCallables a rest)

/-- The analysis of a body: its findings, unless it is given up. -/
def body (reader : GuardReader) (body : MethodBody) :
    Process (Except AnalysisError (List Diagnostic)) := do
  let d := reader.declarations
  let contract ← contract d body.owner
  let a : BodyAnalysis :=
    { declarations := d, scope := .ofBody reader body.body, file := body.file, contract }
  let unit : WalkUnit := { key := .body, file := a.file, enclosing := contract }
  let walked ← (walkUnit a unit body.body contract.allowedWorlds {}).andThen
    (walkCallables a a.scope.callables.walkOrder)
  return walked.map (·.diagnostics)

end Process

/-! ## Pools -/

/-- Processes under way, and what they share. -/
structure Pool (α : Type) where
  processes : List (Process α)
  session : Session

namespace Pool

variable {α : Type}

/-- One step of the process whose turn it is. There is none where it has its result. -/
def turn (p : Pool α) (i : Nat) : Pool α :=
  match p.processes[i]? with
  | some (.ask access next) =>
    let (answer, session) := p.session.serve access
    { processes := p.processes.set i (next answer), session }
  | _ => p

/-- Takes what steps are left, one process after the other. -/
def runAll : List (Process α) → Session → List α × Session
  | [], s => ([], s)
  | process :: rest, s =>
    let (result, s) := process.run s
    let (others, s) := runAll rest s
    (result :: others, s)

/-- Takes turns as they are given, and then what steps are left. -/
def run (p : Pool α) (turns : List Nat) : List α × Session :=
  let p := turns.foldl turn p
  runAll p.processes p.session

end Pool

end PlatformGuard
