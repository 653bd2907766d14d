import PlatformGuard.Proofs.Escape
import PlatformGuard.Proofs.UseSites

/-!
# Executions of a body

How a body runs in one world, and which use sites it reaches (`Runs`). The world decides what
platform checks answer and what the locals that stand for a guard expression hold. All else is left
open: other conditions, the cases of a switch, how often loops run, which operations fail. A local
function or lambda of the body runs where it is invoked, and at any time if it escapes. An assertion
evaluates all its arguments, runs the local function that it calls, if it calls one, and then goes
on only if its first argument was true.

The rules know nothing of walks, of the order of units or of worlds other than the one they run in.
-/

namespace PlatformGuard

/-- How control leaves an operation before its end. -/
inductive Jump where
  | ret
  | raise
  | breakOut
  | continueLoop
deriving DecidableEq

/-- How what runs comes to its end. -/
inductive Ending where
  /-- Control goes on to what follows. -/
  | falls
  /-- A condition is answered. -/
  | answers (value : Bool)
  | jumps (jump : Jump)
deriving DecidableEq

namespace Ending

/-- How an invocation ends, by how the code that it runs ends. -/
def afterCall : Ending → Ending
  | jumps .raise => jumps .raise
  | _ => falls

/-- How an assertion ends, by its condition and by how the call ends: a false condition is the same
as to throw an exception after the call. -/
def afterAssertion (holds : Bool) (e : Ending) : Ending := if holds then e else jumps .raise

/-- How a switch ends, by how the chosen case ends. -/
def afterCase : Ending → Ending
  | jumps .breakOut => falls
  | e => e

/-- How a loop ends, by how its last round ends; none if there is one more round. -/
def afterRound? : Ending → Option Ending
  | falls | jumps .continueLoop => none
  | jumps .breakOut => some falls
  | e => some e

end Ending

/-- What is run: an operation for its effect or as a condition, the decision on one more round of a
loop, or operations one after the other. -/
inductive Task where
  | visit (op : Operation)
  | test (condition : Operation)
  | enter (condition : Option Operation)
  | sequence (ops : List Operation)

/-- A platform check is true in a world: the fact that a call states holds there, or the guard
attributes of a member name it. -/
def Guard.TrueIn (x : World) : Guard → Prop
  | .fact f => x ∈ f.worlds
  | .member trueIn => x ∈ trueIn

namespace Operation

/-- Whether an operation is a condition made of others: a negation, a conjunction, a disjunction or
a comparison with a truth value. -/
def isConnective : Operation → Bool
  | .unary _ .not _ => true
  | .binary _ operator left right =>
    match operator with
    | .and | .or => true
    | .equals | .notEquals => left.bool?.isSome || right.bool?.isSome
    | .other => false
  | _ => false

def isAssertion (body : Operation) (r : GuardReader) (target : SymbolId)
    (arguments : List Operation) : Bool :=
  (WalkScope.ofBody r body).isAssertion target && !arguments.isEmpty

/-- What an operation evaluates before it does anything itself, in order. The first
argument of an assertion is a condition, which has an answer; so the arguments of
assertions are not among these. -/
def operandsOf (body : Operation) (r : GuardReader) : Operation → List Operation
  | .block _ operations => operations
  | .other _ children => children
  | .switch _ value _ => [value]
  | .ret _ value | .raise _ value | .localAssignment _ _ value => value.toList
  | .invocation _ target receiver arguments =>
    if body.isAssertion r target arguments then receiver.toList else receiver.toList ++ arguments
  | .delegateInvocation _ target arguments =>
    match target.local? with
    | some y => if body.holdsLambda y then arguments else target :: arguments
    | none => target :: arguments
  | .memberReference _ _ receiver => receiver.toList
  | .objectCreation _ _ arguments => arguments
  | .unary _ _ operand => [operand]
  | .binary _ _ left right => [left, right]
  | _ => []

def jump? : Operation → Option Jump
  | .ret .. => some .ret
  | .raise .. => some .raise
  | .breakOut _ => some .breakOut
  | .continueLoop _ => some .continueLoop
  | _ => none

/-- Whether nothing happens but that the operands are evaluated. Definitions of
callables are passed over. -/
def passes (body : Operation) : Operation → Bool
  | .block .. | .other .. | .literal .. | .localReference .. | .localAssignment ..
  | .localFunction .. | .lambda .. => true
  | .methodReference _ method => body.definesFunction method
  | .delegateInvocation _ target _ =>
    match target.local? with
    | some y => !body.holdsLambda y
    | none => true
  | .unary _ .other _ => true
  | .binary span operator left right => !(binary span operator left right).isConnective
  | _ => false

/-- The answers that an operation, other than a connective, can give as a condition. A platform
check answers whether it is true in the world. -/
def CanAnswer (body : Operation) (r : GuardReader) (x : World) (op : Operation) (b : Bool) : Prop :=
  match op with
  | .literal _ (.bool value) => b = value
  | .invocation _ target _ arguments => ∀ g ∈ r.ofCall? target arguments, b = true ↔ g.TrueIn x
  | .memberReference _ member _ => ∀ g ∈ r.ofMember? member, b = true ↔ g.TrueIn x
  | .localReference _ y => body.initializer? r y = none
  | op => op.isConnective = false

end Operation

/-- The answer of the left operand at which the right one is not evaluated. -/
def BinaryOperator.decidedBy : BinaryOperator → Option Bool
  | .and => some false
  | .or => some true
  | _ => none

def Task.first? (r : GuardReader) (body : Operation) : Task → Option Task
  | .visit (.conditional _ condition _ _) => some (.test condition)
  | .visit (.loop _ condition _) => some (.enter condition)
  | .visit op =>
    if op.isConnective then some (.test op) else some (.sequence (body.operandsOf r op))
  | .test (.unary _ .not operand) => some (.test operand)
  | .test (.binary span operator left right) =>
    if (Operation.binary span operator left right).isConnective then some (.test left)
    else some (.visit (.binary span operator left right))
  | .test op => some (.visit op)
  | .enter condition => condition.map .test
  | .sequence [] => none
  | .sequence (op :: _) => some (.visit op)

/-- A use site that a run reaches. -/
structure ReachedUse where
  site : UseSite
  /-- Whether an assertion stands between the run and the site: the site is in an argument after its
  condition, and the condition was false, or in the local function that the assertion calls. -/
  aside : Bool

/-- Whatever some code reaches is reached aside. -/
def setAside (s : List ReachedUse) : List ReachedUse := s.map fun u => ⟨u.site, true⟩

/-- What the arguments after a condition reach. -/
def asideUnless (holds : Bool) (s : List ReachedUse) : List ReachedUse :=
    if holds then s else setAside s

/-- `Runs r body x task uses e`: in the world `x`, the task can reach the given use sites, in this
order, and then end in this way. -/
inductive Runs (r : GuardReader) (body : Operation) (x : World) :
    Task → List ReachedUse → Ending → Prop
  /-- Anything can fail before it begins. So whatever happens up to some point is a run, also
  where the whole never ends. -/
  | fails (task : Task) : Runs r body x task [] (.jumps .raise)
  /-- What escapes can run before anything else. -/
  | before {task : Task} {code : Operation} {s s' : List ReachedUse}
      {e e' : Ending} : body.Escapes code →
      Runs r body x (.visit code) s e → Runs r body x task s' e' → Runs r body x task (s ++ s') e'
  /-- And after it. -/
  | after {task : Task} {code : Operation} {s s' : List ReachedUse}
      {e e' : Ending} : Runs r body x task s e →
      body.Escapes code → Runs r body x (.visit code) s' e' → Runs r body x task (s ++ s') e
  /-- A jump out of what is run first ends the task. -/
  | aborted {task first : Task} {s : List ReachedUse} {j : Jump} : task.first? r body = some first →
      Runs r body x first s (.jumps j) → Runs r body x task s (.jumps j)
  | done : Runs r body x (.sequence []) [] .falls
  | next {op : Operation} {ops : List Operation} {s s' : List ReachedUse} {e : Ending} :
      Runs r body x (.visit op) s .falls → Runs r body x (.sequence ops) s' e →
      Runs r body x (.sequence (op :: ops)) (s ++ s') e
  | passes {op : Operation} {s : List ReachedUse} : body.passes op = true →
      Runs r body x (.sequence (body.operandsOf r op)) s .falls → Runs r body x (.visit op) s .falls
  | leaves {op : Operation} {j : Jump} {s : List ReachedUse} : op.jump? = some j →
      Runs r body x (.sequence (body.operandsOf r op)) s .falls →
      Runs r body x (.visit op) s (.jumps j)
  /-- A use site is reached once its operands are evaluated. -/
  | uses {op : Operation} {site : UseSite} {s : List ReachedUse} :
      op.useSite? body.definesFunction (WalkScope.ofBody r body).isAssertion = some site →
      Runs r body x (.sequence (body.operandsOf r op)) s .falls →
      Runs r body x (.visit op) (s ++ [⟨site, false⟩]) .falls
  | callsFunction {span span' : Span} {f : SymbolId} {code : Operation}
      {receiver : Option Operation}
      {arguments : List Operation} {s s' : List ReachedUse} {e : Ending} :
      body.isAssertion r f arguments = false → .localFunction span' f code ∈ body.subterms →
      Runs r body x (.sequence (receiver.toList ++ arguments)) s .falls →
      Runs r body x (.visit code) s' e →
      Runs r body x (.visit (.invocation span f receiver arguments)) (s ++ s') e.afterCall
  | callsLambda {span span' span₁ span₂ : Span} {y : LocalId} {code : Operation}
      {arguments : List Operation}
      {s s' : List ReachedUse} {e : Ending} : .localAssignment span₁ y
        (some (.lambda span₂ code)) ∈ body.subterms →
      Runs r body x (.sequence arguments) s .falls → Runs r body x (.visit code) s' e →
      Runs r body x (.visit (.delegateInvocation span (.localReference span' y) arguments))
      (s ++ s') e.afterCall
  /-- A local that is assigned more than once may hold something from elsewhere. -/
  | callsElsewhere {span span' : Span} {y : LocalId} {arguments : List Operation}
      {s : List ReachedUse} :
      body.holdsLambda y = true → 1 < (body.assignedValues y).length →
      Runs r body x (.sequence arguments) s .falls →
      Runs r body x (.visit (.delegateInvocation span (.localReference span' y) arguments)) s .falls
  | whenTrue {span : Span} {condition branch : Operation} {other : Option Operation}
      {s s' : List ReachedUse} {e : Ending} :
      Runs r body x (.test condition) s (.answers true) → Runs r body x (.visit branch) s' e →
      Runs r body x (.visit (.conditional span condition branch other)) (s ++ s') e
  | whenFalse {span : Span} {condition branch : Operation} {other : Option Operation}
      {s s' : List ReachedUse}
      {e : Ending} : Runs r body x (.test condition) s (.answers false) →
      Runs r body x (.sequence other.toList) s' e →
      Runs r body x (.visit (.conditional span condition branch other)) (s ++ s') e
  /-- A loop without a condition runs as often as it likes. -/
  | entersFreely (b : Bool) : Runs r body x (.enter none) [] (.answers b)
  | enters {condition : Operation} {s : List ReachedUse} {b : Bool} : Runs r body x
      (.test condition) s (.answers b) →
      Runs r body x (.enter (some condition)) s (.answers b)
  | loopEnds {span : Span} {condition : Option Operation} {round : Operation}
      {s : List ReachedUse} :
      Runs r body x (.enter condition) s (.answers false) →
      Runs r body x (.visit (.loop span condition round)) s .falls
  | loopLeft {span : Span} {condition : Option Operation} {round : Operation}
      {s s' : List ReachedUse} {e e' : Ending} :
      Runs r body x (.enter condition) s (.answers true) → Runs r body x (.visit round) s' e →
      e.afterRound? = some e' → Runs r body x (.visit (.loop span condition round)) (s ++ s') e'
  | loopAgain {span : Span} {condition : Option Operation} {round : Operation}
      {s s' s'' : List ReachedUse}
      {e e' : Ending} : Runs r body x (.enter condition) s (.answers true) →
      Runs r body x (.visit round) s' e →
      e.afterRound? = none → Runs r body x (.visit (.loop span condition round)) s'' e' →
      Runs r body x (.visit (.loop span condition round)) (s ++ s' ++ s'') e'
  | switchSkips {span : Span} {value : Operation} {cases : List Operation} {s : List ReachedUse} :
      Runs r body x (.visit value) s .falls →
      Runs r body x (.visit (.switch span value cases)) s .falls
  | switchRuns {span : Span} {value chosen : Operation} {cases : List Operation}
      {s s' : List ReachedUse} {e : Ending} :
      Runs r body x (.visit value) s .falls → chosen ∈ cases → Runs r body x (.visit chosen) s' e →
      Runs r body x (.visit (.switch span value cases)) (s ++ s') e.afterCase
  /-- All arguments of an assertion are evaluated, whatever the first one answers. -/
  | asserts {span : Span} {target : SymbolId} {receiver : Option Operation} {condition : Operation}
      {rest : List Operation} {s s' s'' : List ReachedUse} {b : Bool} :
      (WalkScope.ofBody r body).isAssertion target = true → body.definesFunction target = false →
      Runs r body x (.sequence receiver.toList) s .falls →
      Runs r body x (.test condition) s' (.answers b) →
      Runs r body x (.sequence rest) s'' .falls →
      Runs r body x (.visit (.invocation span target receiver (condition :: rest)))
        (s ++ s' ++ asideUnless b s'') (Ending.falls.afterAssertion b)
  /-- An assertion that is also a call of a local function runs this. -/
  | assertsAndCalls {span span' : Span} {target : SymbolId} {code : Operation}
      {receiver : Option Operation}
      {condition : Operation} {rest : List Operation} {s s' s'' t : List ReachedUse}
      {b : Bool} {e : Ending} :
      (WalkScope.ofBody r body).isAssertion target = true →
      .localFunction span' target code ∈ body.subterms →
      Runs r body x (.sequence receiver.toList) s .falls →
      Runs r body x (.test condition) s' (.answers b) →
      Runs r body x (.sequence rest) s'' .falls → Runs r body x (.visit code) t e →
      Runs r body x (.visit (.invocation span target receiver (condition :: rest)))
        (s ++ s' ++ asideUnless b s'' ++ setAside t) (e.afterCall.afterAssertion b)
  /-- The condition of an assertion may fail. -/
  | conditionAborted {span : Span} {target : SymbolId} {receiver : Option Operation}
      {condition : Operation}
      {rest : List Operation} {s s' : List ReachedUse} {j : Jump} :
      (WalkScope.ofBody r body).isAssertion target = true →
      Runs r body x (.sequence receiver.toList) s .falls →
      Runs r body x (.test condition) s' (.jumps j) →
      Runs r body x (.visit (.invocation span target receiver (condition :: rest)))
      (s ++ s') (.jumps j)
  /-- And so may the arguments after it. -/
  | assertionAborted {span : Span} {target : SymbolId} {receiver : Option Operation}
      {condition : Operation}
      {rest : List Operation} {s s' s'' : List ReachedUse} {b : Bool} {j : Jump} :
      (WalkScope.ofBody r body).isAssertion target = true →
      Runs r body x (.sequence receiver.toList) s .falls →
      Runs r body x (.test condition) s' (.answers b) →
      Runs r body x (.sequence rest) s'' (.jumps j) →
      Runs r body x (.visit (.invocation span target receiver (condition :: rest)))
        (s ++ s' ++ asideUnless b s'') (.jumps j)
  /-- A connective is evaluated as a condition also where its value is not one. -/
  | decides {op : Operation} {s : List ReachedUse} {b : Bool} : op.isConnective = true →
      Runs r body x (.test op) s (.answers b) → Runs r body x (.visit op) s .falls
  | answers {op : Operation} {s : List ReachedUse} {b : Bool} : body.CanAnswer r x op b →
      Runs r body x (.visit op) s .falls → Runs r body x (.test op) s (.answers b)
  /-- A local that stands for a guard expression holds its value, which was evaluated where
  the local was assigned. -/
  | recalls {span : Span} {y : LocalId} {value : Operation} {s : List ReachedUse} {b : Bool} :
      body.initializer? r y = some value → Runs r body x (.test value) s (.answers b) →
      Runs r body x (.test (.localReference span y)) [] (.answers b)
  | negates {span : Span} {operand : Operation} {s : List ReachedUse} {b : Bool} :
      Runs r body x (.test operand) s (.answers b) →
      Runs r body x (.test (.unary span .not operand)) s (.answers !b)
  | cutsShort {span : Span} {operator : BinaryOperator} {left right : Operation}
      {s : List ReachedUse} {b : Bool} :
      operator.decidedBy = some b → Runs r body x (.test left) s (.answers b) →
      Runs r body x (.test (.binary span operator left right)) s (.answers b)
  | goesOn {span : Span} {operator : BinaryOperator} {left right : Operation}
      {s s' : List ReachedUse} {b : Bool}
      {e : Ending} : operator.decidedBy = some b → Runs r body x (.test left) s (.answers !b) →
      Runs r body x (.test right) s' e →
      Runs r body x (.test (.binary span operator left right)) (s ++ s') e
  | compares {span : Span} {operator : BinaryOperator} {left right : Operation}
      {s s' : List ReachedUse} {b c : Bool} :
      operator = .equals ∨ operator = .notEquals →
      (Operation.binary span operator left right).isConnective = true →
      Runs r body x (.test left) s (.answers b) → Runs r body x (.test right) s' (.answers c) →
      Runs r body x (.test (.binary span operator left right)) (s ++ s')
      (.answers ((b == c) == (operator = .equals)))
  | comparisonAborted {span : Span} {operator : BinaryOperator} {left right : Operation}
      {s s' : List ReachedUse}
      {b : Bool} {j : Jump} : operator = .equals ∨ operator = .notEquals →
      (Operation.binary span operator left right).isConnective = true →
      Runs r body x (.test left) s (.answers b) → Runs r body x (.test right) s' (.jumps j) →
      Runs r body x (.test (.binary span operator left right)) (s ++ s') (.jumps j)

end PlatformGuard
