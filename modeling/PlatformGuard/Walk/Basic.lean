import PlatformGuard.Callable.Index
import PlatformGuard.Worlds

/-!
# Walks

A walk goes through an operation forwards, with the worlds in which it is reached. To visit an
operation gives the worlds after it, or none when control does not fall through; to split a
condition gives the worlds in which it is true and those in which it is false. On the way, events
happen in order: polls for cancellation, uses of symbols, and invocations of callables of the body.

This module has one combinator for each way in which the walk of an operation is made of
the walks of its parts.
-/

namespace PlatformGuard

/-- What happens on a walk. -/
inductive WalkEvent where
  /-- A place at which the walk may be cancelled. -/
  | poll
  /-- A use of a symbol, reached in some worlds. -/
  | use (target : SymbolId) (span : Span) (worlds : Worlds)
  /-- An invocation of a callable of the body, reached in some worlds. -/
  | invoke (callee : CallableKey) (worlds : Worlds)

/-- The outcome of visiting an operation. -/
structure Visit where
  events : List WalkEvent
  /-- The worlds after the operation; none when control does not fall through. -/
  after : Option Worlds

/-- The outcome of splitting on a condition. -/
structure Split where
  events : List WalkEvent
  whenTrue : Worlds
  whenFalse : Worlds

def Split.swap (s : Split) : Split :=
  ⟨s.events, s.whenFalse, s.whenTrue⟩

/-- How an operation is walked. -/
structure Walk where
  visit : Worlds → Visit
  /-- Splits on the operation as a condition. The uses within it are events only
  where they are asked for. -/
  split : (report : Bool) → Worlds → Split

namespace Walk

/-! ## Sequences -/

/-- Visits one after the other. What stands after a part that does not fall through
is visited in no world. -/
def visitAll : List Walk → Worlds → Visit
  | [], w => ⟨[], some w⟩
  | x :: xs, w =>
    let first := x.visit w
    match first.after with
    | some next =>
      let rest := visitAll xs next
      ⟨first.events ++ rest.events, rest.after⟩
    | none => ⟨first.events ++ xs.flatMap fun y => (y.visit .none).events, none⟩

def optionEvents (x : Option Walk) (w : Worlds) : List WalkEvent :=
  match x with
  | some x => (x.visit w).events
  | none => []

/-! ## Statements and values -/

/-- A walk by what visiting does after its poll, and what the operation says as a check. -/
def ofVisit (guard : Option Worlds) (visit : Worlds → Visit) : Walk where
  visit w :=
    let v := visit w
    ⟨.poll :: v.events, v.after⟩
  split report w :=
    let seen := if report then .poll :: (visit w).events else []
    match guard with
    | some g => ⟨.poll :: seen, w.inter g, w.sdiff g⟩
    | none => ⟨.poll :: seen, w, w⟩

/-- A walk that gives some events and falls through with the worlds it had. -/
def through (events : Worlds → List WalkEvent) : Walk :=
  ofVisit none fun w => ⟨events w, some w⟩

def idle : Walk := through fun _ => []

def sequence (parts : List Walk) : Walk :=
  ofVisit none (visitAll parts)

/-- Worlds after either of two branches. -/
def joinAfter : Option Worlds → Option Worlds → Option Worlds
  | some a, some b => some (a.union b)
  | some a, none => some a
  | none, b => b

def conditional (condition whenTrue : Walk) (whenFalse : Option Walk) : Walk :=
  ofVisit none fun w =>
    let s := condition.split true w
    let onTrue := whenTrue.visit s.whenTrue
    let onFalse := match whenFalse with
      | some branch => branch.visit s.whenFalse
      | none => ⟨[], some s.whenFalse⟩
    ⟨s.events ++ onTrue.events ++ onFalse.events, joinAfter onTrue.after onFalse.after⟩

/-- A loop. Nothing is known after it that was not known before. -/
def loop (condition : Option Walk) (body : Walk) : Walk :=
  through fun w =>
    match condition with
    | some c =>
      let s := c.split true w
      s.events ++ (body.visit s.whenTrue).events
    | none => (body.visit w).events

/-- A choice among cases, each with what is known before it. -/
def switch (value : Walk) (cases : List Walk) : Walk :=
  through fun w => (value.visit w).events ++ cases.flatMap fun c => (c.visit w).events

/-- Control leaves after a value. -/
def leave (value : Option Walk) : Walk :=
  ofVisit none fun w => ⟨optionEvents value w, none⟩

/-- A call: the receiver, the arguments, then the event of the call itself. -/
def call (guard : Option Worlds) (event : Worlds → WalkEvent) (receiver : Option Walk)
    (arguments : List Walk) : Walk :=
  ofVisit guard fun w =>
  ⟨optionEvents receiver w ++ (visitAll arguments w).events ++ [event w], some w⟩

/-- An assertion: its condition holds for the other arguments and from there on. -/
def assertion (guard : Option Worlds) (receiver : Option Walk) (condition : Walk)
    (rest : List Walk) : Walk :=
  ofVisit guard fun w =>
    let s := condition.split true w
    ⟨optionEvents receiver w ++ s.events ++ (visitAll rest s.whenTrue).events, some s.whenTrue⟩

def member (guard : Option Worlds) (event : Worlds → WalkEvent) (receiver : Option Walk) : Walk :=
  ofVisit guard fun w => ⟨optionEvents receiver w ++ [event w], some w⟩

/-- A call through a delegate value that is visited first. -/
def delegate (target : Walk) (arguments : List Walk) : Walk :=
  through fun w => (target.visit w).events ++ (visitAll arguments w).events

def lambdaCall (event : Worlds → WalkEvent) (arguments : List Walk) : Walk :=
  through fun w => event w :: (visitAll arguments w).events

def assignment (value : Option Walk) : Walk :=
  through (optionEvents value)

/-! ## Conditions -/

/-- A walk by how it splits after its poll. To visit it is to split, for the uses within. -/
def ofSplit (split : Bool → Worlds → Split) : Walk where
  visit w := ⟨.poll :: .poll :: (split true w).events, some w⟩
  split report w :=
    let s := split report w
    ⟨.poll :: s.events, s.whenTrue, s.whenFalse⟩

def truth (value : Bool) : Walk where
  visit w := ⟨[.poll], some w⟩
  split _ w := if value then ⟨[.poll], w, .none⟩ else ⟨[.poll], .none, w⟩

/-- A local that stands for a guard expression, by how this splits. -/
def cachedLocal (split : Worlds → Split) : Walk where
  visit w := ⟨[.poll], some w⟩
  split _ w :=
    let s := split w
    ⟨.poll :: s.events, s.whenTrue, s.whenFalse⟩

def negation (operand : Walk) : Walk :=
  ofSplit fun report w => (operand.split report w).swap

def conjunction (left right : Walk) : Walk :=
  ofSplit fun report w =>
    let l := left.split report w
    let r := right.split report l.whenTrue
    ⟨l.events ++ r.events, r.whenTrue, l.whenFalse.union r.whenFalse⟩

def disjunction (left right : Walk) : Walk :=
  ofSplit fun report w =>
    let l := left.split report w
    let r := right.split report l.whenFalse
    ⟨l.events ++ r.events, l.whenTrue.union r.whenTrue, r.whenFalse⟩

/-- A comparison with a truth value: the operand, or its opposite. -/
def comparison (keeps : Bool) (operand : Walk) : Walk :=
  ofSplit fun report w =>
    let s := operand.split report w
    if keeps then s else s.swap

/-- An operator that says nothing about platforms: only its operands are visited. -/
def plainOperator (operands : List Walk) : Walk :=
  ofSplit fun report w => ⟨if report then (visitAll operands w).events else [], w, w⟩

end Walk

end PlatformGuard
