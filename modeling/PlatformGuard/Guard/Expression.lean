import PlatformGuard.Guard.Check

/-!
# Guard expressions

A guard expression is built from platform checks and truth values with `!`, `&&`, `||` and
comparisons with a truth value, and holds at least one check. `GuardExpr.ofOperation?` recognises
them, and `GuardExpr.worlds` says where they answer true.

A local that is assigned a guard expression once, and read once, stands for the expression.
-/

namespace PlatformGuard

/-- A boolean expression over platform checks. -/
inductive GuardExpr where
  | constant (value : Bool)
  | check (guard : Guard)
  | not (operand : GuardExpr)
  | and (left right : GuardExpr)
  | or (left right : GuardExpr)
  /-- A comparison with a truth value: the operand, or its opposite. -/
  | compare (keeps : Bool) (operand : GuardExpr)

/-- Whether comparing with a truth value gives the compared operand, or else its opposite. -/
def BinaryOperator.keepsOperand (operator : BinaryOperator) (literal : Bool) : Bool :=
  (operator = .equals) == literal

/-- The operand of a comparison with a truth value, by the place of the truth value; the right
one is looked at first. -/
inductive ComparedSide where
  | left (literal : Bool)
  | right (literal : Bool)

/-- Which operand is compared with a truth value. -/
def comparedSide? (left right : Operation) : Option ComparedSide :=
  match right.bool?, left.bool? with
  | some b, _ => some (.left b)
  | none, some b => some (.right b)
  | none, none => none

namespace GuardExpr

/-- Joins two operands of which each is a guard expression or a truth value, and one
at least is the former. -/
def join? (op : GuardExpr → GuardExpr → GuardExpr) (left right : Option GuardExpr)
    (leftBool rightBool : Option Bool) :
    Option GuardExpr :=
  match left, right with
  | some a, some b => some (op a b)
  | some a, none => rightBool.map fun b => op a (constant b)
  | none, some b => leftBool.map fun a => op (constant a) b
  | none, none => none

def ofOperation? (r : GuardReader) : Operation → Option GuardExpr
  | .invocation _ target _ arguments => (r.ofCall? target arguments).map check
  | .memberReference _ member _ => (r.ofMember? member).map check
  | .unary _ .not operand => (ofOperation? r operand).map not
  | .binary _ operator left right =>
    let onLeft := ofOperation? r left
    let onRight := ofOperation? r right
    match operator with
    | .and => join? and onLeft onRight left.bool? right.bool?
    | .or => join? or onLeft onRight left.bool? right.bool?
    | .equals | .notEquals =>
      match comparedSide? left right with
      | some (.left b) => onLeft.map (compare (operator.keepsOperand b))
      | some (.right b) => onRight.map (compare (operator.keepsOperand b))
      | none => none
    | .other => none
  | _ => none

def worlds : GuardExpr → Worlds
  | constant b => .base b
  | check g => g.worlds
  | not e => e.worlds.compl
  | and a b => a.worlds.inter b.worlds
  | or a b => a.worlds.union b.worlds
  | compare keeps e => if keeps then e.worlds else e.worlds.compl

end GuardExpr

/-- The locals of a body that stand for a guard expression. -/
structure CachedGuards where
  entries : List (LocalId × GuardExpr) := []

namespace CachedGuards

def find? (cached : CachedGuards) (x : LocalId) : Option GuardExpr :=
  (cached.entries.find? fun e => e.1 = x).map (·.2)

def size (cached : CachedGuards) : Nat :=
  cached.entries.length

/-- The locals of a body: those assigned once, with a guard expression, and read once. -/
def ofBody (r : GuardReader) (body : Operation) : CachedGuards :=
  let below := body.subterms
  let assigned := below.filterMap fun
    | .localAssignment _ x (some value) => some (x, value)
    | _ => none
  let reads := below.filterMap Operation.local?
  ⟨assigned.filterMap fun (x, value) =>
    if (assigned.map (·.1)).count x = 1 ∧ reads.count x = 1 then
      (GuardExpr.ofOperation? r value).map fun e => (x, e)
    else none⟩

end CachedGuards

/-- How a single operation is recognised as a guard. -/
inductive Recognised where
  | guard (guard : Guard)
  /-- A local that stands for a guard expression. -/
  | cached (var : LocalId)

/-- How an operation by itself, or its negation, is recognised as a guard. -/
def recognise? (r : GuardReader) (cached : CachedGuards) : Operation → Option Recognised
  | .unary _ .not operand =>
    match recognise? r cached operand with
    | some (.guard g) => some (.guard g.negate)
    | _ => none
  | .invocation _ target _ arguments => (r.ofCall? target arguments).map .guard
  | .memberReference _ member _ => (r.ofMember? member).map .guard
  | .localReference _ x => (cached.find? x).map fun _ => .cached x
  | _ => none

end PlatformGuard
