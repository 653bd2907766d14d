import PlatformGuard.Symbol.Basic

/-!
# Operation trees

The body of a method as a tree of operations with source spans. The kinds that matter to platform
checks are told apart; everything else is `other` and matters through its children.

* `Operation.children`: the direct children in the order in which they are evaluated.
* `Operation.fold`: a value for each operation from the values of its children.
* `fold_eq`: what a fold does at any operation.
-/

namespace PlatformGuard

/-- The identity of a local variable within a body. -/
structure LocalId where
  val : UInt32
deriving Repr, DecidableEq, Hashable, Inhabited

def LocalId.text (id : LocalId) : String :=
  "local" ++ Text.number id.val.toNat

/-- A literal value. -/
inductive Constant where
  | bool (value : Bool)
  | int (value : Int64)
  | string (value : String)
  | null
deriving DecidableEq, Inhabited

inductive BinaryOperator where
  /-- Short-circuit `&&`. -/
  | and
  /-- Short-circuit `||`. -/
  | or
  | equals
  | notEquals
  | other
deriving Repr, DecidableEq, Inhabited

inductive UnaryOperator where
  | not
  | other
deriving Repr, DecidableEq, Inhabited

/-- An operation of a body. -/
inductive Operation where
  | block (span : Span) (operations : List Operation)
  /-- A further condition after `else` is a conditional in `whenFalse`. -/
  | conditional (span : Span) (condition whenTrue : Operation) (whenFalse : Option Operation)
  | loop (span : Span) (condition : Option Operation) (body : Operation)
  | switch (span : Span) (value : Operation) (cases : List Operation)
  | ret (span : Span) (value : Option Operation)
  | raise (span : Span) (value : Option Operation)
  | breakOut (span : Span)
  | continueLoop (span : Span)
  /-- A call of a static or instance member. -/
  | invocation (span : Span) (target : SymbolId) (receiver : Option Operation)
      (arguments : List Operation)
  /-- A call through a delegate value, such as a local that holds a lambda. -/
  | delegateInvocation (span : Span) (target : Operation) (arguments : List Operation)
  /-- A use of a property, field or event. -/
  | memberReference (span : Span) (member : SymbolId) (receiver : Option Operation)
  /-- A method group as a value. -/
  | methodReference (span : Span) (method : SymbolId)
  | objectCreation (span : Span) (constructor : SymbolId) (arguments : List Operation)
  | literal (span : Span) (value : Constant)
  | localReference (span : Span) (var : LocalId)
  /-- A declaration, with or without an initial value, or an assignment. -/
  | localAssignment (span : Span) (var : LocalId) (value : Option Operation)
  | binary (span : Span) (operator : BinaryOperator) (left right : Operation)
  | unary (span : Span) (operator : UnaryOperator) (operand : Operation)
  | localFunction (span : Span) (symbol : SymbolId) (body : Operation)
  | lambda (span : Span) (body : Operation)
  | other (span : Span) (children : List Operation)

namespace Operation

instance : Inhabited Operation := ⟨.breakOut {}⟩

def span : Operation → Span
  | block s _ | conditional s _ _ _ | loop s _ _ | switch s _ _ | ret s _ | raise s _ | breakOut s
  | continueLoop s | invocation s _ _ _ | delegateInvocation s _ _ | memberReference s _ _
  | methodReference s _ | objectCreation s _ _ | literal s _ | localReference s _
  | localAssignment s _ _ | binary s _ _ _ | unary s _ _ | localFunction s _ _ | lambda s _
  | other s _ => s

def withSpan (s : Span) : Operation → Operation
  | block _ ops => block s ops
  | conditional _ c t f => conditional s c t f
  | loop _ c b => loop s c b
  | switch _ v cs => switch s v cs
  | ret _ v => ret s v
  | raise _ v => raise s v
  | breakOut _ => breakOut s
  | continueLoop _ => continueLoop s
  | invocation _ t r as => invocation s t r as
  | delegateInvocation _ t as => delegateInvocation s t as
  | memberReference _ m r => memberReference s m r
  | methodReference _ m => methodReference s m
  | objectCreation _ c as => objectCreation s c as
  | literal _ v => literal s v
  | localReference _ x => localReference s x
  | localAssignment _ x v => localAssignment s x v
  | binary _ op l r => binary s op l r
  | unary _ op e => unary s op e
  | localFunction _ f b => localFunction s f b
  | lambda _ b => lambda s b
  | other _ cs => other s cs

/-- The direct children in the order in which they are evaluated. -/
def children : Operation → List Operation
  | block _ ops => ops
  | conditional _ c t f => c :: t :: f.toList
  | loop _ c b => c.toList ++ [b]
  | switch _ v cs => v :: cs
  | ret _ v | raise _ v => v.toList
  | invocation _ _ r as => r.toList ++ as
  | delegateInvocation _ t as => t :: as
  | memberReference _ _ r => r.toList
  | objectCreation _ _ as => as
  | localAssignment _ _ v => v.toList
  | binary _ _ l r => [l, r]
  | unary _ _ e => [e]
  | localFunction _ _ b | lambda _ b => [b]
  | other _ cs => cs
  | breakOut _ | continueLoop _ | methodReference _ _ | literal _ _ | localReference _ _ => []

def constant? : Operation → Option Constant
  | literal _ v => some v
  | _ => none

def bool? : Operation → Option Bool
  | literal _ (.bool b) => some b
  | _ => none

def local? : Operation → Option LocalId
  | localReference _ x => some x
  | _ => none

def isCallableDefinition : Operation → Bool
  | localFunction .. | lambda .. => true
  | _ => false

/-! ## Folds -/

variable {α : Type}

mutual
/-- The value of an operation from the values of its children. -/
def fold (f : Operation → List α → α) : Operation → α
  | block s ops => f (block s ops) (foldAll f ops)
  | conditional s c t e => f (conditional s c t e) (fold f c :: fold f t :: foldOption f e)
  | loop s c b => f (loop s c b) (foldOption f c ++ [fold f b])
  | switch s v cs => f (switch s v cs) (fold f v :: foldAll f cs)
  | ret s v => f (ret s v) (foldOption f v)
  | raise s v => f (raise s v) (foldOption f v)
  | breakOut s => f (breakOut s) []
  | continueLoop s => f (continueLoop s) []
  | invocation s t r as => f (invocation s t r as) (foldOption f r ++ foldAll f as)
  | delegateInvocation s t as => f (delegateInvocation s t as) (fold f t :: foldAll f as)
  | memberReference s m r => f (memberReference s m r) (foldOption f r)
  | methodReference s m => f (methodReference s m) []
  | objectCreation s c as => f (objectCreation s c as) (foldAll f as)
  | literal s v => f (literal s v) []
  | localReference s x => f (localReference s x) []
  | localAssignment s x v => f (localAssignment s x v) (foldOption f v)
  | binary s op l r => f (binary s op l r) [fold f l, fold f r]
  | unary s op e => f (unary s op e) [fold f e]
  | localFunction s x b => f (localFunction s x b) [fold f b]
  | lambda s b => f (lambda s b) [fold f b]
  | other s cs => f (other s cs) (foldAll f cs)

def foldAll (f : Operation → List α → α) : List Operation → List α
  | [] => []
  | op :: ops => fold f op :: foldAll f ops

def foldOption (f : Operation → List α → α) : Option Operation → List α
  | none => []
  | some op => [fold f op]
end

theorem foldAll_eq_map (f : Operation → List α → α) (ops : List Operation) :
    foldAll f ops = ops.map (fold f) := by
  induction ops with
  | nil => rfl
  | cons op ops ih => simp [foldAll, ih]

theorem foldOption_eq_map (f : Operation → List α → α) (op : Option Operation) :
    foldOption f op = op.toList.map (fold f) := by
  cases op <;> rfl

/-- The value of an operation is that of the function on it and the values of its children. -/
theorem fold_eq (f : Operation → List α → α) (op : Operation) :
    fold f op = f op (op.children.map (fold f)) := by
  cases op <;> simp [fold, children, foldAll_eq_map, foldOption_eq_map]

/-- The operation and all below it, each before its children. -/
def subterms : Operation → List Operation :=
  fold fun op below => op :: below.flatten

theorem subterms_eq (op : Operation) : op.subterms = op :: op.children.flatMap subterms := by
  rw [subterms, fold_eq, ← subterms, List.flatMap_def]

end Operation

end PlatformGuard
