import PlatformGuard.Proofs.CallableOrder
import PlatformGuard.Proofs.ConditionSplit

/-!
# What a walk meets

An operation may use a symbol, or invoke a callable of the body. A walk of a unit meets all that the
operations of the unit do, each once and in the order of evaluation, whatever the worlds it starts
from (`Operation.walk_marks`): code that cannot be reached is walked in no world, and a condition is
walked where it is split.

* `walk_uses`: the uses on a walk are the use sites of the unit.
* `walk_calls`: the invocations on a walk are those of the unit. They differ from its call
  sites by the assertions: an invocation that asserts something invokes nothing, even where it
  is one of a local function.
-/

namespace PlatformGuard

/-- A place at which a symbol is used. -/
structure UseSite where
  target : SymbolId
  span : Span
deriving DecidableEq

def WalkEvent.useSite? : WalkEvent → Option UseSite
  | .use target span _ => some ⟨target, span⟩
  | _ => none

/-- The site of an operation that uses a symbol. Local functions are walked on their own, and an
assertion narrows the worlds. -/
def Operation.useSite? (isLocalFunction isAssertion : SymbolId → Bool) : Operation → Option UseSite
  | .invocation span target _ arguments =>
    if isLocalFunction target || (isAssertion target && !arguments.isEmpty) then none
    else some ⟨target, span⟩
  | .memberReference span member _ => some ⟨member, span⟩
  | .methodReference span method => if isLocalFunction method then none else some ⟨method, span⟩
  | .objectCreation span constructor _ => some ⟨constructor, span⟩
  | _ => none

def WalkScope.siteOf? (scope : WalkScope) : Operation → Option UseSite :=
  Operation.useSite? scope.callables.isLocalFunction scope.isAssertion

/-- The callable that an operation invokes, as a walk sees it: one of the body, and not in an
assertion. -/
def WalkScope.calleeOf? (scope : WalkScope) : Operation → Option CallableKey
  | .invocation _ target _ arguments =>
    if scope.callables.isLocalFunction target &&
      !(scope.isAssertion target && !arguments.isEmpty) then
      some (.function target)
    else none
  | .delegateInvocation _ target _ =>
    target.local?.bind fun x => if scope.callables.isLambda x then some (.lambda x) else none
  | _ => none

/-- What an operation does that a walk tells of. -/
inductive Mark where
  | site (site : UseSite)
  | call (callee : CallableKey)

namespace Mark

def site? : Mark → Option UseSite
  | site s => some s
  | call _ => none

def callee? : Mark → Option CallableKey
  | site _ => none
  | call key => some key

end Mark

/-- What an event tells, whatever its worlds. -/
def WalkEvent.mark? : WalkEvent → Option Mark
  | .poll => none
  | .use target span _ => some (.site ⟨target, span⟩)
  | .invoke callee _ => some (.call callee)

def WalkScope.markOf? (scope : WalkScope) (op : Operation) : Option Mark :=
  match scope.siteOf? op with
  | some site => some (.site site)
  | none => (scope.calleeOf? op).map .call

namespace WalkScope

variable {scope : WalkScope} {span : Span}

theorem markOf?_call {target : SymbolId} {receiver : Option Operation} {arguments : List Operation}
    (h : (scope.isAssertion target && !arguments.isEmpty) = false) :
    scope.markOf? (.invocation span target receiver arguments) =
      some (if scope.callables.isLocalFunction target then .call (.function target)
        else .site ⟨target, span⟩) := by
  rw [markOf?, siteOf?, Operation.useSite?, calleeOf?, h, Bool.or_false]
  cases scope.callables.isLocalFunction target <;> rfl

theorem markOf?_assertion {target : SymbolId} {receiver : Option Operation}
    {arguments : List Operation} (h : (scope.isAssertion target && !arguments.isEmpty) = true) :
    scope.markOf? (.invocation span target receiver arguments) = none := by
  rw [markOf?, siteOf?, Operation.useSite?, calleeOf?, h, Bool.or_true]
  cases scope.callables.isLocalFunction target <;> rfl

theorem markOf?_lambdaCall {span' : Span} {x : LocalId} {arguments : List Operation}
    (h : scope.callables.isLambda x = true) :
    scope.markOf? (.delegateInvocation span (.localReference span' x) arguments) =
      some (.call (.lambda x)) :=
  congrArg (Option.map Mark.call) (if_pos h)

theorem markOf?_delegate {target : Operation} {arguments : List Operation}
    (h : ∀ x, target.local? = some x → scope.callables.isLambda x = false) :
    scope.markOf? (.delegateInvocation span target arguments) = none := by
  show (target.local?.bind fun x =>
    if scope.callables.isLambda x then some (CallableKey.lambda x) else none).map Mark.call = none
  cases hlocal : target.local? with
  | none => rfl
  | some x => rw [Option.bind_some, h x hlocal, if_neg Bool.false_ne_true, Option.map_none]

theorem markOf?_methodReference (method : SymbolId) : scope.markOf? (.methodReference span method) =
    if scope.callables.isLocalFunction method then none else some (.site ⟨method, span⟩) := by
  rw [markOf?, siteOf?, Operation.useSite?]
  cases scope.callables.isLocalFunction method <;> rfl

end WalkScope

/-! ## The marks on a walk -/

namespace Walk

def marksOf (events : List WalkEvent) : List Mark := events.filterMap WalkEvent.mark?

@[simp] theorem marksOf_poll (events : List WalkEvent) :
    marksOf (.poll :: events) = marksOf events := rfl

@[simp] theorem marksOf_append (first second : List WalkEvent) :
    marksOf (first ++ second) = marksOf first ++ marksOf second :=
  List.filterMap_append

/-- Whatever the worlds, to visit meets the given marks, and so does to split where uses are asked
for. -/
structure Meets (x : Walk) (marks : List Mark) : Prop where
  visit : ∀ w, marksOf (x.visit w).events = marks
  split : ∀ w, marksOf (x.split true w).events = marks
  silent : ∀ w, marksOf (x.split false w).events = []

variable {marks : List Mark}

theorem meets_ofVisit {guard : Option Worlds} {visit : Worlds → Visit}
    (h : ∀ w, marksOf (visit w).events = marks) :
    (ofVisit guard visit).Meets marks where
  visit := h
  split w := by
    cases guard <;> exact h w
  silent w := by
    cases guard <;> rfl

theorem meets_ofSplit {split : Bool → Worlds → Split}
    (h : ∀ w, marksOf (split true w).events = marks)
    (silent : ∀ w, marksOf (split false w).events = []) : (ofSplit split).Meets marks where
  visit := h
  split := h
  silent := silent

theorem meets_through {events : Worlds → List WalkEvent} (h : ∀ w, marksOf (events w) = marks) :
    (through events).Meets marks :=
  meets_ofVisit h

theorem meets_idle : idle.Meets [] := meets_through fun _ => rfl

section Parts

variable {ι : Type} {walk : ι → Walk} {marksAt : ι → List Mark}

theorem marksOf_visitAll {parts : List ι}
    (h : ∀ i ∈ parts, (walk i).Meets (marksAt i)) (w : Worlds) :
    marksOf (visitAll (parts.map walk) w).events = parts.flatMap marksAt := by
  induction parts generalizing w with
  | nil => rfl
  | cons i rest ih =>
    have first := (h i List.mem_cons_self).visit
    have others : ∀ j ∈ rest, (walk j).Meets (marksAt j) :=
      fun j hj => h j (List.mem_cons_of_mem _ hj)
    rw [List.map_cons, visitAll]
    cases hafter : ((walk i).visit w).after with
    | some next =>
      show marksOf (_ ++ _) = _
      rw [marksOf_append, first, ih others, List.flatMap_cons]
    | none =>
      -- what cannot be reached is visited all the same, in no world
      have unreached : marksOf ((rest.map walk).flatMap fun y => (y.visit .none).events) =
          rest.flatMap marksAt := by
        rw [marksOf, List.filterMap_flatMap, List.flatMap_map]
        exact List.flatMap_congr fun j hj => (others j hj).visit .none
      show marksOf (_ ++ _) = _
      rw [marksOf_append, first, unreached, List.flatMap_cons]

theorem marksOf_optionEvents {part : Option ι}
    (h : ∀ i ∈ part, (walk i).Meets (marksAt i)) (w : Worlds) :
    marksOf (optionEvents (part.map walk) w) = part.toList.flatMap marksAt := by
  cases part with
  | none => rfl
  | some i =>
    rw [Option.map_some, Option.toList_some, List.flatMap_singleton]
    exact (h i rfl).visit w

end Parts

/-- A guard expression that a local stands for has its marks where the local is assigned. -/
theorem marksOf_guardExpr (e : GuardExpr) (w : Worlds) : marksOf (e.split w).events = [] := by
  induction e generalizing w with
  | constant b => cases b <;> rfl
  | check g => rfl
  | not e ih => exact ih w
  | and a b iha ihb =>
    show marksOf (.poll :: (_ ++ _)) = []
    rw [marksOf_poll, marksOf_append, iha, ihb, List.append_nil]
  | or a b iha ihb =>
    show marksOf (.poll :: (_ ++ _)) = []
    rw [marksOf_poll, marksOf_append, iha, ihb, List.append_nil]
  | compare keeps e ih => cases keeps <;> exact ih w

variable {x y z : Walk} {marks' : List Mark}

theorem Meets.conjunction (hx : x.Meets marks) (hy : y.Meets marks') :
    (conjunction x y).Meets (marks ++ marks') :=
  meets_ofSplit (fun w => by rw [marksOf_append, hx.split, hy.split])
    fun w => by rw [marksOf_append, hx.silent, hy.silent, List.append_nil]

theorem Meets.disjunction (hx : x.Meets marks) (hy : y.Meets marks') :
    (disjunction x y).Meets (marks ++ marks') :=
  meets_ofSplit (fun w => by rw [marksOf_append, hx.split, hy.split])
    fun w => by rw [marksOf_append, hx.silent, hy.silent, List.append_nil]

theorem Meets.comparison {keeps : Bool} (hx : x.Meets marks) :
    (comparison keeps x).Meets marks := by
  refine meets_ofSplit (fun w => ?_) fun w => ?_
  · cases keeps <;> exact hx.split w
  · cases keeps <;> exact hx.silent w

end Walk

namespace Operation

variable {scope : WalkScope}

theorem walkAll_eq_map (scope : WalkScope) (ops : List Operation) :
    walkAll scope ops = ops.map (walk scope) := by
  induction ops with
  | nil => rfl
  | cons op ops ih => rw [walkAll, ih, List.map_cons]

theorem walkOption_eq_map (scope : WalkScope) (op : Option Operation) :
    walkOption scope op = op.map (walk scope) := by
  cases op <;> rfl

/-- A call that asserts nothing is walked as one. -/
theorem walk_call {span : Span} {target : SymbolId} {receiver : Option Operation}
    {arguments : List Operation} (h : (scope.isAssertion target && !arguments.isEmpty) = false) :
    (invocation span target receiver arguments).walk scope =
      .call (scope.callWorlds? target arguments)
        (if scope.callables.isLocalFunction target then WalkEvent.invoke (.function target)
          else .use target span)
        (receiver.map (walk scope)) (arguments.map (walk scope)) := by
  rw [walk, walkOption_eq_map, walkAll_eq_map]
  cases hassert : scope.isAssertion target with
  | false => rfl
  | true =>
    cases arguments with
    | nil => rfl
    | cons condition rest => exact absurd h (by simp [hassert])

theorem walk_assertion {span : Span} {target : SymbolId} {receiver : Option Operation}
    {condition : Operation} {rest : List Operation} (h : scope.isAssertion target = true) :
    (invocation span target receiver (condition :: rest)).walk scope =
      .assertion (scope.callWorlds? target (condition :: rest)) (receiver.map (walk scope))
      (condition.walk scope)
        (rest.map (walk scope)) := by
  rw [walk, walkOption_eq_map, walkAll_eq_map, h]
  rfl

/-- A call through a local that holds a lambda invokes it without a visit of the local. -/
theorem walk_lambdaCall {span span' : Span} {y : LocalId} {arguments : List Operation}
    (h : scope.callables.isLambda y = true) :
    (delegateInvocation span (localReference span' y) arguments).walk scope =
      .lambdaCall (.invoke (.lambda y)) (arguments.map (walk scope)) := by
  rw [walk, walkAll_eq_map]
  exact if_pos h

theorem walk_delegate {span : Span} {target : Operation} {arguments : List Operation}
    (h : ∀ y, target.local? = some y → scope.callables.isLambda y = false) :
    (delegateInvocation span target arguments).walk scope =
      .delegate (target.walk scope) (arguments.map (walk scope)) := by
  rw [walk, walkAll_eq_map]
  cases hlocal : target.local? with
  | none => rfl
  | some y => exact if_neg (by rw [h y hlocal]; exact Bool.false_ne_true)

/-- Every operation is walked by a visit, by a split, as a truth value, or as a local
that stands for a guard. -/
theorem walk_cases {p : Walk → Prop} (ofVisit : ∀ guard visit, p (.ofVisit guard visit))
    (ofSplit : ∀ split, p (.ofSplit split)) (truth : ∀ value, p (.truth value))
    (cachedLocal : ∀ g : GuardExpr, p (.cachedLocal g.split)) (op : Operation) :
    p (op.walk scope) := by
  have through : ∀ events, p (.through events) := fun _ => ofVisit none _
  cases op with
  | literal span value =>
    cases value with
    | bool b =>
      rw [walk]
      exact truth b
    | _ =>
      rw [walk]
      · exact through _
      · intro b
        simp
  | localReference span y =>
    rw [walk]
    split
    · exact cachedLocal _
    · exact through _
  | invocation span target receiver arguments =>
    rw [walk]
    split <;> exact ofVisit _ _
  | delegateInvocation span target arguments =>
    rw [walk]
    split
    · split <;> exact through _
    · exact through _
  | methodReference span method =>
    rw [walk]
    split
    · exact through _
    · exact ofVisit _ _
  | unary span operator operand => cases operator <;> rw [walk] <;> exact ofSplit _
  | binary span operator left right =>
    cases operator using BinaryOperator.cases_comparison with
    | and | or | other => rw [walk]; exact ofSplit _
    | comparison operator hop =>
      rw [walk_comparison hop]
      split <;> exact ofSplit _
  | loop | switch | localAssignment | localFunction | lambda => rw [walk]; exact through _
  | _ => rw [walk]; exact ofVisit _ _

/-- The marks of one unit, in the order of evaluation. A lambda is invoked before the
arguments are evaluated. -/
def ownMarks (scope : WalkScope) : Operation → List Mark :=
  fold fun op parts =>
    if op.isCallableDefinition then []
    else match op with
      | .delegateInvocation _ _ _ => (scope.markOf? op).toList ++ parts.flatten
      | _ => parts.flatten ++ (scope.markOf? op).toList

theorem ownMarks_definition {op : Operation} (h : op.isCallableDefinition = true) :
    op.ownMarks scope = [] := by
  rw [ownMarks, fold_eq, if_pos h]

theorem ownMarks_delegateInvocation (span : Span) (target : Operation)
    (arguments : List Operation) :
    (delegateInvocation span target arguments).ownMarks scope =
      (scope.markOf? (delegateInvocation span target arguments)).toList ++
        (delegateInvocation span target arguments).children.flatMap (ownMarks scope) := by
  rw [ownMarks, fold_eq, ← ownMarks, List.flatMap_def]
  rfl

theorem ownMarks_eq {op : Operation} (h : op.isCallableDefinition = false)
    (hdelegate : ∀ span target arguments, op ≠ delegateInvocation span target arguments) :
    op.ownMarks scope = op.children.flatMap (ownMarks scope) ++ (scope.markOf? op).toList := by
  rw [ownMarks, fold_eq, ← ownMarks, List.flatMap_def, if_neg (by simp [h])]
  split
  case h_1 span target arguments => exact absurd rfl (hdelegate span target arguments)
  case h_2 => rfl

theorem ownMarks_of_none {op : Operation} (h : op.isCallableDefinition = false)
    (hnone : scope.markOf? op = none) :
    op.ownMarks scope = op.children.flatMap (ownMarks scope) := by
  rw [ownMarks, fold_eq, ← ownMarks, List.flatMap_def, if_neg (by simp [h]), hnone]
  split
  · rfl
  · exact List.append_nil _

theorem ownMarks_literal (span : Span) (value : Constant) :
    (literal span value).ownMarks scope = [] :=
  ownMarks_of_none rfl rfl

theorem ownMarks_localReference (span : Span) (x : LocalId) :
    (localReference span x).ownMarks scope = [] :=
  ownMarks_of_none rfl rfl

/-- The use sites of an invocation: those of its parts, and its own unless it is an assertion or
invokes a local function. -/
theorem walk_invocation_meets {span : Span} {target : SymbolId} {receiver : Option Operation}
    {arguments : List Operation}
    (hreceiver : ∀ op ∈ receiver, (op.walk scope).Meets (op.ownMarks scope))
    (harguments : ∀ op ∈ arguments, (op.walk scope).Meets (op.ownMarks scope)) :
    ((invocation span target receiver arguments).walk scope).Meets
      ((invocation span target receiver arguments).ownMarks scope) := by
  have parts : (invocation span target receiver arguments).children.flatMap (ownMarks scope) =
      receiver.toList.flatMap (ownMarks scope) ++ arguments.flatMap (ownMarks scope) :=
    List.flatMap_append
  cases hassert : scope.isAssertion target && !arguments.isEmpty with
  | false =>
    have own : ∀ w,
        Walk.marksOf [(if scope.callables.isLocalFunction target then
            WalkEvent.invoke (.function target) else .use target span) w] =
          (scope.markOf? (invocation span target receiver arguments)).toList := by
      intro w
      rw [scope.markOf?_call hassert]
      cases scope.callables.isLocalFunction target <;> rfl
    rw [walk_call hassert]
    refine Walk.meets_ofVisit fun w => ?_
    rw [ownMarks_eq rfl (by simp), parts, ← own w, Walk.marksOf_append, Walk.marksOf_append,
      Walk.marksOf_optionEvents hreceiver, Walk.marksOf_visitAll harguments]
  | true =>
    cases arguments with
    | nil => exact absurd hassert (by simp)
    | cons condition rest =>
      rw [walk_assertion (by simpa using hassert)]
      refine Walk.meets_ofVisit fun w => ?_
      rw [ownMarks_of_none rfl (scope.markOf?_assertion hassert), parts, List.flatMap_cons,
        Walk.marksOf_append, Walk.marksOf_append, Walk.marksOf_optionEvents hreceiver,
        (harguments condition List.mem_cons_self).split, Walk.marksOf_visitAll fun op hop =>
        harguments op (List.mem_cons_of_mem _ hop), List.append_assoc]

/-- The use sites of a binary operation: those of both operands, also where one is a truth
value that is not visited. -/
theorem walk_binary_meets {span : Span} {operator : BinaryOperator} {left right : Operation}
    (hleft : (left.walk scope).Meets (left.ownMarks scope))
    (hright : (right.walk scope).Meets (right.ownMarks scope)) :
    ((binary span operator left right).walk scope).Meets
      ((binary span operator left right).ownMarks scope) := by
  have parts : (binary span operator left right).ownMarks scope =
      left.ownMarks scope ++ right.ownMarks scope := by
    rw [ownMarks_of_none rfl rfl, children, List.flatMap_cons, List.flatMap_singleton]
  have plain : (Walk.plainOperator [left.walk scope, right.walk scope]).Meets
      (left.ownMarks scope ++ right.ownMarks scope) := by
    have both : ∀ op ∈ [left, right], (op.walk scope).Meets (op.ownMarks scope) := by
      intro op hop
      rcases List.mem_cons.1 hop with rfl | hop
      · exact hleft
      · exact List.mem_singleton.1 hop ▸ hright
    refine Walk.meets_ofSplit (fun w => ?_) fun w => rfl
    refine (Walk.marksOf_visitAll both w).trans ?_
    rw [List.flatMap_cons, List.flatMap_singleton]
  rw [parts]
  cases operator using BinaryOperator.cases_comparison with
  | and =>
    rw [walk]
    exact hleft.conjunction hright
  | or =>
    rw [walk]
    exact hleft.disjunction hright
  | comparison operator hop =>
    rw [walk_comparison hop]
    rcases comparedSide?_cases left right with ⟨b, hside, hr⟩ | ⟨b, hside, -, hl⟩ | ⟨hside, -, -⟩
    · obtain ⟨span', rfl⟩ := eq_literal_of_bool? hr
      rw [hside, ownMarks_literal, List.append_nil]
      exact hleft.comparison
    · obtain ⟨span', rfl⟩ := eq_literal_of_bool? hl
      rw [hside, ownMarks_literal, List.nil_append]
      exact hright.comparison
    · rw [hside]
      exact plain
  | other =>
    rw [walk]
    exact plain

/-- A walk meets each use site of its unit once. -/
theorem walk_marks (scope : WalkScope) (op : Operation) :
    (op.walk scope).Meets (op.ownMarks scope) := by
  induction op using children_induction with
  | step op ih =>
    cases op with
    | block span operations =>
      rw [walk, walkAll_eq_map, ownMarks_of_none rfl rfl]
      exact Walk.meets_ofVisit (Walk.marksOf_visitAll ih)
    | other span children =>
      rw [walk, walkAll_eq_map, ownMarks_of_none rfl rfl]
      exact Walk.meets_ofVisit (Walk.marksOf_visitAll ih)
    | conditional span condition whenTrue whenFalse =>
      have hcondition := ih condition (by simp [children])
      have htrue := ih whenTrue (by simp [children])
      rw [walk, walkOption_eq_map, ownMarks_of_none rfl rfl, children, List.flatMap_cons,
        List.flatMap_cons]
      refine Walk.meets_ofVisit fun w => ?_
      cases whenFalse with
      | none =>
        show Walk.marksOf (_ ++ _ ++ []) = _
        rw [List.append_nil, Walk.marksOf_append, hcondition.split, htrue.visit, Option.toList_none,
          List.flatMap_nil, List.append_nil]
      | some branch =>
        have hfalse := ih branch (by simp [children])
        show Walk.marksOf (_ ++ _ ++ _) = _
        rw [Walk.marksOf_append, Walk.marksOf_append, hcondition.split, htrue.visit,
          Option.toList_some, List.flatMap_singleton, List.append_assoc]
        exact congrArg _ (congrArg _ (hfalse.visit _))
    | loop span condition body =>
      have hbody := ih body (by simp [children])
      rw [walk, walkOption_eq_map, ownMarks_of_none rfl rfl, children]
      refine Walk.meets_through fun w => ?_
      cases condition with
      | none =>
        rw [Option.toList_none, List.nil_append, List.flatMap_singleton]
        exact hbody.visit w
      | some condition =>
        have hcondition := ih condition (by simp [children])
        rw [Option.toList_some, List.singleton_append, List.flatMap_cons, List.flatMap_singleton]
        show Walk.marksOf (_ ++ _) = _
        rw [Walk.marksOf_append, hcondition.split, hbody.visit]
    | switch span value cases =>
      have hvalue := ih value (by simp [children])
      have hcases : ∀ c ∈ cases, (c.walk scope).Meets (c.ownMarks scope) :=
        fun c hc => ih c (by simp [children, hc])
      rw [walk, walkAll_eq_map, ownMarks_of_none rfl rfl, children, List.flatMap_cons]
      refine Walk.meets_through fun w => ?_
      have each : Walk.marksOf ((cases.map (walk scope)).flatMap fun c => (c.visit w).events) =
          cases.flatMap (ownMarks scope) := by
        rw [Walk.marksOf, List.filterMap_flatMap, List.flatMap_map]
        exact List.flatMap_congr fun c hc => (hcases c hc).visit w
      rw [Walk.marksOf_append, hvalue.visit, each]
    | ret span value =>
      rw [walk, walkOption_eq_map, ownMarks_of_none rfl rfl]
      exact Walk.meets_ofVisit
        (Walk.marksOf_optionEvents fun op hop => ih op (by simpa [children] using hop))
    | raise span value =>
      rw [walk, walkOption_eq_map, ownMarks_of_none rfl rfl]
      exact Walk.meets_ofVisit
        (Walk.marksOf_optionEvents fun op hop => ih op (by simpa [children] using hop))
    | breakOut span =>
      rw [walk]
      exact Walk.meets_ofVisit fun w => rfl
    | continueLoop span =>
      rw [walk]
      exact Walk.meets_ofVisit fun w => rfl
    | invocation span target receiver arguments =>
      exact walk_invocation_meets
        (fun op hop => ih op (List.mem_append_left _ (Option.mem_toList.2 hop)))
        fun op hop => ih op (List.mem_append_right _ hop)
    | delegateInvocation span target arguments =>
      have htarget := ih target List.mem_cons_self
      have harguments : ∀ op ∈ arguments, (op.walk scope).Meets (op.ownMarks scope) :=
        fun op hop => ih op (List.mem_cons_of_mem _ hop)
      rw [ownMarks_delegateInvocation, children, List.flatMap_cons]
      by_cases hlambda : ∃ y, target.local? = some y ∧ scope.callables.isLambda y = true
      · obtain ⟨y, hlocal, hlambda⟩ := hlambda
        cases target with
        | localReference span' y' =>
          obtain rfl : y' = y := Option.some.inj hlocal
          rw [walk_lambdaCall hlambda, ownMarks_localReference, List.nil_append,
            scope.markOf?_lambdaCall hlambda]
          exact Walk.meets_through fun w => congrArg _ (Walk.marksOf_visitAll harguments w)
        | _ => exact absurd hlocal (by simp [local?])
      · have hother : ∀ y, target.local? = some y → scope.callables.isLambda y = false :=
          fun y hlocal => Bool.eq_false_iff.2 fun h => hlambda ⟨y, hlocal, h⟩
        rw [walk_delegate hother, scope.markOf?_delegate hother, Option.toList_none,
          List.nil_append]
        refine Walk.meets_through fun w => ?_
        rw [Walk.marksOf_append, htarget.visit, Walk.marksOf_visitAll harguments]
    | memberReference span member receiver =>
      have own : (memberReference span member receiver).ownMarks scope =
          receiver.toList.flatMap (ownMarks scope) ++ [.site ⟨member, span⟩] :=
        ownMarks_eq rfl (by simp)
      rw [walk, walkOption_eq_map, own]
      refine Walk.meets_ofVisit fun w => ?_
      rw [Walk.marksOf_append, Walk.marksOf_optionEvents fun op hop =>
        ih op (Option.mem_toList.2 hop)]
      rfl
    | methodReference span method =>
      have own : (methodReference span method).ownMarks scope =
          (scope.markOf? (methodReference span method)).toList := ownMarks_eq rfl (by simp)
      rw [walk, own, scope.markOf?_methodReference]
      cases scope.callables.isLocalFunction method with
      | true => exact Walk.meets_idle
      | false =>
        show (Walk.member none (.use method span) none).Meets [.site ⟨method, span⟩]
        exact Walk.meets_ofVisit fun w => rfl
    | objectCreation span constructor arguments =>
      have own : (objectCreation span constructor arguments).ownMarks scope =
          arguments.flatMap (ownMarks scope) ++ [.site ⟨constructor, span⟩] :=
        ownMarks_eq rfl (by simp)
      rw [walk, walkAll_eq_map, own]
      refine Walk.meets_ofVisit fun w => ?_
      have harguments := Walk.marksOf_visitAll ih w
      rw [children] at harguments
      rw [Walk.marksOf_append, Walk.marksOf_append, harguments]
      rfl
    | literal span value =>
      rw [ownMarks_literal]
      cases value with
      | bool b =>
        rw [walk]
        exact ⟨fun w => rfl, fun w => by cases b <;> rfl, fun w => by cases b <;> rfl⟩
      | _ =>
        rw [walk]
        · exact Walk.meets_idle
        · intro b
          simp
    | localReference span x =>
      rw [ownMarks_localReference, walk]
      cases scope.cached.find? x with
      | none => exact Walk.meets_idle
      | some e => exact ⟨fun w => rfl, Walk.marksOf_guardExpr e, Walk.marksOf_guardExpr e⟩
    | localAssignment span x value =>
      rw [walk, walkOption_eq_map, ownMarks_of_none rfl rfl]
      exact Walk.meets_through
        (Walk.marksOf_optionEvents fun op hop => ih op (by simpa [children] using hop))
    | unary span operator operand =>
      have hoperand := ih operand (by simp [children])
      rw [ownMarks_of_none rfl rfl, children, List.flatMap_singleton]
      cases operator with
      | not =>
        rw [walk]
        exact Walk.meets_ofSplit hoperand.split hoperand.silent
      | other =>
        rw [walk]
        refine Walk.meets_ofSplit (fun w => ?_) fun w => rfl
        refine (Walk.marksOf_visitAll ih w).trans ?_
        rw [children, List.flatMap_singleton]
    | binary span operator left right =>
      exact walk_binary_meets (ih left (by simp [children])) (ih right (by simp [children]))
    | localFunction span symbol body =>
      rw [walk, ownMarks_definition rfl]
      exact Walk.meets_idle
    | lambda span body =>
      rw [walk, ownMarks_definition rfl]
      exact Walk.meets_idle

end Operation

/-! ## Uses and invocations -/

def Walk.sitesOf (events : List WalkEvent) : List UseSite := events.filterMap WalkEvent.useSite?

/-- The callable that an event invokes. -/
def WalkEvent.callee? : WalkEvent → Option CallableKey
  | .invoke callee _ => some callee
  | _ => none

theorem Walk.sitesOf_eq (events : List WalkEvent) :
    sitesOf events = (marksOf events).filterMap Mark.site? := by
  rw [sitesOf, marksOf, List.filterMap_filterMap]
  exact List.filterMap_congr fun e _ => by cases e <;> rfl

namespace WalkScope

variable {scope : WalkScope} {op : Operation}

theorem markOf?_bind_site? : (scope.markOf? op).bind Mark.site? = scope.siteOf? op := by
  rw [markOf?]
  cases scope.siteOf? op with
  | some site => rfl
  | none => cases scope.calleeOf? op <;> rfl

/-- What invokes a callable of the body is no use site. -/
theorem siteOf?_of_calleeOf? {key : CallableKey} (h : scope.calleeOf? op = some key) :
    scope.siteOf? op = none := by
  cases op with
  | invocation span target receiver arguments =>
    rw [calleeOf?] at h
    split_ifs at h with hlocal
    rw [siteOf?, Operation.useSite?, (Bool.and_eq_true_iff.1 hlocal).1]
    rfl
  | delegateInvocation => rfl
  | _ => cases h

theorem markOf?_of_siteOf? {site : UseSite} (h : scope.siteOf? op = some site) :
    scope.markOf? op = some (.site site) := by
  rw [markOf?, h]

theorem markOf?_of_calleeOf? {key : CallableKey} (h : scope.calleeOf? op = some key) :
    scope.markOf? op = some (.call key) := by
  rw [markOf?, siteOf?_of_calleeOf? h, h]
  rfl

theorem markOf?_bind_callee? : (scope.markOf? op).bind Mark.callee? = scope.calleeOf? op := by
  rw [markOf?]
  cases hcallee : scope.calleeOf? op with
  | some key =>
    rw [siteOf?_of_calleeOf? hcallee]
    rfl
  | none => cases scope.siteOf? op <;> rfl

theorem markOf?_definition (h : op.isCallableDefinition = true) : scope.markOf? op = none := by
  cases op with
  | localFunction | lambda => rfl
  | _ => cases h

end WalkScope

namespace Operation

variable {scope : WalkScope}

def ownSites (scope : WalkScope) (op : Operation) : List UseSite :=
  op.ownNodes.filterMap scope.siteOf?

theorem ownMarks_perm (scope : WalkScope) (op : Operation) :
    (op.ownMarks scope).Perm (op.ownNodes.filterMap scope.markOf?) := by
  induction op using children_induction with
  | step op ih =>
    cases hdef : op.isCallableDefinition with
    | true =>
      rw [ownMarks_definition hdef, ownNodes_eq, if_pos hdef, List.filterMap_cons,
        scope.markOf?_definition hdef]
      exact .refl _
    | false =>
      have nodes : op.ownNodes.filterMap scope.markOf? =
          op.children.flatMap (fun child => child.ownNodes.filterMap scope.markOf?) ++
          (scope.markOf? op).toList := by
        rw [ownNodes_eq, if_neg (by simp [hdef]), List.filterMap_append, List.filterMap_flatMap,
          List.filterMap_cons]
        cases scope.markOf? op <;> rfl
      rw [nodes]
      refine List.Perm.trans ?_ ((List.Perm.flatMap_left _ ih).append_right _)
      cases op with
      | delegateInvocation span target arguments =>
        rw [ownMarks_delegateInvocation]
        exact List.perm_append_comm
      | _ => rw [ownMarks_eq hdef (by simp)]

/-- The sites among the marks are in the same order: no delegate that is called is a use site. -/
theorem ownMarks_sites (scope : WalkScope) (op : Operation) :
    (op.ownMarks scope).filterMap Mark.site? = op.ownSites scope := by
  induction op using children_induction with
  | step op ih =>
    cases hdef : op.isCallableDefinition with
    | true =>
      have none : scope.siteOf? op = none := by
        rw [← scope.markOf?_bind_site?, scope.markOf?_definition hdef, Option.bind_none]
      rw [ownMarks_definition hdef, ownSites, ownNodes_eq, if_pos hdef, List.filterMap_cons, none]
      rfl
    | false =>
      have nodes : op.ownSites scope = op.children.flatMap (ownSites scope) ++
          (scope.siteOf? op).toList := by
        rw [ownSites, ownNodes_eq, if_neg (by simp [hdef]), List.filterMap_append,
          List.filterMap_flatMap, List.filterMap_cons]
        cases scope.siteOf? op <;> rfl
      have parts : (op.children.flatMap (ownMarks scope)).filterMap Mark.site? =
          op.children.flatMap (ownSites scope) := by
        rw [List.filterMap_flatMap]
        exact List.flatMap_congr ih
      have own : (scope.markOf? op).toList.filterMap Mark.site? = (scope.siteOf? op).toList := by
        rw [← scope.markOf?_bind_site?]
        cases scope.markOf? op with
        | none => rfl
        | some mark => cases mark <;> rfl
      cases op with
      | delegateInvocation span target arguments =>
        rw [ownMarks_delegateInvocation, List.filterMap_append, parts, own, nodes]
        exact (List.append_nil _).symm
      | _ => rw [ownMarks_eq hdef (by simp), List.filterMap_append, parts, own, nodes]

/-- The uses on a walk are the use sites of its unit, in the order of evaluation. -/
theorem walk_uses (scope : WalkScope) (op : Operation) (w : Worlds) :
    Walk.sitesOf ((op.walk scope).visit w).events = op.ownSites scope := by
  rw [Walk.sitesOf_eq, (op.walk_marks scope).visit, ownMarks_sites]

/-- The invocations on a walk are those of its unit, assertions apart. -/
theorem walk_calls (scope : WalkScope) (op : Operation) (w : Worlds) :
    (((op.walk scope).visit w).events.filterMap WalkEvent.callee?).Perm
      (op.ownNodes.filterMap scope.calleeOf?) := by
  have events : ((op.walk scope).visit w).events.filterMap WalkEvent.callee? =
      (op.ownMarks scope).filterMap Mark.callee? := by
    rw [← (op.walk_marks scope).visit w, Walk.marksOf, List.filterMap_filterMap]
    exact List.filterMap_congr fun e _ => by cases e <;> rfl
  have nodes : op.ownNodes.filterMap scope.calleeOf? =
      (op.ownNodes.filterMap scope.markOf?).filterMap Mark.callee? := by
    rw [List.filterMap_filterMap]
    exact List.filterMap_congr fun node _ => scope.markOf?_bind_callee?.symm
  rw [events, nodes]
  exact (op.ownMarks_perm scope).filterMap _

end Operation

end PlatformGuard
