import PlatformGuard.Proofs.CachedLocal
import PlatformGuard.Proofs.Escape
import PlatformGuard.Proofs.WalkMarks

/-!
# The walk of a body ends

The walk of an operation is put together from the walks of its parts, and a local that stands for a
guard expression is split on by the expression. As a procedure the walk is three kinds of calls that
lead to each other: to visit, to visit in a row, and to split. To visit an operator is to split on
it, to split on anything else is to visit it, and to split on a local is to split on its value,
which is no part of it and may itself read locals, that one among them.

`WalkCalls.within` answers these calls as long as they are nested to some depth only. It answers all
of them with what the walk gives (`WalkCalls.settles_ofBody`), for the value of a local is split on
by its checks alone: it is split on alike whatever is known of locals, even if no read of a local
ever had an answer (`WalkCalls.split_guardExpr`).
-/

namespace PlatformGuard

/-! ## Heights -/

namespace Operation

/-- The number of operations on the longest way down. -/
def height : Operation → Nat :=
  fold fun _ below => below.foldr max 0 + 1

def isOperator : Operation → Bool
  | binary .. | unary .. => true
  | _ => false

theorem height_eq (op : Operation) : op.height = (op.children.map height).foldr max 0 + 1 := by
  rw [height, fold_eq, ← height]

theorem exists_succ_of_height_le {op : Operation} {depth : Nat} (h : op.height ≤ depth) :
    ∃ n, depth = n + 1 := by
  rw [op.height_eq] at h
  exact ⟨depth - 1, by omega⟩

theorem height_lt_of_mem_children {op child : Operation} (h : child ∈ op.children) :
    child.height < op.height := by
  have bounded : ∀ {heights : List Nat} {n : Nat}, n ∈ heights → n ≤ heights.foldr max 0 := by
    intro heights n hn
    induction heights with
    | nil => exact absurd hn List.not_mem_nil
    | cons m rest ih =>
      rcases List.mem_cons.1 hn with rfl | hn
      · exact Nat.le_max_left _ _
      · exact Nat.le_trans (ih hn) (Nat.le_max_right _ _)
  rw [op.height_eq]
  exact Nat.lt_succ_of_le (bounded (List.mem_map_of_mem h))

theorem height_le_of_mem_subterms {op node : Operation} (h : node ∈ op.subterms) :
    node.height ≤ op.height := by
  induction op using children_induction with
  | step op ih =>
    rcases mem_subterms.1 h with rfl | ⟨child, hchild, hnode⟩
    · exact Nat.le_refl _
    · exact Nat.le_trans (ih child hchild hnode) (Nat.le_of_lt (height_lt_of_mem_children hchild))

theorem height_initializer? {r : GuardReader} {body value : Operation} {x : LocalId}
    (h : body.initializer? r x = some value) : value.height < body.height := by
  obtain ⟨assigned, -, -⟩ := initializer?_eq_some_iff.1 h
  have mem : value ∈ body.assignedValues x := assigned ▸ List.mem_cons_self
  obtain ⟨op, hop, hvalue⟩ := List.mem_filterMap.1 mem
  have child : value ∈ op.children := by
    split at hvalue
    case h_1 =>
      split at hvalue
      case isTrue => simpa [children] using (Option.some.inj hvalue).symm
      case isFalse => cases hvalue
    case h_2 => cases hvalue
  exact Nat.lt_of_lt_of_le (height_lt_of_mem_children child) (height_le_of_mem_subterms hop)

theorem eq_localReference_of_local? {op : Operation} {x : LocalId} (h : op.local? = some x) :
    ∃ span, op = localReference span x := by
  cases op with
  | localReference span y => exact ⟨span, congrArg _ (Option.some.inj h)⟩
  | _ => cases h

end Operation

/-! ## Calls -/

def Visit.polled (v : Visit) : Visit := ⟨.poll :: v.events, v.after⟩

def Split.polled (s : Split) : Split := ⟨.poll :: s.events, s.whenTrue, s.whenFalse⟩

/-- A walk splits by the worlds of a check, if any; its events are those of a visit. -/
def Walk.SplitsByVisit (k : Walk) (guard : Option Worlds) : Prop :=
  ∀ report w, k.split report w =
    Split.polled ⟨if report then (k.visit w).events else [],
      guard.elim w w.inter, guard.elim w w.sdiff⟩

theorem Walk.splitsByVisit_ofVisit (guard : Option Worlds) (visit : Worlds → Visit) :
    (ofVisit guard visit).SplitsByVisit guard := by
  intro report w
  cases guard <;> rfl

/-- How calls are answered; none for a call that is not. -/
structure WalkCalls where
  visit : Operation → Worlds → Option Visit
  /-- Splits on an operation; the uses within it are events where they are asked for. -/
  split : (report : Bool) → Operation → Worlds → Option Split

namespace WalkCalls

/-- Visits one after the other. Once control does not fall through, what follows is visited in no
world. -/
def visitAll (calls : WalkCalls) : (falls : Bool) → List Operation → Worlds → Option Visit
  | falls, [], w => some ⟨[], if falls then some w else none⟩
  | falls, op :: ops, w =>
    (calls.visit op w).bind fun first =>
      let rest := match first.after with
        | some next => calls.visitAll falls ops (if falls then next else w)
        | none => calls.visitAll false ops .none
      rest.map fun rest => ⟨first.events ++ rest.events, rest.after⟩

/-- The events of visiting each in the same worlds. -/
def visitEach (calls : WalkCalls) : List Operation → Worlds → Option (List WalkEvent)
  | [], _ => some []
  | op :: ops, w =>
    (calls.visit op w).bind fun first => (calls.visitEach ops w).map fun rest =>
    first.events ++ rest

def visitBranch (calls : WalkCalls) : Option Operation → Worlds → Option Visit
  | some branch, w => calls.visit branch w
  | none, w => some ⟨[], some w⟩

/-- The events of a loop's condition, and the worlds in which it is true. -/
def enterLoop (calls : WalkCalls) : Option Operation → Worlds → Option (List WalkEvent × Worlds)
  | some condition, w => (calls.split true condition w).map fun s => (s.events, s.whenTrue)
  | none, w => some ([], w)

/-- A call of a member: an assertion splits on its first argument, anything else is an
event after the arguments. -/
def visitCall (calls : WalkCalls) (asserts : Bool) (event : WalkEvent)
    (onReceiver : List WalkEvent) (w : Worlds) :
    List Operation → Option Visit
  | [] => some ⟨onReceiver ++ [event], some w⟩
  | argument :: rest =>
    if asserts then do
      let s ← calls.split true argument w
      let v ← calls.visitAll true rest s.whenTrue
      return ⟨onReceiver ++ s.events ++ v.events, some s.whenTrue⟩
    else do
      let v ← calls.visitAll true (argument :: rest) w
      return ⟨onReceiver ++ v.events ++ [event], some w⟩

/-- The calls that a visit makes, and what it gives. -/
def visitOp (calls : WalkCalls) (scope : WalkScope) (op : Operation) (w : Worlds) : Option Visit :=
  match op with
  | .block _ ops | .other _ ops => calls.visitAll true ops w
  | .conditional _ condition whenTrue whenFalse => do
    let s ← calls.split true condition w
    let onTrue ← calls.visit whenTrue s.whenTrue
    let onFalse ← calls.visitBranch whenFalse s.whenFalse
    return ⟨s.events ++ onTrue.events ++ onFalse.events, Walk.joinAfter onTrue.after onFalse.after⟩
  | .loop _ condition body => do
    let entered ← calls.enterLoop condition w
    let v ← calls.visit body entered.2
    return ⟨entered.1 ++ v.events, some w⟩
  | .switch _ value cases => do
    let v ← calls.visit value w
    let events ← calls.visitEach cases w
    return ⟨v.events ++ events, some w⟩
  | .ret _ value | .raise _ value => do
    let events ← calls.visitEach value.toList w
    return ⟨events, none⟩
  | .breakOut _ | .continueLoop _ => some ⟨[], none⟩
  | .invocation span target receiver arguments => do
    let onReceiver ← calls.visitEach receiver.toList w
    let event :=
      if scope.callables.isLocalFunction target then WalkEvent.invoke (.function target)
      else .use target span
    calls.visitCall (scope.isAssertion target) (event w) onReceiver w arguments
  | .delegateInvocation _ target arguments => do
    let invoked ←
      if target.local?.any scope.callables.isLambda then
        some (target.local?.toList.map fun x => .invoke (.lambda x) w)
      else calls.visitEach [target] w
    let v ← calls.visitAll true arguments w
    return ⟨invoked ++ v.events, some w⟩
  | .memberReference span member receiver => do
    let onReceiver ← calls.visitEach receiver.toList w
    return ⟨onReceiver ++ [.use member span w], some w⟩
  | .methodReference span method =>
    some ⟨if scope.callables.isLocalFunction method then [] else [.use method span w], some w⟩
  | .objectCreation span constructor arguments => do
    let v ← calls.visitAll true arguments w
    return ⟨v.events ++ [.use constructor span w], some w⟩
  | .localAssignment _ _ value => do
    let events ← calls.visitEach value.toList w
    return ⟨events, some w⟩
  | .binary .. | .unary .. => (calls.split true op w).map fun s => ⟨s.events, some w⟩
  | .literal .. | .localReference .. | .localFunction .. | .lambda .. => some ⟨[], some w⟩

/-- Splits on what is no operator, by what it says as a check; it is visited for the uses within. -/
def splitVisited (calls : WalkCalls) (guard : Option Worlds) (report : Bool)
    (c : Operation) (w : Worlds) :
    Option Split := do
  let events ← if report then calls.visitEach [c] w else some []
  return match guard with
    | some g => ⟨events, w.inter g, w.sdiff g⟩
    | none => ⟨events, w, w⟩

/-- Splits on an operator that says nothing about platforms; its operands are
visited for the uses within. -/
def splitPlain (calls : WalkCalls) (report : Bool) (operands : List Operation) (w : Worlds) :
    Option Split := do
  let v ← if report then calls.visitAll true operands w else some ⟨[], some w⟩
  return ⟨v.events, w, w⟩

/-- The calls that a split makes, and what it gives, where `locals` are the values
that locals stand for. -/
def splitOp (calls : WalkCalls) (scope : WalkScope) (locals : LocalId → Option Operation)
    (report : Bool) (c : Operation) (w : Worlds) : Option Split :=
  match c with
  | .literal _ (.bool b) => some (if b then ⟨[], w, .none⟩ else ⟨[], .none, w⟩)
  | .unary _ .not operand => (calls.split report operand w).map Split.swap
  | .unary _ .other operand => calls.splitPlain report [operand] w
  | .binary _ operator left right =>
    match operator with
    | .and => do
      let l ← calls.split report left w
      let r ← calls.split report right l.whenTrue
      return ⟨l.events ++ r.events, r.whenTrue, l.whenFalse.union r.whenFalse⟩
    | .or => do
      let l ← calls.split report left w
      let r ← calls.split report right l.whenFalse
      return ⟨l.events ++ r.events, l.whenTrue.union r.whenTrue, r.whenFalse⟩
    | .equals | .notEquals =>
      match comparedSide? left right with
      | some (.left b) =>
        (calls.split report left w).map fun s => if operator.keepsOperand b then s else s.swap
      | some (.right b) =>
        (calls.split report right w).map fun s => if operator.keepsOperand b then s else s.swap
      | none => calls.splitPlain report [left, right] w
    | .other => calls.splitPlain report [left, right] w
  | .invocation _ target _ arguments =>
    calls.splitVisited (scope.callWorlds? target arguments) report c w
  | .memberReference _ member _ => calls.splitVisited (scope.memberWorlds? member) report c w
  | .localReference _ x =>
    match locals x with
    | some value => calls.split false value w
    | none => calls.splitVisited none report c w
  | _ => calls.splitVisited none report c w

/-- One more level of calls. Each begins with a poll. -/
def next (calls : WalkCalls) (scope : WalkScope) (locals : LocalId → Option Operation) :
    WalkCalls where
  visit op w := (calls.visitOp scope op w).map Visit.polled
  split report c w := (calls.splitOp scope locals report c w).map Split.polled

def within (scope : WalkScope) (locals : LocalId → Option Operation) : Nat → WalkCalls
  | 0 => ⟨fun _ _ => none, fun _ _ _ => none⟩
  | depth + 1 => (within scope locals depth).next scope locals

/-- Calls about the operations of a body that are nested to some depth. -/
def ofBody (r : GuardReader) (body : Operation) (depth : Nat) : WalkCalls :=
  within (.ofBody r body) (body.initializer? r) depth

/-! ## Answers -/

variable {calls : WalkCalls} {scope : WalkScope} {locals : LocalId → Option Operation}
    {op : Operation} {w : Worlds}

/-- A visit is answered with what the walk of the operation gives. -/
def Visits (calls : WalkCalls) (scope : WalkScope) (op : Operation) : Prop :=
  ∀ w, calls.visit op w = some ((op.walk scope).visit w)

/-- A split is answered with what the walk of the operation gives. -/
def Splits (calls : WalkCalls) (scope : WalkScope) (op : Operation) : Prop :=
  ∀ report w, calls.split report op w = some ((op.walk scope).split report w)

theorem next_visit : (calls.next scope locals).visit op w =
    (calls.visitOp scope op w).map Visit.polled := rfl

theorem next_split {report : Bool} :
    (calls.next scope locals).split report op w =
      (calls.splitOp scope locals report op w).map Split.polled := rfl

/-- What follows a part that does not fall through. -/
theorem visitAll_false {ops : List Operation} (h : ∀ op ∈ ops, calls.Visits scope op) :
    calls.visitAll false ops .none =
      some ⟨(ops.map (Operation.walk scope)).flatMap fun k => (k.visit .none).events, none⟩ := by
  induction ops with
  | nil => rfl
  | cons op ops ih =>
    obtain ⟨first, rest⟩ := List.forall_mem_cons.1 h
    rw [visitAll, first, Option.bind_some, List.map_cons, List.flatMap_cons]
    cases ((op.walk scope).visit .none).after with
    | none => dsimp only; rw [ih rest]; rfl
    | some next => dsimp only; rw [if_neg Bool.false_ne_true, ih rest]; rfl

theorem visitAll_eq {ops : List Operation} (h : ∀ op ∈ ops, calls.Visits scope op) (w : Worlds) :
    calls.visitAll true ops w = some (Walk.visitAll (ops.map (Operation.walk scope)) w) := by
  induction ops generalizing w with
  | nil => rfl
  | cons op ops ih =>
    obtain ⟨first, rest⟩ := List.forall_mem_cons.1 h
    rw [visitAll, first, Option.bind_some, List.map_cons, Walk.visitAll]
    -- where the first part does not fall through, the induction hypothesis is not about what
    -- follows
    cases ((op.walk scope).visit w).after with
    | none => dsimp only; rw [visitAll_false rest]; rfl
    | some next => dsimp only; rw [if_pos rfl, ih rest]; rfl

theorem visitEach_eq {ops : List Operation} (h : ∀ op ∈ ops, calls.Visits scope op) (w : Worlds) :
    calls.visitEach ops w =
      some ((ops.map (Operation.walk scope)).flatMap fun k => (k.visit w).events) := by
  induction ops with
  | nil => rfl
  | cons op ops ih =>
    obtain ⟨first, rest⟩ := List.forall_mem_cons.1 h
    rw [visitEach, first, Option.bind_some, ih rest]
    rfl

theorem visitEach_toList {value : Option Operation}
    (h : ∀ op ∈ value.toList, calls.Visits scope op) (w : Worlds) :
    calls.visitEach value.toList w =
      some (Walk.optionEvents (value.map (Operation.walk scope)) w) := by
  rw [visitEach_eq h]
  cases value with
  | none => rfl
  | some op => exact congrArg some (List.append_nil _)

/-- Calls about an operation are answered. -/
structure Settles (calls : WalkCalls) (scope : WalkScope) (op : Operation) : Prop where
  visits : calls.Visits scope op
  splits : calls.Splits scope op

section

variable {span : Span}

theorem visits_conditional {condition whenTrue : Operation} {whenFalse : Option Operation}
    (onCondition : calls.Splits scope condition) (onTrue : calls.Visits scope whenTrue)
    (onFalse : ∀ branch ∈ whenFalse, calls.Visits scope branch) :
    (calls.next scope locals).Visits scope (.conditional span condition whenTrue whenFalse) := by
  intro w
  rw [next_visit, Operation.walk, Operation.walkOption_eq_map, visitOp, onCondition true w,
    Option.bind_eq_bind, Option.bind_some, onTrue, Option.bind_eq_bind, Option.bind_some]
  cases whenFalse with
  | none => rfl
  | some branch =>
    rw [visitBranch, onFalse branch rfl]
    rfl

theorem visits_loop {condition : Option Operation} {body : Operation}
    (onCondition : ∀ c ∈ condition, calls.Splits scope c) (onBody : calls.Visits scope body) :
    (calls.next scope locals).Visits scope (.loop span condition body) := by
  intro w
  rw [next_visit, Operation.walk, Operation.walkOption_eq_map, visitOp]
  cases condition with
  | none =>
    rw [enterLoop, Option.bind_eq_bind, Option.bind_some, onBody]
    rfl
  | some condition =>
    rw [enterLoop, onCondition condition rfl, Option.map_some, Option.bind_eq_bind,
      Option.bind_some, onBody]
    rfl

theorem visits_invocation {target : SymbolId} {receiver : Option Operation}
    {arguments : List Operation} (onReceiver : ∀ part ∈ receiver.toList, calls.Visits scope part)
    (onArguments : ∀ part ∈ arguments, calls.Settles scope part) :
    (calls.next scope locals).Visits scope (.invocation span target receiver arguments) := by
  intro w
  have visits : ∀ part ∈ arguments, calls.Visits scope part :=
    fun part hpart => (onArguments part hpart).visits
  rw [next_visit, visitOp, visitEach_toList onReceiver, Option.bind_eq_bind, Option.bind_some]
  cases arguments with
  | nil =>
    rw [Operation.walk_call (by simp), visitCall]
    simp [Walk.call, Walk.ofVisit, Walk.visitAll, Visit.polled]
  | cons argument rest =>
    rw [visitCall]
    cases hassert : scope.isAssertion target with
    | true =>
      have onRest : ∀ part ∈ rest, calls.Visits scope part := fun part hpart =>
        visits part (List.mem_cons_of_mem _ hpart)
      rw [Operation.walk_assertion hassert, if_pos rfl,
        (onArguments argument List.mem_cons_self).splits, Option.bind_eq_bind, Option.bind_some,
        visitAll_eq onRest]
      rfl
    | false =>
      rw [Operation.walk_call (by simp [hassert]), if_neg Bool.false_ne_true, visitAll_eq visits]
      rfl

theorem visits_delegate {target : Operation} {arguments : List Operation}
    (onTarget : calls.Visits scope target)
    (onArguments : ∀ part ∈ arguments, calls.Visits scope part) :
    (calls.next scope locals).Visits scope (.delegateInvocation span target arguments) := by
  intro w
  rw [next_visit, visitOp, visitAll_eq onArguments]
  cases hlambda : target.local?.any scope.callables.isLambda with
  | true =>
    obtain ⟨x, hlocal, hx⟩ := (Option.any_eq_true _ _).1 hlambda
    obtain ⟨span', rfl⟩ := Operation.eq_localReference_of_local? hlocal
    rw [Operation.walk_lambdaCall hx, if_pos rfl]
    rfl
  | false =>
    have plain : ∀ x, target.local? = some x → scope.callables.isLambda x = false := by
      intro x hx
      simpa [hx] using hlambda
    have visits : ∀ part ∈ [target], calls.Visits scope part := List.forall_mem_singleton.2 onTarget
    rw [Operation.walk_delegate plain, if_neg Bool.false_ne_true, visitEach_eq visits]
    simp [Walk.delegate, Walk.through, Walk.ofVisit, Visit.polled]

end

/-- What is no operator is visited as the walk does, once calls about its parts are answered. -/
theorem next_visits (plain : op.isOperator = false)
    (h : ∀ child ∈ op.children, calls.Settles scope child) :
    (calls.next scope locals).Visits scope op := by
  cases op with
  | binary span operator left right | unary span operator operand => cases plain
  | conditional span condition whenTrue whenFalse =>
    exact visits_conditional (h condition (by simp [Operation.children])).splits
      (h whenTrue (by simp [Operation.children])).visits
      fun branch hbranch =>
      (h branch (by simp [Operation.children, Option.mem_def.1 hbranch])).visits
  | loop span condition body =>
    exact visits_loop (fun c hc => (h c (by simp [Operation.children, Option.mem_def.1 hc])).splits)
      (h body (by simp [Operation.children])).visits
  | invocation span target receiver arguments =>
    exact visits_invocation (fun part hpart => (h part (List.mem_append_left _ hpart)).visits)
      fun part hpart => h part (List.mem_append_right _ hpart)
  | delegateInvocation span target arguments =>
    exact visits_delegate (h target List.mem_cons_self).visits
      fun part hpart => (h part (List.mem_cons_of_mem _ hpart)).visits
  | block span parts | other span parts | objectCreation span constructor parts =>
    intro w
    have visits : ∀ part ∈ parts, calls.Visits scope part := fun part hpart => (h part hpart).visits
    rw [next_visit, Operation.walk, Operation.walkAll_eq_map, visitOp, visitAll_eq visits]
    rfl
  | switch span value cases =>
    intro w
    have visits : ∀ part ∈ cases, calls.Visits scope part := fun part hpart =>
      (h part (List.mem_cons_of_mem _ hpart)).visits
    rw [next_visit, Operation.walk, Operation.walkAll_eq_map, visitOp,
      (h value List.mem_cons_self).visits, Option.bind_eq_bind, Option.bind_some,
      visitEach_eq visits]
    rfl
  | ret span value | raise span value | localAssignment span var value
  | memberReference span member value =>
    intro w
    have visits : ∀ part ∈ value.toList, calls.Visits scope part :=
      fun part hpart => (h part hpart).visits
    rw [next_visit, Operation.walk, Operation.walkOption_eq_map, visitOp, visitEach_toList visits]
    rfl
  | methodReference span name | localReference span name =>
    intro w
    rw [next_visit, Operation.walk, visitOp]
    split <;> rfl
  | literal span value =>
    intro w
    rw [next_visit]
    cases value with
    | bool b =>
      rw [Operation.walk]
      rfl
    | _ =>
      rw [Operation.walk]
      · rfl
      · intro b
        simp
  | breakOut span | continueLoop span | localFunction span symbol body | lambda span body =>
    intro w
    rw [Operation.walk]
    rfl

/-- An operator is visited as the walk does, once it is split on. -/
theorem next_visits_operator (isOperator : op.isOperator = true) (h : calls.Splits scope op) :
    (calls.next scope locals).Visits scope op := by
  intro w
  rw [next_visit]
  cases op with
  | unary span operator operand =>
    rw [visitOp, h true w]
    cases operator <;> rw [Operation.walk] <;> rfl
  | binary span operator left right =>
    rw [visitOp, h true w]
    cases operator using BinaryOperator.cases_comparison with
    | and | or | other => rw [Operation.walk]; rfl
    | comparison operator hop =>
      rw [Operation.walk_comparison hop]
      split <;> rfl
  | _ => cases isOperator

/-- What is walked by a visit is split on as the walk does, once it is visited. -/
theorem splitVisited_eq (guard : Option Worlds) (walked : (op.walk scope).SplitsByVisit guard)
    (h : calls.Visits scope op) (report : Bool) (w : Worlds) :
    (calls.splitVisited guard report op w).map Split.polled =
      some ((op.walk scope).split report w) := by
  rw [walked report w]
  cases report with
  | false => cases guard <;> rfl
  | true =>
    have visits : ∀ part ∈ [op], calls.Visits scope part := List.forall_mem_singleton.2 h
    rw [splitVisited, if_pos rfl, visitEach_eq visits, List.map_singleton, List.flatMap_singleton]
    cases guard <;> rfl

/-- What is neither an operator nor a local is split on as the walk does, once it is visited. -/
theorem next_splits (plain : op.isOperator = false) (noLocal : op.local? = none)
    (h : calls.Visits scope op) :
    (calls.next scope locals).Splits scope op := by
  intro report w
  rw [next_split]
  cases op with
  | binary span operator left right | unary span operator operand => cases plain
  | localReference span x => cases noLocal
  | literal span value =>
    cases value with
    | bool b =>
      rw [splitOp, Operation.walk]
      cases b <;> rfl
    | _ =>
      refine splitVisited_eq none ?_ h report w
      rw [Operation.walk]
      · exact fun _ _ => rfl
      · intro b
        simp
  | invocation span target receiver arguments =>
    refine splitVisited_eq (scope.callWorlds? target arguments) ?_ h report w
    rw [Operation.walk]
    split <;> exact Walk.splitsByVisit_ofVisit _ _
  | memberReference span member receiver =>
    refine splitVisited_eq (scope.memberWorlds? member) ?_ h report w
    rw [Operation.walk]
    exact Walk.splitsByVisit_ofVisit _ _
  | delegateInvocation span target arguments =>
    refine splitVisited_eq none ?_ h report w
    rw [Operation.walk]
    split
    · split <;> exact fun _ _ => rfl
    · exact fun _ _ => rfl
  | methodReference span method =>
    refine splitVisited_eq none ?_ h report w
    rw [Operation.walk]
    split <;> exact fun _ _ => rfl
  | _ =>
    refine splitVisited_eq none ?_ h report w
    rw [Operation.walk]
    exact fun _ _ => rfl

theorem splitPlain_eq {operands : List Operation} (h : ∀ part ∈ operands, calls.Visits scope part)
    (report : Bool) (w : Worlds) :
    (calls.splitPlain report operands w).map Split.polled =
      some ((Walk.plainOperator (operands.map (Operation.walk scope))).split report w) := by
  cases report with
  | false => rfl
  | true =>
    rw [splitPlain, if_pos rfl, visitAll_eq h]
    rfl

section

variable {span : Span} {operator : BinaryOperator} {left right : Operation} {b report : Bool}

theorem splitOp_left (hop : operator = .equals ∨ operator = .notEquals)
    (side : comparedSide? left right = some (.left b)) :
    calls.splitOp scope locals report (.binary span operator left right) w =
      (calls.split report left w).map fun s => if operator.keepsOperand b then s else s.swap := by
  rcases hop with rfl | rfl <;> simp only [splitOp, side]

theorem splitOp_right (hop : operator = .equals ∨ operator = .notEquals)
    (side : comparedSide? left right = some (.right b)) :
    calls.splitOp scope locals report (.binary span operator left right) w =
      (calls.split report right w).map fun s => if operator.keepsOperand b then s else s.swap := by
  rcases hop with rfl | rfl <;> simp only [splitOp, side]

theorem splitOp_uncompared (hop : operator = .equals ∨ operator = .notEquals)
    (side : comparedSide? left right = none) :
    calls.splitOp scope locals report (.binary span operator left right) w =
      calls.splitPlain report [left, right] w := by
  rcases hop with rfl | rfl <;> simp only [splitOp, side]

end

/-- An operator is split on as the walk does, once calls about its operands are answered. -/
theorem next_splits_operator (isOperator : op.isOperator = true)
    (h : ∀ child ∈ op.children, calls.Settles scope child) :
    (calls.next scope locals).Splits scope op := by
  intro report w
  rw [next_split]
  cases op with
  | unary span operator operand =>
    have onOperand := h operand (by simp [Operation.children])
    cases operator with
    | not =>
      rw [splitOp, onOperand.splits report w, Operation.walk]
      rfl
    | other =>
      have visits : ∀ part ∈ [operand], calls.Visits scope part :=
        List.forall_mem_singleton.2 onOperand.visits
      rw [splitOp, splitPlain_eq visits, Operation.walk]
      rfl
  | binary span operator left right =>
    have onLeft := h left (by simp [Operation.children])
    have onRight := h right (by simp [Operation.children])
    have visits : ∀ part ∈ [left, right], calls.Visits scope part :=
      List.forall_mem_cons.2 ⟨onLeft.visits, List.forall_mem_singleton.2 onRight.visits⟩
    cases operator using BinaryOperator.cases_comparison with
    | and | or =>
      rw [splitOp, onLeft.splits report w, Option.bind_eq_bind, Option.bind_some, onRight.splits,
        Operation.walk]
      rfl
    | comparison operator hop =>
      rw [Operation.walk_comparison hop]
      cases side : comparedSide? left right with
      | none =>
        rw [splitOp_uncompared hop side, splitPlain_eq visits]
        rfl
      | some compared =>
        cases compared with
        | left b =>
          rw [splitOp_left hop side, onLeft.splits report w]
          rfl
        | right b =>
          rw [splitOp_right hop side, onRight.splits report w]
          rfl
    | other =>
      rw [splitOp, splitPlain_eq visits, Operation.walk]
      rfl
  | _ => cases isOperator

/-! ## Values of locals -/

/-- A guard expression is split on by its checks and truth values, within the depth of its own
height. What locals stand for does not matter, so none is read. -/
theorem split_guardExpr {c : Operation} {e : GuardExpr}
    (h : GuardExpr.ofOperation? scope.reader c = some e) (locals : LocalId → Option Operation)
    {depth : Nat} (deep : c.height ≤ depth) (w : Worlds) :
    (within scope locals depth).split false c w = some (e.split w) := by
  induction c using Operation.children_induction generalizing e depth w with
  | step c ih =>
    obtain ⟨depth, rfl⟩ := Operation.exists_succ_of_height_le deep
    have below : ∀ {a : Operation}, a ∈ c.children → a.height ≤ depth := fun ha =>
      Nat.le_of_lt_succ (Nat.lt_of_lt_of_le (Operation.height_lt_of_mem_children ha) deep)
    have side : ∀ {a : Operation} {d : GuardExpr}, a ∈ c.children →
        (GuardExpr.ofOperation? scope.reader a = some d ∨ ∃ v, a.bool? = some v ∧ d = .constant v) →
        ∀ w, (within scope locals depth).split false a w = some (d.split w) := by
      rintro a d ha (hd | ⟨v, hv, rfl⟩) w
      · exact ih a ha hd (below ha) w
      · obtain ⟨span, rfl⟩ := Operation.eq_literal_of_bool? hv
        obtain ⟨n, rfl⟩ := Operation.exists_succ_of_height_le (below ha)
        cases v <;> rfl
    rw [within, next_split]
    cases c with
    | invocation span target receiver arguments =>
      obtain ⟨g, hg, rfl⟩ := Option.map_eq_some_iff.1 h
      rw [splitOp, WalkScope.callWorlds?, hg]
      rfl
    | memberReference span member receiver =>
      obtain ⟨g, hg, rfl⟩ := Option.map_eq_some_iff.1 h
      rw [splitOp, WalkScope.memberWorlds?, hg]
      rfl
    | unary span operator operand =>
      have hoperand : operand ∈ (Operation.unary span operator operand).children := by
        simp [Operation.children]
      cases operator with
      | not =>
        obtain ⟨d, hd, rfl⟩ := Option.map_eq_some_iff.1 h
        rw [splitOp, ih operand hoperand hd (below hoperand)]
        rfl
      | other => cases h
    | binary span operator left right =>
      have hleft : left ∈ (Operation.binary span operator left right).children := by
        simp [Operation.children]
      have hright : right ∈ (Operation.binary span operator left right).children := by
        simp [Operation.children]
      cases operator using BinaryOperator.cases_comparison with
      | and | or =>
        obtain ⟨a, b, rfl, ha, hb⟩ := GuardExpr.join?_eq_some h
        rw [splitOp, side hleft ha, Option.bind_eq_bind, Option.bind_some, side hright hb]
        rfl
      | comparison operator hop =>
        rw [Operation.ofOperation?_comparison hop] at h
        cases compared : comparedSide? left right with
        | none =>
          rw [compared] at h
          cases h
        | some compared' =>
          rw [compared] at h
          cases compared' with
          | left b =>
            obtain ⟨d, hd, rfl⟩ := Option.map_eq_some_iff.1 h
            rw [splitOp_left hop compared, ih left hleft hd (below hleft)]
            cases operator.keepsOperand b <;> rfl
          | right b =>
            obtain ⟨d, hd, rfl⟩ := Option.map_eq_some_iff.1 h
            rw [splitOp_right hop compared, ih right hright hd (below hright)]
            cases operator.keepsOperand b <;> rfl
      | other => cases h
    | _ => cases h

/-! ## Nested calls -/

section

variable {r : GuardReader} {body : Operation} {x : LocalId} {value : Operation} {e : GuardExpr}

/-- A local is split on by its value, if it stands for one. -/
theorem ofBody_splits_local {depth : Nat} (deep : body.height ≤ depth + 1)
    (span : Span) (x : LocalId)
    (visits : (ofBody r body depth).Visits (.ofBody r body) (.localReference span x)) :
    (ofBody r body (depth + 1)).Splits (.ofBody r body) (.localReference span x) := by
  intro report w
  show ((ofBody r body depth).splitOp _ _ report _ w).map Split.polled = _
  cases hvalue : body.initializer? r x with
  | none =>
    have walked : ((Operation.localReference span x).walk (.ofBody r body)).SplitsByVisit none := by
      rw [Operation.walk, WalkScope.find?_cached_ofBody, hvalue, Option.bind_none]
      exact fun _ _ => rfl
    simp only [splitOp, hvalue]
    exact splitVisited_eq none walked visits report w
  | some value =>
    obtain ⟨e, he⟩ := Operation.exists_ofOperation?_of_initializer? hvalue
    have smaller := Operation.height_initializer? hvalue
    have split : (ofBody r body depth).split false value w = some (e.split w) :=
      split_guardExpr he _ (by omega) w
    simp only [splitOp, hvalue, split]
    rw [Operation.walk, WalkScope.find?_cached_ofBody, hvalue, Option.bind_some, he]
    rfl

/-- Calls about an operation are answered when they may be nested twice its height and the height
of the body. Twice, as a visit of an operator splits on the same operation, and a split of
anything else visits it. -/
theorem settles_ofBody {op : Operation} {depth : Nat} (deep : 2 * op.height + body.height ≤ depth) :
    (ofBody r body depth).Settles (.ofBody r body) op := by
  induction op using Operation.children_induction generalizing depth with
  | step op ih =>
    obtain ⟨n, rfl⟩ : ∃ n, depth = n + 2 := ⟨depth - 2, by have := op.height_eq; omega⟩
    -- an operator is split on one level below its visit, and the other way round for the rest, so
    -- parts at two depths
    have parts : ∀ m, n ≤ m → ∀ child ∈ op.children,
        (ofBody r body m).Settles (.ofBody r body) child := by
      intro m hm child hchild
      have := Operation.height_lt_of_mem_children hchild
      exact ih child hchild (by omega)
    cases isOperator : op.isOperator with
    | true =>
      exact ⟨next_visits_operator isOperator (next_splits_operator isOperator (parts n (by omega))),
        next_splits_operator isOperator (parts (n + 1) (by omega))⟩
    | false =>
      have visits : (ofBody r body (n + 1)).Visits (.ofBody r body) op :=
        next_visits isOperator (parts n (by omega))
      refine ⟨next_visits isOperator (parts (n + 1) (by omega)), ?_⟩
      cases hlocal : op.local? with
      | none => exact next_splits isOperator hlocal visits
      | some x =>
        obtain ⟨span, rfl⟩ := Operation.eq_localReference_of_local? hlocal
        exact ofBody_splits_local (by omega) span x visits

end

/-- Every local stands for itself. -/
def endless : LocalId → Option Operation := fun x => some (.localReference {} x)

/-- Where every local stands for itself, no split that reads one is ever answered. -/
theorem split_endless (depth : Nat) (report : Bool) (span : Span) (x : LocalId) (w : Worlds) :
    (within scope endless depth).split report (.localReference span x) w = none := by
  induction depth generalizing report span with
  | zero => rfl
  | succ depth ih =>
    show ((within scope endless depth).split false (.localReference {} x) w).map Split.polled = none
    rw [ih]
    rfl

end WalkCalls

/-- The walk of a body ends. Nested to a depth that grows with the heights of an operation and of
the body, calls to visit it, to visit such operations in a row and to split on it are all answered,
with what the walk gives. To split on the value of a local takes no more than the height of the
value and never comes to a local: the answer is there whatever locals stand for, also if each stands
for itself, when no split that comes to one is answered at any depth. -/
theorem body_walk_ends (r : GuardReader) (body : Operation) :
    let scope := WalkScope.ofBody r body
    let calls := WalkCalls.ofBody r body
    (∀ (op : Operation) (depth : Nat), 2 * op.height + body.height ≤ depth → ∀ w : Worlds,
      (calls depth).visit op w = some ((op.walk scope).visit w) ∧
      ∀ report : Bool, (calls depth).split report op w = some ((op.walk scope).split report w)) ∧
    (∀ (ops : List Operation) (depth : Nat),
      (∀ op ∈ ops, 2 * op.height + body.height ≤ depth) → ∀ w : Worlds,
      (calls depth).visitAll true ops w = some (Walk.visitAll (ops.map (Operation.walk scope)) w)) ∧
    (∀ (x : LocalId) (value : Operation), body.initializer? r x = some value →
      ∃ e : GuardExpr, scope.cached.find? x = some e ∧
        ∀ (others : LocalId → Option Operation) (depth : Nat), value.height ≤ depth → ∀ w : Worlds,
          (WalkCalls.within scope others depth).split false value w = some (e.split w)) ∧
    ∀ (depth : Nat) (report : Bool) (span : Span) (x : LocalId) (w : Worlds),
      (WalkCalls.within scope WalkCalls.endless depth).split report
        (.localReference span x) w = none := by
  intro scope calls
  refine ⟨fun op depth deep w => ?_, fun ops depth deep w => ?_,
    fun x value hvalue => ?_, WalkCalls.split_endless⟩
  · have settled : (calls depth).Settles scope op := WalkCalls.settles_ofBody deep
    exact ⟨settled.visits w, fun report => settled.splits report w⟩
  · refine WalkCalls.visitAll_eq (fun op hop => ?_) w
    exact (WalkCalls.settles_ofBody (deep op hop)).visits
  · obtain ⟨e, he⟩ := Operation.exists_ofOperation?_of_initializer? hvalue
    refine ⟨e, ?_, fun others depth deep w => WalkCalls.split_guardExpr he others deep w⟩
    rw [WalkScope.find?_cached_ofBody, hvalue, Option.bind_some, he]

/-- `x = IsOSPlatform("windows", !x)`, where the one read of `x` stands in its own value. -/
theorem body_walk_ends_readInValue :
    let value : Operation :=
      .invocation {} ⟨2⟩ none
        [.literal {} (.string "windows"), .unary {} .not (.localReference {} ⟨7⟩)]
    let body : Operation := .block {} [.localAssignment {} ⟨7⟩ (some value)]
    let scope := WalkScope.ofBody checkReader body
    let calls := WalkCalls.ofBody checkReader body
    body.initializer? checkReader ⟨7⟩ = some value ∧
    (∀ w, (calls 15).visit body w = some ((body.walk scope).visit w)) ∧
    (∀ w, (calls 15).visitAll true [value, body] w =
      some (Walk.visitAll [value.walk scope, body.walk scope] w)) ∧
    ∃ e : GuardExpr, scope.cached.find? ⟨7⟩ = some e ∧
      ∀ w, (WalkCalls.within scope WalkCalls.endless 3).split false value w = some (e.split w) := by
  intro value body scope calls
  have isGuard : value.isGuardExpression checkReader = true := by
    simp [value, Operation.isGuardExpression, checkReader_ofCall?_cons]
  have initializer : body.initializer? checkReader ⟨7⟩ = some value :=
    Operation.initializer?_eq_some_iff.2 ⟨rfl, rfl, isGuard⟩
  have valueHeight : value.height = 3 := by simp [value, Operation.height_eq, Operation.children]
  have bodyHeight : body.height = 5 := by
    simp [body, value, Operation.height_eq, Operation.children]
  obtain ⟨answered, inRow, through, -⟩ := body_walk_ends checkReader body
  obtain ⟨e, found, split⟩ := through ⟨7⟩ value initializer
  refine ⟨initializer, fun w => (answered body 15 (by omega) w).1, fun w =>
    inRow [value, body] 15 ?_ w, e, found,
    split WalkCalls.endless 3 (by omega)⟩
  intro op hop
  rcases List.mem_pair.1 hop with rfl | rfl <;> omega

end PlatformGuard
