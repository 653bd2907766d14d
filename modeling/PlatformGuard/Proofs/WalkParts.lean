import PlatformGuard.Proofs.WalkMarks

/-!
# Where a walk goes

A walk goes from an operation to its parts, and comes to each of them in some worlds: the first
part mostly in those of the whole, later ones in those that the parts before them leave
(`Operation.partsIn`). So it comes to all operations of its unit (`Operation.ComesTo`), and what
happens on it is what these operations do, in the worlds in which it comes to them
(`Operation.mem_events_iff`).
-/

namespace PlatformGuard

/-- What happens where a walk meets a mark in some worlds. -/
def Mark.event : Mark → Worlds → WalkEvent
  | site s, w => .use s.target s.span w
  | call key, w => .invoke key w

@[simp] theorem Mark.event_ne_poll (m : Mark) (w : Worlds) : m.event w ≠ .poll := by
  cases m <;> exact WalkEvent.noConfusion

theorem Mark.event_eq_event {m m' : Mark} {v w : Worlds} :
    m.event v = m'.event w ↔ m' = m ∧ v = w := by
  rcases m with ⟨⟨target, span⟩⟩ | key <;> rcases m' with ⟨⟨target', span'⟩⟩ | key' <;>
    simp [event, and_assoc, eq_comm]

namespace Operation

variable {scope : WalkScope}

/-- Operations one after the other, each with the worlds in which a walk comes to it. To what
control does not reach it comes in no world. -/
def inSequence (scope : WalkScope) : List Operation → Worlds → List (Operation × Worlds)
  | [], _ => []
  | op :: ops, w => (op, w) ::
    match ((op.walk scope).visit w).after with
    | some next => inSequence scope ops next
    | none => ops.map (·, .none)

/-- The arguments of a call. Those after an asserted condition are walked as if it held. -/
def argumentsIn (scope : WalkScope) (target : SymbolId) (arguments : List Operation) (w : Worlds) :
    List (Operation × Worlds) :=
  match arguments with
  | [] => []
  | condition :: rest =>
    if scope.isAssertion target then
      (condition, w) :: inSequence scope rest ((condition.walk scope).split true w).whenTrue
    else inSequence scope (condition :: rest) w

def operandsIn (scope : WalkScope) (operator : BinaryOperator) (left right : Operation)
    (w : Worlds) : List (Operation × Worlds) :=
  match operator with
  | .and => [(left, w), (right, ((left.walk scope).split true w).whenTrue)]
  | .or => [(left, w), (right, ((left.walk scope).split true w).whenFalse)]
  | .equals | .notEquals =>
    if (comparedSide? left right).isSome then [(left, w), (right, w)]
    else inSequence scope [left, right] w
  | .other => inSequence scope [left, right] w

/-- The parts of an operation, each with the worlds in which a walk of the operation comes to it.
Definitions of callables are passed over. -/
def partsIn (scope : WalkScope) (w : Worlds) : Operation → List (Operation × Worlds)
  | .block _ operations | .other _ operations => inSequence scope operations w
  | .conditional _ condition whenTrue whenFalse =>
    let s := (condition.walk scope).split true w
    (condition, w) :: (whenTrue, s.whenTrue) :: whenFalse.toList.map (·, s.whenFalse)
  | .loop _ none round => [(round, w)]
  | .loop _ (some condition) round =>
    [(condition, w), (round, ((condition.walk scope).split true w).whenTrue)]
  | .switch _ value cases => (value :: cases).map (·, w)
  | .ret _ value | .raise _ value | .localAssignment _ _ value => value.toList.map (·, w)
  | .invocation _ target receiver arguments =>
    receiver.toList.map (·, w) ++ argumentsIn scope target arguments w
  | .delegateInvocation _ target arguments => (target, w) :: inSequence scope arguments w
  | .memberReference _ _ receiver => receiver.toList.map (·, w)
  | .objectCreation _ _ arguments => inSequence scope arguments w
  | .unary _ _ operand => [(operand, w)]
  | .binary _ operator left right => operandsIn scope operator left right w
  | _ => []

theorem inSequence_fst (ops : List Operation) (w : Worlds) :
    (inSequence scope ops w).map (·.1) = ops := by
  induction ops generalizing w with
  | nil => rfl
  | cons op ops ih =>
    rw [inSequence, List.map_cons]
    cases ((op.walk scope).visit w).after with
    | some next => exact congrArg (op :: ·) (ih next)
    | none => exact congrArg (op :: ·) ((List.map_map ..).trans (List.map_id _))

theorem argumentsIn_of_call {target : SymbolId} {arguments : List Operation} {w : Worlds}
    (h : (scope.isAssertion target && !arguments.isEmpty) = false) :
    argumentsIn scope target arguments w = inSequence scope arguments w := by
  cases arguments with
  | nil => rfl
  | cons condition rest => exact if_neg (by simpa using h)

theorem argumentsIn_of_assertion {target : SymbolId} {condition : Operation}
    {rest : List Operation} {w : Worlds} (h : scope.isAssertion target = true) :
    argumentsIn scope target (condition :: rest) w =
      (condition, w) :: inSequence scope rest ((condition.walk scope).split true w).whenTrue :=
  if_pos h

theorem argumentsIn_fst (target : SymbolId) (arguments : List Operation) (w : Worlds) :
    (argumentsIn scope target arguments w).map (·.1) = arguments := by
  cases arguments with
  | nil => rfl
  | cons condition rest =>
    rw [argumentsIn]
    split
    · exact congrArg (_ :: ·) (inSequence_fst _ _)
    · exact inSequence_fst _ _

theorem operandsIn_fst (operator : BinaryOperator) (left right : Operation) (w : Worlds) :
    (operandsIn scope operator left right w).map (·.1) = [left, right] := by
  cases operator with
  | and | or => rfl
  | equals | notEquals =>
    rw [operandsIn]
    split
    · rfl
    · exact inSequence_fst _ _
  | other => exact inSequence_fst _ _

/-- A walk comes to each child of an operation once, in order. -/
theorem partsIn_fst (scope : WalkScope) (op : Operation) (w : Worlds)
    (h : op.isCallableDefinition = false) :
    (op.partsIn scope w).map (·.1) = op.children := by
  have kept : ∀ (ops : List Operation) (v : Worlds), (ops.map (·, v)).map (·.1) = ops :=
    fun ops v => (List.map_map ..).trans (List.map_id _)
  cases op with
  | block span operations => exact inSequence_fst operations w
  | other span operations => exact inSequence_fst operations w
  | conditional span condition whenTrue whenFalse =>
    exact congrArg (condition :: whenTrue :: ·) (kept whenFalse.toList _)
  | loop span condition round => cases condition <;> rfl
  | switch span value cases => exact kept (value :: cases) w
  | ret span value => exact kept value.toList w
  | raise span value => exact kept value.toList w
  | localAssignment span y value => exact kept value.toList w
  | invocation span target receiver arguments =>
    rw [partsIn, List.map_append, kept, argumentsIn_fst, children]
  | delegateInvocation span target arguments =>
    exact congrArg (target :: ·) (inSequence_fst arguments w)
  | memberReference span member receiver => exact kept receiver.toList w
  | objectCreation span constructor arguments => exact inSequence_fst arguments w
  | unary span operator operand => rfl
  | binary span operator left right => exact operandsIn_fst operator left right w
  | localFunction | lambda => exact absurd h (by simp [isCallableDefinition])
  | breakOut | continueLoop | methodReference | literal | localReference => rfl

/-! ## What happens at one operation -/

variable {w v : Worlds} {m : Mark}

theorem mem_visitAll_iff {ops : List Operation} {e : WalkEvent} :
    e ∈ (Walk.visitAll (ops.map (walk scope)) w).events ↔
      ∃ p ∈ inSequence scope ops w, e ∈ ((p.1.walk scope).visit p.2).events := by
  induction ops generalizing w with
  | nil => simp [Walk.visitAll, inSequence]
  | cons op ops ih =>
    rw [List.map_cons, Walk.visitAll, inSequence]
    cases ((op.walk scope).visit w).after with
    | some next => simp [ih]
    | none => simp

theorem mem_optionEvents_iff {op : Option Operation} {e : WalkEvent} :
    e ∈ Walk.optionEvents (op.map (walk scope)) w ↔
      ∃ p ∈ op.toList.map (·, w), e ∈ ((p.1.walk scope).visit p.2).events := by
  cases op <;> simp [Walk.optionEvents]

theorem event_notMem_guardExpr (g : GuardExpr) : m.event v ∉ (g.split w).events := by
  intro h
  have mark : WalkEvent.mark? (m.event v) = some m := by cases m <;> rfl
  have hmark : m ∈ Walk.marksOf (g.split w).events := List.mem_filterMap.2 ⟨_, h, mark⟩
  rw [Walk.marksOf_guardExpr] at hmark
  cases hmark

/-- A condition that is split is met as one that is visited. -/
theorem mem_split_iff (op : Operation) :
    m.event v ∈ ((op.walk scope).split true w).events ↔
      m.event v ∈ ((op.walk scope).visit w).events := by
  refine walk_cases (p := fun k => m.event v ∈ (k.split true w).events ↔
    m.event v ∈ (k.visit w).events) (fun guard visit => ?_) (fun split => ?_) (fun value => ?_)
    (fun g => ?_) op
  · cases guard <;> simp [Walk.ofVisit]
  · simp [Walk.ofSplit]
  · cases value <;> simp [Walk.truth]
  · simp [Walk.cachedLocal, event_notMem_guardExpr]

theorem mem_comparison_iff {keeps : Bool} {op : Operation} :
    m.event v ∈ ((Walk.comparison keeps (op.walk scope)).visit w).events ↔
      m.event v ∈ ((op.walk scope).visit w).events := by
  rw [← mem_split_iff op]
  cases keeps <;> simp [Walk.comparison, Walk.ofSplit, Split.swap]

theorem mem_binary_iff {span : Span} {operator : BinaryOperator} {left right : Operation} :
    m.event v ∈ (((binary span operator left right).walk scope).visit w).events ↔
      ∃ p ∈ operandsIn scope operator left right w,
        m.event v ∈ ((p.1.walk scope).visit p.2).events := by
  have plain : m.event
    v ∈ ((Walk.plainOperator [left.walk scope, right.walk scope]).visit w).events ↔
      ∃ p ∈ inSequence scope [left, right] w,
        m.event v ∈ ((p.1.walk scope).visit p.2).events := by
    rw [← mem_visitAll_iff]
    simp [Walk.plainOperator, Walk.ofSplit]
  have truth : ∀ {op : Operation} {b : Bool}, op.bool? = some b →
      m.event v ∉ ((op.walk scope).visit w).events := by
    intro op b hop
    obtain ⟨span', rfl⟩ := eq_literal_of_bool? hop
    rw [walk]
    simp [Walk.truth]
  cases operator using BinaryOperator.cases_comparison with
  | and =>
    rw [walk]
    simp [Walk.conjunction, Walk.ofSplit, mem_split_iff, operandsIn]
  | or =>
    rw [walk]
    simp [Walk.disjunction, Walk.ofSplit, mem_split_iff, operandsIn]
  | comparison operator hop =>
    have operands : operandsIn scope operator left right w =
        if (comparedSide? left right).isSome then [(left, w), (right, w)]
        else inSequence scope [left, right] w := by
      rcases hop with rfl | rfl <;> rfl
    rw [walk_comparison hop, operands]
    rcases comparedSide?_cases left right with ⟨b, hside, hr⟩ | ⟨b, hside, -, hl⟩ | ⟨hside, -, -⟩
    · rw [hside]
      simp [mem_comparison_iff, truth hr]
    · rw [hside]
      simp [mem_comparison_iff, truth hl]
    · rw [hside]
      exact plain
  | other =>
    rw [walk]
    exact plain

theorem mem_invocation_iff {span : Span} {target : SymbolId} {receiver : Option Operation}
    {arguments : List Operation} :
    m.event v ∈ (((invocation span target receiver arguments).walk scope).visit w).events ↔
      (scope.markOf? (invocation span target receiver arguments) = some m ∧ v = w) ∨
        ∃ p ∈ receiver.toList.map (·, w) ++ argumentsIn scope target arguments w,
          m.event v ∈ ((p.1.walk scope).visit p.2).events := by
  cases hassert : scope.isAssertion target && !arguments.isEmpty with
  | false =>
    have own : (if scope.callables.isLocalFunction target then WalkEvent.invoke (.function target)
        else .use target span) w =
          Mark.event (if scope.callables.isLocalFunction target then .call (.function target)
            else .site ⟨target, span⟩) w := by
      cases scope.callables.isLocalFunction target <;> rfl
    rw [walk_call hassert, scope.markOf?_call hassert, argumentsIn_of_call hassert]
    simp only [Walk.call, Walk.ofVisit, own, List.mem_cons, List.mem_append, List.not_mem_nil,
      Mark.event_ne_poll, Mark.event_eq_event, mem_visitAll_iff, mem_optionEvents_iff, false_or,
      or_false, Option.some.injEq, or_and_right, exists_or]
    exact or_comm
  | true =>
    cases arguments with
    | nil => exact absurd hassert (by simp)
    | cons condition rest =>
      rw [walk_assertion (by simpa using hassert), scope.markOf?_assertion hassert,
        argumentsIn_of_assertion (by simpa using hassert)]
      simp only [Walk.assertion, Walk.ofVisit, List.mem_cons, List.mem_append, Mark.event_ne_poll,
        mem_visitAll_iff, mem_optionEvents_iff, mem_split_iff, false_or, reduceCtorEq, false_and,
        or_and_right, exists_or, exists_eq_left, or_assoc]

/-- What happens on a walk is what the operation itself does, and what happens on the walks of its
parts. -/
theorem mem_visit_iff (op : Operation) : m.event v ∈ ((op.walk scope).visit w).events ↔
    (scope.markOf? op = some m ∧ v = w) ∨
      ∃ p ∈ op.partsIn scope w, m.event v ∈ ((p.1.walk scope).visit p.2).events := by
  have plain : scope.markOf? op = none → (m.event v ∈ ((op.walk scope).visit w).events ↔
      ∃ p ∈ op.partsIn scope w, m.event v ∈ ((p.1.walk scope).visit p.2).events) →
      (m.event v ∈ ((op.walk scope).visit w).events ↔ (scope.markOf? op = some m ∧ v = w) ∨
        ∃ p ∈ op.partsIn scope w, m.event v ∈ ((p.1.walk scope).visit p.2).events) := by
    intro hnone h
    rw [h, hnone]
    simp
  cases op with
  | block span operations =>
    refine plain rfl ?_
    rw [walk, walkAll_eq_map, partsIn, ← mem_visitAll_iff]
    simp [Walk.sequence, Walk.ofVisit]
  | other span operations =>
    refine plain rfl ?_
    rw [walk, walkAll_eq_map, partsIn, ← mem_visitAll_iff]
    simp [Walk.sequence, Walk.ofVisit]
  | conditional span condition whenTrue whenFalse =>
    refine plain rfl ?_
    rw [walk, walkOption_eq_map, partsIn]
    cases whenFalse <;> simp [Walk.conditional, Walk.ofVisit, mem_split_iff]
  | loop span condition round =>
    refine plain rfl ?_
    rw [walk, walkOption_eq_map]
    cases condition <;> simp [Walk.loop, Walk.through, Walk.ofVisit, mem_split_iff, partsIn]
  | switch span value cases =>
    refine plain rfl ?_
    rw [walk, walkAll_eq_map, partsIn]
    simp [Walk.switch, Walk.through, Walk.ofVisit]
  | ret span value =>
    refine plain rfl ?_
    rw [walk, walkOption_eq_map, partsIn, ← mem_optionEvents_iff]
    simp [Walk.leave, Walk.ofVisit]
  | raise span value =>
    refine plain rfl ?_
    rw [walk, walkOption_eq_map, partsIn, ← mem_optionEvents_iff]
    simp [Walk.leave, Walk.ofVisit]
  | localAssignment span y value =>
    refine plain rfl ?_
    rw [walk, walkOption_eq_map, partsIn, ← mem_optionEvents_iff]
    simp [Walk.assignment, Walk.through, Walk.ofVisit]
  | invocation span target receiver arguments => exact mem_invocation_iff
  | delegateInvocation span target arguments =>
    by_cases hlambda : ∃ y, target.local? = some y ∧ scope.callables.isLambda y = true
    · obtain ⟨y, hlocal, hlambda⟩ := hlambda
      cases target with
      | localReference span' y' =>
        obtain rfl : y' = y := Option.some.inj hlocal
        -- the local is not visited, but nothing happens there
        have silent : m.event v ∉ (((localReference span' y').walk scope).visit w).events := by
          rw [walk]
          split <;> simp [Walk.cachedLocal, Walk.idle, Walk.through, Walk.ofVisit]
        have own : WalkEvent.invoke (.lambda y') w = (Mark.call (.lambda y')).event w := rfl
        rw [walk_lambdaCall hlambda, scope.markOf?_lambdaCall hlambda, partsIn]
        simp [Walk.lambdaCall, Walk.through, Walk.ofVisit, own, Mark.event_eq_event,
          mem_visitAll_iff, silent]
      | _ => exact absurd hlocal (by simp [local?])
    · have hother : ∀ y, target.local? = some y → scope.callables.isLambda y = false :=
        fun y hlocal => Bool.eq_false_iff.2 fun h => hlambda ⟨y, hlocal, h⟩
      refine plain (scope.markOf?_delegate hother) ?_
      rw [walk_delegate hother, partsIn]
      simp [Walk.delegate, Walk.through, Walk.ofVisit, mem_visitAll_iff]
  | memberReference span member receiver =>
    have own : WalkEvent.use member span w = (Mark.site ⟨member, span⟩).event w := rfl
    have mark : scope.markOf? (memberReference span member receiver) =
        some (.site ⟨member, span⟩) :=
      rfl
    rw [walk, walkOption_eq_map, partsIn, ← mem_optionEvents_iff, mark]
    simp [Walk.member, Walk.ofVisit, own, Mark.event_eq_event, or_comm]
  | methodReference span method =>
    have own : WalkEvent.use method span w = (Mark.site ⟨method, span⟩).event w := rfl
    rw [walk, scope.markOf?_methodReference]
    cases scope.callables.isLocalFunction method with
    | true => simp [Walk.idle, Walk.through, Walk.ofVisit, partsIn]
    | false =>
      simp [Walk.member, Walk.ofVisit, Walk.optionEvents, own, Mark.event_eq_event, partsIn]
  | objectCreation span constructor arguments =>
    have own : WalkEvent.use constructor span w = (Mark.site ⟨constructor, span⟩).event w := rfl
    have mark : scope.markOf? (objectCreation span constructor arguments) =
        some (.site ⟨constructor, span⟩) := rfl
    rw [walk, walkAll_eq_map, partsIn, ← mem_visitAll_iff, mark]
    simp [Walk.call, Walk.ofVisit, Walk.optionEvents, own, Mark.event_eq_event, or_comm]
  | unary span operator operand =>
    refine plain rfl ?_
    cases operator with
    | not =>
      rw [walk]
      simp [Walk.negation, Walk.ofSplit, Split.swap, mem_split_iff, partsIn]
    | other =>
      rw [walk]
      show m.event v ∈ .poll :: .poll :: (Walk.visitAll ([operand].map (walk scope)) w).events ↔ _
      rw [List.mem_cons, List.mem_cons, mem_visitAll_iff, inSequence]
      cases ((operand.walk scope).visit w).after <;> simp [inSequence, partsIn]
  | binary span operator left right => exact plain rfl mem_binary_iff
  | literal span value =>
    refine plain rfl ?_
    cases value with
    | bool b =>
      rw [walk]
      simp [Walk.truth, partsIn]
    | _ =>
      rw [walk]
      · simp [Walk.idle, Walk.through, Walk.ofVisit, partsIn]
      · intro b
        simp
  | localReference span y =>
    refine plain rfl ?_
    rw [walk]
    split <;> simp [Walk.cachedLocal, Walk.idle, Walk.through, Walk.ofVisit, partsIn]
  | breakOut span =>
    refine plain rfl ?_
    rw [walk]
    simp [Walk.leave, Walk.ofVisit, Walk.optionEvents, partsIn]
  | continueLoop span =>
    refine plain rfl ?_
    rw [walk]
    simp [Walk.leave, Walk.ofVisit, Walk.optionEvents, partsIn]
  | localFunction span symbol code =>
    refine plain rfl ?_
    rw [walk]
    simp [Walk.idle, Walk.through, Walk.ofVisit, partsIn]
  | lambda span code =>
    refine plain rfl ?_
    rw [walk]
    simp [Walk.idle, Walk.through, Walk.ofVisit, partsIn]

/-! ## All that a walk comes to -/

/-- The walk of one operation in some worlds comes to another one in others: to a part, to a part of
a part, and so on. -/
def ComesTo (scope : WalkScope) (op : Operation) (w : Worlds) (node : Operation) (v : Worlds) :
    Prop :=
  Relation.ReflTransGen
    (fun whole part : Operation × Worlds => part ∈ whole.1.partsIn scope whole.2) (op, w) (node, v)

theorem ComesTo.refl (op : Operation) (w : Worlds) : op.ComesTo scope w op w :=
  Relation.ReflTransGen.refl

theorem ComesTo.part {op node part : Operation} {w v u : Worlds} (h : op.ComesTo scope w node v)
    (hpart : (part, u) ∈ node.partsIn scope v) : op.ComesTo scope w part u :=
  Relation.ReflTransGen.tail h hpart

theorem comesTo_iff {op node : Operation} {w v : Worlds} : op.ComesTo scope w node v ↔
    (node = op ∧ v = w) ∨ ∃ p ∈ op.partsIn scope w, p.1.ComesTo scope p.2 node v := by
  rw [ComesTo, Relation.ReflTransGen.cases_head_iff, Prod.mk.injEq]
  exact or_congr (and_congr eq_comm eq_comm) Iff.rfl

theorem of_mem_partsIn {op : Operation} {p : Operation × Worlds} (h : p ∈ op.partsIn scope w) :
    op.isCallableDefinition = false ∧ p.1 ∈ op.children := by
  have hdef : op.isCallableDefinition = false := by
    cases op with
    | localFunction | lambda => cases h
    | _ => rfl
  rw [← partsIn_fst scope op w hdef]
  exact ⟨hdef, List.mem_map_of_mem h⟩

/-- A walk comes to the operations of its unit. -/
theorem exists_comesTo_iff {op node : Operation} {w : Worlds} :
    (∃ v, op.ComesTo scope w node v) ↔ node ∈ op.ownNodes := by
  induction op using children_induction generalizing w with
  | step op ih =>
    rw [mem_ownNodes]
    constructor
    · rintro ⟨v, h⟩
      rcases comesTo_iff.1 h with ⟨rfl, -⟩ | ⟨p, hp, hbelow⟩
      · exact .inl rfl
      · obtain ⟨hdef, hchild⟩ := of_mem_partsIn hp
        exact .inr ⟨hdef, p.1, hchild, (ih p.1 hchild).1 ⟨v, hbelow⟩⟩
    · rintro (rfl | ⟨hdef, child, hchild, hbelow⟩)
      · exact ⟨w, .refl _ w⟩
      · rw [← partsIn_fst scope op w hdef] at hchild
        obtain ⟨p, hp, rfl⟩ := List.mem_map.1 hchild
        obtain ⟨v, h⟩ := (ih p.1 (of_mem_partsIn hp).2 (w := p.2)).2 hbelow
        exact ⟨v, comesTo_iff.2 (.inr ⟨p, hp, h⟩)⟩

/-- What happens on a walk is what the operations do to which it comes, in the worlds in which it
comes to them. -/
theorem mem_events_iff {op : Operation} {w v : Worlds} {m : Mark} :
    m.event v ∈ ((op.walk scope).visit w).events ↔
      ∃ node, op.ComesTo scope w node v ∧ scope.markOf? node = some m := by
  induction op using children_induction generalizing w with
  | step op ih =>
    rw [mem_visit_iff]
    constructor
    · rintro (⟨hmark, rfl⟩ | ⟨p, hp, hevent⟩)
      · exact ⟨op, .refl op v, hmark⟩
      · obtain ⟨node, hnode, hmark⟩ := (ih p.1 (of_mem_partsIn hp).2).1 hevent
        exact ⟨node, comesTo_iff.2 (.inr ⟨p, hp, hnode⟩), hmark⟩
    · rintro ⟨node, hnode, hmark⟩
      rcases comesTo_iff.1 hnode with ⟨rfl, rfl⟩ | ⟨p, hp, hbelow⟩
      · exact .inl ⟨hmark, rfl⟩
      · exact .inr ⟨p, hp, (ih p.1 (of_mem_partsIn hp).2).2 ⟨node, hbelow, hmark⟩⟩

end Operation

end PlatformGuard
