import PlatformGuard.Proofs.Entry
import PlatformGuard.Proofs.Execution
import PlatformGuard.Proofs.WalkParts

/-!
# Walks follow executions

What runs in a world is followed by the walk, if this starts from worlds with that one among them.

* `Runs.allowed`: where control falls through, the walk goes on in worlds with that one among them;
  and a condition is answered as its verdict allows.
* `Runs.covered`: a walk comes to every use site that is reached, in worlds with that one among
  them; unless it is reached on the side of an assertion.

Both are inductions over the rules of `Runs`. What a rule runs after a first part is walked from
worlds that the first part leaves, so that the second statement rests on the first one.
-/

namespace PlatformGuard

theorem Operation.bool?_eq_none_of_isConnective {span : Span} {operator : BinaryOperator}
    {left right : Operation} (hop : operator = .equals ∨ operator = .notEquals)
    (h : (binary span operator left right).isConnective = false) :
    left.bool? = none ∧ right.bool? = none := by
  rcases hop with rfl | rfl <;> simpa [isConnective] using h

/-! ## Answers -/

namespace Verdict

def side (v : Verdict) (b : Bool) : Worlds := if b then v.canBeTrue else v.canBeFalse

variable {v u : Verdict} {x : World} {b c : Bool}

theorem mem_side_unknown : x ∈ unknown.side b := by
  cases b <;> exact Worlds.mem_all

theorem mem_side_constant (value : Bool) : x ∈ (constant value).side b ↔ b = value := by
  cases b <;> cases value <;> simp [side, constant]

theorem mem_side_ofGuard? {g : Option Guard} (h : ∀ g' ∈ g, b = true ↔ g'.TrueIn x) :
    x ∈ (ofGuard? g).side b := by
  cases g with
  | none => exact mem_side_unknown
  | some g =>
    have hg : b = true ↔ x ∈ g.worlds := (h g rfl).trans (by cases g <;> rfl)
    rw [ofGuard?_some]
    cases b with
    | true => exact hg.1 rfl
    | false => exact Worlds.mem_compl.2 fun hx => absurd (hg.2 hx) Bool.false_ne_true

theorem side_swap : v.swap.side (!b) = v.side b := by
  cases b <;> rfl

theorem Decides.mem_side {w : Worlds} (h : v.Decides w) : x ∈ v.side b ↔ (b = true ↔ x ∈ w) := by
  cases b with
  | true => exact (h x).1.trans (by simp)
  | false => exact (h x).2.trans (by simp)

/-- A comparison of two answers, of which one is that of a truth value. -/
theorem mem_side_compared {operator : BinaryOperator}
    (hop : operator = .equals ∨ operator = .notEquals) (h : x ∈ v.side b) :
    x ∈ (v.compared operator c).side ((b == c) == (operator = .equals)) := by
  rcases hop with rfl | rfl <;> cases b <;> cases c <;> exact h

end Verdict

section

variable {r : GuardReader} {body : Operation} {x : World}

/-- What is no connective is answered as its verdict allows. -/
theorem Operation.CanAnswer.mem_side {op : Operation} {b : Bool} (h : body.CanAnswer r x op b) :
    x ∈ (r.verdict body op).side b := by
  cases op with
  | literal span value =>
    cases value with
    | bool value => exact (Verdict.mem_side_constant value).2 h
    | _ => exact Verdict.mem_side_unknown
  | invocation span target receiver arguments => exact Verdict.mem_side_ofGuard? h
  | memberReference span member receiver => exact Verdict.mem_side_ofGuard? h
  | localReference span y =>
    have hnone : body.initializer? r y = none := h
    have open_local : r.verdict body (.localReference span y) = .unknown := by
      show r.localVerdict body y = .unknown
      rw [GuardReader.localVerdict, hnone]
    rw [open_local]
    exact Verdict.mem_side_unknown
  | unary span operator operand =>
    cases operator with
    | not => exact absurd h (by simp [CanAnswer, isConnective])
    | other => exact Verdict.mem_side_unknown
  | binary span operator left right =>
    cases operator using BinaryOperator.cases_comparison with
    | and | or => exact absurd h (by simp [CanAnswer, isConnective])
    | comparison operator hop =>
      obtain ⟨hl, hr⟩ := bool?_eq_none_of_isConnective hop h
      rw [GuardReader.verdict, verdictWith_comparison hop, hl, hr]
      exact Verdict.mem_side_unknown
    | other => exact Verdict.mem_side_unknown
  | _ => exact Verdict.mem_side_unknown

/-- A local answers as the guard expression it stands for. -/
theorem mem_side_of_initializer? {span : Span} {y : LocalId} {value : Operation} {b : Bool}
    (h : body.initializer? r y = some value) (hx : x ∈ (r.verdict body value).side b) :
    x ∈ (r.verdict body (.localReference span y)).side b := by
  obtain ⟨e, he⟩ := Operation.exists_ofOperation?_of_initializer? h
  have hvalue : (r.verdict body value).Decides e.worlds := Operation.verdictWith_decides he
  exact (Operation.localVerdict_decides h he).mem_side.2 (hvalue.mem_side.1 hx)

/-- A short-circuit operator answers by its left operand alone, or else as its right one. -/
theorem mem_side_of_decidedBy {span : Span} {operator : BinaryOperator}
    {left right : Operation} {b : Bool} (hop : operator.decidedBy = some b) :
    (x ∈ (r.verdict body left).side b →
      x ∈ (r.verdict body (.binary span operator left right)).side b) ∧
    ∀ c, x ∈ (r.verdict body left).side (!b) → x ∈ (r.verdict body right).side c →
      x ∈ (r.verdict body (.binary span operator left right)).side c := by
  cases operator with
  | and =>
    obtain rfl : false = b := Option.some.inj hop
    refine ⟨fun hleft => Verdict.mem_canBeFalse_and.2 (.inl hleft), fun c hleft hright => ?_⟩
    cases c with
    | true => exact Verdict.mem_canBeTrue_and.2 ⟨hleft, hright⟩
    | false => exact Verdict.mem_canBeFalse_and.2 (.inr hright)
  | or =>
    obtain rfl : true = b := Option.some.inj hop
    refine ⟨fun hleft => Verdict.mem_canBeTrue_or.2 (.inl hleft), fun c hleft hright => ?_⟩
    cases c with
    | true => exact Verdict.mem_canBeTrue_or.2 (.inr hright)
    | false => exact Verdict.mem_canBeFalse_or.2 ⟨hleft, hright⟩
  | _ => exact absurd hop (by simp [BinaryOperator.decidedBy])

/-- A comparison with a truth value answers whether the answers of the operands are the same, or
differ. -/
theorem mem_side_comparison {span : Span} {operator : BinaryOperator}
    {left right : Operation} {b c : Bool} (hop : operator = .equals ∨ operator = .notEquals)
    (hconnective : (Operation.binary span operator left right).isConnective = true)
    (hleft : x ∈ (r.verdict body left).side b) (hright : x ∈ (r.verdict body right).side c) :
    x ∈ (r.verdict body (.binary span operator left right)).side
      ((b == c) == (operator = .equals)) := by
  rw [GuardReader.verdict, Operation.verdictWith_comparison hop]
  rcases comparedSide?_cases left right with ⟨value, -, hr⟩ | ⟨value, -, hr, hl⟩ | ⟨-, hr, hl⟩
  · obtain ⟨span', rfl⟩ := Operation.eq_literal_of_bool? hr
    obtain rfl : c = value := (Verdict.mem_side_constant value).1 hright
    rw [hr]
    exact Verdict.mem_side_compared hop hleft
  · obtain ⟨span', rfl⟩ := Operation.eq_literal_of_bool? hl
    obtain rfl : b = value := (Verdict.mem_side_constant value).1 hleft
    rw [hr, hl, Bool.beq_comm (a := b)]
    exact Verdict.mem_side_compared hop hright
  · rcases hop with rfl | rfl <;>
      exact absurd hconnective (by simp [Operation.isConnective, hr, hl])

/-! ## Falling through -/

/-- What the walk of a task has to allow if the task can end in a way. -/
def Task.Allows (r : GuardReader) (body : Operation) (x : World) (task : Task) : Ending → Prop
  | .jumps _ => True
  | .falls =>
    match task with
    | .visit op => ∀ w, x ∈ w → ∃ w' ∈ ((op.walk (.ofBody r body)).visit w).after, x ∈ w'
    | .sequence ops => ∀ w, x ∈ w →
      ∃ w' ∈ (Walk.visitAll (ops.map (Operation.walk (.ofBody r body))) w).after, x ∈ w'
    | _ => True
  | .answers b =>
    match task with
    | .test condition | .enter (some condition) => x ∈ (r.verdict body condition).side b
    | _ => True

/-- Where the worlds are kept, any ending is allowed. -/
theorem Task.allows_of_kept {op : Operation}
    (h : ∀ w, ((op.walk (.ofBody r body)).visit w).after = some w) (e : Ending) :
    (Task.visit op).Allows r body x e := by
  cases e with
  | falls => exact fun w hx => ⟨w, h w, hx⟩
  | answers | jumps => trivial

namespace Operation

section

variable {scope : WalkScope}

theorem after_unary (span : Span) (operator : UnaryOperator) (operand : Operation) (w : Worlds) :
    (((unary span operator operand).walk scope).visit w).after = some w := by
  cases operator <;> rw [walk] <;> rfl

theorem after_binary (span : Span) (operator : BinaryOperator)
    (left right : Operation) (w : Worlds) :
    (((binary span operator left right).walk scope).visit w).after = some w := by
  cases operator using BinaryOperator.cases_comparison with
  | and | or | other => rw [walk]; rfl
  | comparison operator hop =>
    rw [walk_comparison hop]
    split <;> rfl

theorem after_delegateInvocation (span : Span) (target : Operation)
    (arguments : List Operation) (w : Worlds) :
    (((delegateInvocation span target arguments).walk scope).visit w).after = some w := by
  rw [walk]
  split
  · split <;> rfl
  · rfl

theorem after_call {span : Span} {target : SymbolId} {receiver : Option Operation}
    {arguments : List Operation}
    (h : (scope.isAssertion target && !arguments.isEmpty) = false) (w : Worlds) :
    (((invocation span target receiver arguments).walk scope).visit w).after = some w := by
  rw [walk_call h]
  rfl

theorem after_literal (span : Span) (value : Constant) (w : Worlds) :
    (((literal span value).walk scope).visit w).after = some w := by
  cases value with
  | bool b => rw [walk]; rfl
  | _ =>
    rw [walk]
    · rfl
    · intro b
      simp

theorem after_localReference (span : Span) (y : LocalId) (w : Worlds) :
    (((localReference span y).walk scope).visit w).after = some w := by
  rw [walk]
  split <;> rfl

theorem after_methodReference (span : Span) (method : SymbolId) (w : Worlds) :
    (((methodReference span method).walk scope).visit w).after = some w := by
  rw [walk]
  split <;> rfl

end

theorem after_of_useSite? {op : Operation} {site : UseSite}
    (h : op.useSite? body.definesFunction (WalkScope.ofBody r body).isAssertion = some site)
    (w : Worlds) :
    ((op.walk (.ofBody r body)).visit w).after = some w := by
  cases op with
  | invocation span target receiver arguments =>
    refine after_call (Bool.eq_false_iff.2 fun hassert => ?_) w
    simp [useSite?, hassert] at h
  | memberReference span member receiver => rw [walk]; rfl
  | methodReference span method => exact after_methodReference span method w
  | objectCreation span constructor arguments => rw [walk]; rfl
  | _ => exact absurd h (by simp [useSite?])

/-- What passes falls through where its operands do. -/
theorem allows_of_passes {op : Operation} (h : body.passes op = true)
    (operands : (Task.sequence (body.operandsOf r op)).Allows r body x .falls) :
    (Task.visit op).Allows r body x .falls := by
  cases op with
  | block span operations =>
    intro w hx
    rw [walk, walkAll_eq_map]
    exact operands w hx
  | other span children =>
    intro w hx
    rw [walk, walkAll_eq_map]
    exact operands w hx
  | literal span value => exact Task.allows_of_kept (after_literal span value) .falls
  | localReference span y => exact Task.allows_of_kept (after_localReference span y) .falls
  | localAssignment span y value => exact Task.allows_of_kept (fun w => by rw [walk]; rfl) .falls
  | localFunction span f code => exact Task.allows_of_kept (fun w => by rw [walk]; rfl) .falls
  | lambda span code => exact Task.allows_of_kept (fun w => by rw [walk]; rfl) .falls
  | methodReference span method =>
    exact Task.allows_of_kept (after_methodReference span method) .falls
  | delegateInvocation span target arguments =>
    exact Task.allows_of_kept (after_delegateInvocation span target arguments) .falls
  | unary span operator operand =>
    exact Task.allows_of_kept (after_unary span operator operand) .falls
  | binary span operator left right =>
    exact Task.allows_of_kept (after_binary span operator left right) .falls
  | _ => exact absurd h (by simp [passes])

/-- A condition leaves the world on the side of its answer. -/
theorem mem_whenTrue {condition : Operation} {w : Worlds} (hx : x ∈ w)
    (h : x ∈ (r.verdict body condition).side true) :
    x ∈ ((condition.walk (.ofBody r body)).split true w).whenTrue :=
  (walk_splitsBy condition true w x).1.2 ⟨hx, h⟩

theorem mem_whenFalse {condition : Operation} {w : Worlds} (hx : x ∈ w)
    (h : x ∈ (r.verdict body condition).side false) :
    x ∈ ((condition.walk (.ofBody r body)).split true w).whenFalse :=
  (walk_splitsBy condition true w x).2.2 ⟨hx, h⟩

end Operation

theorem Walk.mem_joinAfter {a b : Option Worlds} (h : (∃ w ∈ a, x ∈ w) ∨ ∃ w ∈ b, x ∈ w) :
    ∃ w ∈ joinAfter a b, x ∈ w := by
  rcases h with ⟨w, hw, hx⟩ | ⟨w, hw, hx⟩
  · obtain rfl := Option.mem_def.1 hw
    cases b with
    | none => exact ⟨w, rfl, hx⟩
    | some v => exact ⟨_, rfl, Worlds.mem_union.2 (.inl hx)⟩
  · obtain rfl := Option.mem_def.1 hw
    cases a with
    | none => exact ⟨w, rfl, hx⟩
    | some v => exact ⟨_, rfl, Worlds.mem_union.2 (.inr hx)⟩

theorem Walk.visitAll_singleton_after (k : Walk) (w : Worlds) :
    (visitAll [k] w).after = (k.visit w).after := by
  rw [visitAll]
  cases (k.visit w).after <;> rfl

namespace Task

theorem allows_cons {op : Operation} {ops : List Operation} {e : Ending}
    (first : (visit op).Allows r body x .falls) (rest : (sequence ops).Allows r body x e) :
    (sequence (op :: ops)).Allows r body x e := by
  cases e with
  | answers | jumps => trivial
  | falls =>
    intro w hx
    obtain ⟨next, hnext, hx'⟩ := first w hx
    rw [List.map_cons, Walk.visitAll, Option.mem_def.1 hnext]
    exact rest next hx'

theorem allows_whenTrue {span : Span} {condition branch : Operation}
    {other : Option Operation} {e : Ending} (hcondition : x ∈ (r.verdict body condition).side true)
    (hbranch : (visit branch).Allows r body x e) :
    (visit (.conditional span condition branch other)).Allows r body x e := by
  cases e with
  | answers | jumps => trivial
  | falls =>
    intro w hx
    rw [Operation.walk]
    exact Walk.mem_joinAfter (.inl (hbranch _ (Operation.mem_whenTrue hx hcondition)))

theorem allows_whenFalse {span : Span} {condition branch : Operation}
    {other : Option Operation} {e : Ending} (hcondition : x ∈ (r.verdict body condition).side false)
    (hother : (sequence other.toList).Allows r body x e) :
    (visit (.conditional span condition branch other)).Allows r body x e := by
  cases e with
  | answers | jumps => trivial
  | falls =>
    intro w hx
    have hx' := Operation.mem_whenFalse hx hcondition
    rw [Operation.walk, Operation.walkOption_eq_map]
    refine Walk.mem_joinAfter (.inr ?_)
    cases other with
    | none => exact ⟨_, rfl, hx'⟩
    | some op =>
      obtain ⟨w', hw', hx''⟩ := hother _ hx'
      rw [Option.toList_some, List.map_singleton, Walk.visitAll_singleton_after] at hw'
      exact ⟨w', hw', hx''⟩

theorem allows_assertion {span : Span} {target : SymbolId} {receiver : Option Operation}
    {condition : Operation} {rest : List Operation} {b : Bool}
    (hassert : (WalkScope.ofBody r body).isAssertion target = true)
    (hcondition : x ∈ (r.verdict body condition).side b) (e : Ending) :
    (visit (.invocation span target receiver (condition :: rest))).Allows r body x
      (e.afterAssertion b) := by
  cases b with
  | false => trivial
  | true =>
    cases e with
    | answers | jumps => trivial
    | falls =>
      intro w hx
      rw [Operation.walk_assertion hassert]
      exact ⟨_, rfl, Operation.mem_whenTrue hx hcondition⟩

end Task

/-- Where control falls through, the walk does, in worlds with this one among them; and a condition
is answered as its verdict allows. -/
theorem Runs.allowed {task : Task} {s : List ReachedUse} {e : Ending} (h : Runs r body x task s e) :
    task.Allows r body x e := by
  -- nothing is asked of the walk where control jumps, and loops, calls and switches keep the
  -- worlds; so what has to be followed is sequences, branches and conditions
  induction h with
  | fails => trivial
  | before _ _ _ _ ih => exact ih
  | after _ _ _ ih _ => exact ih
  | aborted => trivial
  | done => exact fun w hx => ⟨w, rfl, hx⟩
  | next _ _ ihop ihops => exact Task.allows_cons ihop ihops
  | passes hpasses _ ih => exact Operation.allows_of_passes hpasses ih
  | leaves => trivial
  | uses hsite _ _ => exact Task.allows_of_kept (Operation.after_of_useSite? hsite) .falls
  | callsFunction hassert _ _ _ _ _ => exact Task.allows_of_kept (Operation.after_call hassert) _
  | callsLambda => exact Task.allows_of_kept (Operation.after_delegateInvocation _ _ _) _
  | callsElsewhere => exact Task.allows_of_kept (Operation.after_delegateInvocation _ _ _) _
  | whenTrue _ _ ihcondition ihbranch => exact Task.allows_whenTrue ihcondition ihbranch
  | whenFalse _ _ ihcondition ihother => exact Task.allows_whenFalse ihcondition ihother
  | entersFreely => trivial
  | enters _ ih => exact ih
  | loopEnds | loopLeft | loopAgain =>
    exact Task.allows_of_kept (fun w => by rw [Operation.walk]; rfl) _
  | switchSkips | switchRuns => exact Task.allows_of_kept (fun w => by rw [Operation.walk]; rfl) _
  | asserts hassert _ _ _ _ _ ihcondition _ => exact Task.allows_assertion hassert ihcondition _
  | assertsAndCalls hassert _ _ _ _ _ _ ihcondition _ _ =>
    exact Task.allows_assertion hassert ihcondition _
  | conditionAborted => trivial
  | assertionAborted => trivial
  | @decides op s b hconnective _ _ =>
    cases op with
    | unary span operator operand =>
      exact Task.allows_of_kept (Operation.after_unary span operator operand) _
    | binary span operator left right =>
      exact Task.allows_of_kept (Operation.after_binary span operator left right) _
    | _ => exact absurd hconnective (by simp [Operation.isConnective])
  | answers hanswer _ _ => exact hanswer.mem_side
  | recalls hvalue _ ih => exact mem_side_of_initializer? hvalue ih
  | @negates span operand s b _ ih =>
    show x ∈ (r.verdict body operand).swap.side (!b)
    rw [Verdict.side_swap]
    exact ih
  | cutsShort hop _ ih => exact (mem_side_of_decidedBy hop).1 ih
  | @goesOn span operator left right s s' b e hop _ _ ihleft ihright =>
    cases e with
    | falls | jumps => trivial
    | answers c => exact (mem_side_of_decidedBy hop).2 c ihleft ihright
  | compares hop hconnective _ _ ihleft ihright =>
    exact mem_side_comparison hop hconnective ihleft ihright
  | comparisonAborted => trivial

/-! ## What is walked -/

variable {walked : Operation → Worlds → Prop}

/-- Operations that are walked in some worlds, with all that the walks come to from them. A callable
is walked where it is invoked, and anyway if it escapes. -/
structure ClosedWalks (r : GuardReader) (body : Operation) (x : World)
    (walked : Operation → Worlds → Prop) : Prop where
  part : ∀ {op : Operation} {w : Worlds} {p : Operation × Worlds}, walked op w →
    p ∈ op.partsIn (.ofBody r body) w → walked p.1 p.2
  function : ∀ {op : Operation} {w : Worlds} {span : Span} {f : SymbolId} {code : Operation},
    walked op w → x ∈ w →
    (WalkScope.ofBody r body).calleeOf? op = some (.function f) →
    .localFunction span f code ∈ body.subterms →
    ∃ v, x ∈ v ∧ walked code v
  lambda : ∀ {op : Operation} {w : Worlds} {span span' : Span} {y : LocalId} {code : Operation},
    walked op w → x ∈ w →
    (WalkScope.ofBody r body).calleeOf? op = some (.lambda y) →
    .localAssignment span y (some (.lambda span' code)) ∈ body.subterms → ∃ v, x ∈ v ∧ walked code v
  escaping : ∀ {code : Operation}, body.Escapes code → ∃ v, x ∈ v ∧ walked code v

/-- Operations are walked one after the other as long as control falls through, each in worlds with
the given one among them. -/
def ReachedAll (r : GuardReader) (body : Operation) (x : World)
    (walked : Operation → Worlds → Prop) :
    List Operation → Prop
  | [] => True
  | op :: ops => ∃ w, x ∈ w ∧ walked op w ∧
      ∀ w' ∈ ((op.walk (.ofBody r body)).visit w).after, x ∈ w' → ReachedAll r body x walked ops

/-- A task is walked in worlds with the given one among them. -/
def Task.Reached (r : GuardReader) (body : Operation) (x : World)
    (walked : Operation → Worlds → Prop) : Task → Prop
  | .visit op | .test op | .enter (some op) => ∃ w, x ∈ w ∧ walked op w
  | .enter none => True
  | .sequence ops => ReachedAll r body x walked ops

theorem reachedAll_of_inSequence {ops : List Operation} {w : Worlds} (hx : x ∈ w)
    (h : ∀ p ∈ Operation.inSequence (.ofBody r body) ops w, walked p.1 p.2) :
    ReachedAll r body x walked ops := by
  induction ops generalizing w with
  | nil => trivial
  | cons op rest ih =>
    rw [Operation.inSequence] at h
    refine ⟨w, hx, h _ List.mem_cons_self, fun w' hw' hx' => ih hx' fun p hp =>
      h p (List.mem_cons_of_mem _ ?_)⟩
    rw [Option.mem_def.1 hw']
    exact hp

theorem reachedAll_of_option {op : Option Operation} {rest : List Operation}
    {w : Worlds} (hx : x ∈ w) (h : ∀ p ∈ op.toList.map (·, w), walked p.1 p.2)
    (hrest : ReachedAll r body x walked rest) :
    ReachedAll r body x walked (op.toList ++ rest) := by
  cases op with
  | none => exact hrest
  | some op => exact ⟨w, hx, h _ List.mem_cons_self, fun _ _ _ => hrest⟩

theorem reachedAll_toList {op : Option Operation} {w : Worlds} (hx : x ∈ w)
    (h : ∀ p ∈ op.toList.map (·, w), walked p.1 p.2) : ReachedAll r body x walked op.toList := by
  rw [← List.append_nil op.toList]
  exact reachedAll_of_option hx h trivial

namespace Task.Reached

variable (closed : ClosedWalks r body x walked)
include closed

/-! ### Conditions -/

theorem negated {span : Span} {operand : Operation}
    (h : (test (.unary span .not operand)).Reached r body x walked) :
    (test operand).Reached r body x walked := by
  obtain ⟨w, hx, hwalked⟩ := h
  exact ⟨w, hx, closed.part hwalked List.mem_cons_self⟩

theorem shortCircuit {span : Span} {operator : BinaryOperator} {left right : Operation} {b : Bool}
    (hop : operator.decidedBy = some b)
    (h : (test (.binary span operator left right)).Reached r body x walked) :
    (test left).Reached r body x walked ∧
      (x ∈ (r.verdict body left).side (!b) → (test right).Reached r body x walked) := by
  obtain ⟨w, hx, hwalked⟩ := h
  cases operator with
  | and =>
    obtain rfl : false = b := Option.some.inj hop
    exact ⟨⟨w, hx, closed.part hwalked List.mem_cons_self⟩, fun hleft =>
      ⟨_, Operation.mem_whenTrue hx hleft,
        closed.part hwalked (List.mem_cons_of_mem _ List.mem_cons_self)⟩⟩
  | or =>
    obtain rfl : true = b := Option.some.inj hop
    exact ⟨⟨w, hx, closed.part hwalked List.mem_cons_self⟩, fun hleft =>
      ⟨_, Operation.mem_whenFalse hx hleft,
        closed.part hwalked (List.mem_cons_of_mem _ List.mem_cons_self)⟩⟩
  | _ => exact absurd hop (by simp [BinaryOperator.decidedBy])

theorem compared {span : Span} {operator : BinaryOperator} {left right : Operation}
    (hop : operator = .equals ∨ operator = .notEquals)
    (hconnective : (Operation.binary span operator left right).isConnective = true)
    (h : (test (.binary span operator left right)).Reached r body x walked) :
    (test left).Reached r body x walked ∧ (test right).Reached r body x walked := by
  obtain ⟨w, hx, hwalked⟩ := h
  have parts : (Operation.binary span operator left right).partsIn (.ofBody r body) w =
      [(left, w), (right, w)] := by
    have side : (comparedSide? left right).isSome = true := by
      rcases comparedSide?_cases left right with ⟨value, hside, -⟩ | ⟨value, hside, -⟩ | ⟨-, hr, hl⟩
      · rw [hside]
        rfl
      · rw [hside]
        rfl
      · rcases hop with rfl | rfl <;>
          exact absurd hconnective (by simp [Operation.isConnective, hr, hl])
    rcases hop with rfl | rfl <;> exact if_pos side
  exact ⟨⟨w, hx, closed.part hwalked (parts ▸ List.mem_cons_self)⟩,
    ⟨w, hx, closed.part hwalked (parts ▸ List.mem_cons_of_mem _ List.mem_cons_self)⟩⟩

/-! ### Statements -/

theorem conditional {span : Span} {condition branch : Operation} {other : Option Operation}
    (h : (visit (.conditional span condition branch other)).Reached r body x walked) :
    (test condition).Reached r body x walked ∧
      (x ∈ (r.verdict body condition).side true → (visit branch).Reached r body x walked) ∧
      (x ∈ (r.verdict body condition).side false →
        (sequence other.toList).Reached r body x walked) := by
  obtain ⟨w, hx, hwalked⟩ := h
  refine ⟨⟨w, hx, closed.part hwalked List.mem_cons_self⟩, fun h =>
    ⟨_, Operation.mem_whenTrue hx h,
      closed.part hwalked (List.mem_cons_of_mem _ List.mem_cons_self)⟩, fun h =>
    reachedAll_toList (Operation.mem_whenFalse hx h) fun p hp => closed.part hwalked ?_⟩
  exact List.mem_cons_of_mem _ (List.mem_cons_of_mem _ hp)

theorem loop {span : Span} {condition : Option Operation} {round : Operation}
    (h : (visit (.loop span condition round)).Reached r body x walked) :
    (enter condition).Reached r body x walked ∧
      ((enter condition).Allows r body x (.answers true) →
        (visit round).Reached r body x walked) := by
  obtain ⟨w, hx, hwalked⟩ := h
  cases condition with
  | none => exact ⟨trivial, fun _ => ⟨w, hx, closed.part hwalked List.mem_cons_self⟩⟩
  | some condition =>
    exact ⟨⟨w, hx, closed.part hwalked List.mem_cons_self⟩, fun h =>
      ⟨_, Operation.mem_whenTrue hx h,
        closed.part hwalked (List.mem_cons_of_mem _ List.mem_cons_self)⟩⟩

theorem switch {span : Span} {value : Operation} {cases : List Operation}
    (h : (visit (.switch span value cases)).Reached r body x walked) :
    (visit value).Reached r body x walked ∧ ∀ chosen ∈ cases,
    (visit chosen).Reached r body x walked := by
  obtain ⟨w, hx, hwalked⟩ := h
  have parts : ∀ op ∈ value :: cases, walked op w := fun op hop =>
    closed.part hwalked (List.mem_map_of_mem hop : (op, w) ∈ (value :: cases).map (·, w))
  exact ⟨⟨w, hx, parts value List.mem_cons_self⟩, fun chosen hchosen =>
    ⟨w, hx, parts chosen (List.mem_cons_of_mem _ hchosen)⟩⟩

theorem assertion {span : Span} {target : SymbolId} {receiver : Option Operation}
    {condition : Operation} {rest : List Operation}
    (hassert : (WalkScope.ofBody r body).isAssertion target = true)
    (h : (visit (.invocation span target receiver (condition :: rest))).Reached r body x walked) :
    (sequence receiver.toList).Reached r body x walked ∧ (test condition).Reached r body x walked ∧
      (x ∈ (r.verdict body condition).side true → (sequence rest).Reached r body x walked) := by
  obtain ⟨w, hx, hwalked⟩ := h
  have arguments : ∀ p ∈ (condition, w) :: Operation.inSequence (.ofBody r body) rest
      ((condition.walk (.ofBody r body)).split true w).whenTrue, walked p.1 p.2 := fun p hp =>
    closed.part hwalked (List.mem_append_right _ (Operation.argumentsIn_of_assertion hassert ▸ hp))
  exact ⟨reachedAll_toList hx fun p hp => closed.part hwalked (List.mem_append_left _ hp),
    ⟨w, hx, arguments _ List.mem_cons_self⟩, fun h =>
    reachedAll_of_inSequence (Operation.mem_whenTrue hx h)
      fun p hp => arguments p (List.mem_cons_of_mem _ hp)⟩

/-! ### What is run first -/

theorem callOperands {span : Span} {target : SymbolId} {receiver : Option Operation}
    {arguments : List Operation} (hassert : body.isAssertion r target arguments = false)
    (h : (visit (.invocation span target receiver arguments)).Reached r body x walked) :
    (sequence (receiver.toList ++ arguments)).Reached r body x walked := by
  obtain ⟨w, hx, hwalked⟩ := h
  refine reachedAll_of_option hx (fun p hp => closed.part hwalked (List.mem_append_left _ hp))
    (reachedAll_of_inSequence hx fun p hp => closed.part hwalked (List.mem_append_right _ ?_))
  rw [Operation.argumentsIn_of_call hassert]
  exact hp

theorem delegateArguments {span : Span} {target : Operation} {arguments : List Operation}
    (h : (visit (.delegateInvocation span target arguments)).Reached r body x walked) :
    (visit target).Reached r body x walked ∧ (sequence arguments).Reached r body x walked := by
  obtain ⟨w, hx, hwalked⟩ := h
  exact ⟨⟨w, hx, closed.part hwalked List.mem_cons_self⟩,
    reachedAll_of_inSequence hx fun p hp => closed.part hwalked (List.mem_cons_of_mem _ hp)⟩

/-- The operands of an operation that is no connective are reached. -/
theorem operands {op : Operation} (hop : op.isConnective = false)
    (h : (visit op).Reached r body x walked) :
    (sequence (body.operandsOf r op)).Reached r body x walked := by
  cases op with
  | block span operations =>
    obtain ⟨w, hx, hwalked⟩ := h
    exact reachedAll_of_inSequence hx fun p hp => closed.part hwalked hp
  | other span operations =>
    obtain ⟨w, hx, hwalked⟩ := h
    exact reachedAll_of_inSequence hx fun p hp => closed.part hwalked hp
  | switch span value cases =>
    obtain ⟨w, hx, hwalked⟩ := (switch closed h).1
    exact ⟨w, hx, hwalked, fun _ _ _ => trivial⟩
  | ret span value =>
    obtain ⟨w, hx, hwalked⟩ := h
    exact reachedAll_toList hx fun p hp => closed.part hwalked hp
  | raise span value =>
    obtain ⟨w, hx, hwalked⟩ := h
    exact reachedAll_toList hx fun p hp => closed.part hwalked hp
  | localAssignment span y value =>
    obtain ⟨w, hx, hwalked⟩ := h
    exact reachedAll_toList hx fun p hp => closed.part hwalked hp
  | invocation span target receiver arguments =>
    show ReachedAll r body x walked (if _ then _ else _)
    cases hassert : body.isAssertion r target arguments with
    | false => exact callOperands closed hassert h
    | true =>
      cases arguments with
      | nil => exact absurd hassert (by simp [Operation.isAssertion])
      | cons condition rest =>
        exact (assertion closed (by simpa [Operation.isAssertion] using hassert) h).1
  | delegateInvocation span target arguments =>
    obtain ⟨⟨w, hx, onTarget⟩, onArguments⟩ := delegateArguments closed h
    have both : ReachedAll r body x walked (target :: arguments) :=
      ⟨w, hx, onTarget, fun _ _ _ => onArguments⟩
    rw [Operation.operandsOf]
    split
    · split
      · exact onArguments
      · exact both
    · exact both
  | memberReference span member receiver =>
    obtain ⟨w, hx, hwalked⟩ := h
    exact reachedAll_toList hx fun p hp => closed.part hwalked hp
  | objectCreation span constructor arguments =>
    obtain ⟨w, hx, hwalked⟩ := h
    exact reachedAll_of_inSequence hx fun p hp => closed.part hwalked hp
  | unary span operator operand =>
    obtain ⟨w, hx, hwalked⟩ := h
    exact ⟨w, hx, closed.part hwalked List.mem_cons_self, fun _ _ _ => trivial⟩
  | binary span operator left right =>
    obtain ⟨w, hx, hwalked⟩ := h
    have parts : (Operation.binary span operator left right).partsIn (.ofBody r body) w =
        Operation.inSequence (.ofBody r body) [left, right] w := by
      cases operator using BinaryOperator.cases_comparison with
      | and | or => exact absurd hop (by simp [Operation.isConnective])
      | comparison operator hcomparison =>
        obtain ⟨hl, hr⟩ := Operation.bool?_eq_none_of_isConnective hcomparison hop
        rcases hcomparison with rfl | rfl <;> exact if_neg (by simp [comparedSide?, hl, hr])
      | other => rfl
    exact reachedAll_of_inSequence hx fun p hp => closed.part hwalked (parts ▸ hp)
  | _ => trivial

/-- The left operand of a connective is reached. -/
theorem left {span : Span} {operator : BinaryOperator} {left right : Operation}
    (hconnective : (Operation.binary span operator left right).isConnective = true)
    (h : (test (.binary span operator left right)).Reached r body x walked) :
    (test left).Reached r body x walked := by
  cases operator using BinaryOperator.cases_comparison with
  | and => exact (shortCircuit closed rfl h).1
  | or => exact (shortCircuit closed rfl h).1
  | comparison operator hop => exact (compared closed hop hconnective h).1
  | other => exact absurd hconnective (by simp [Operation.isConnective])

theorem first {task first : Task} (hfirst : task.first? r body = some first)
    (h : task.Reached r body x walked) :
    first.Reached r body x walked := by
  have ofVisit : ∀ {op : Operation}, (visit op).Reached r body x walked →
    (if op.isConnective = true then some (test op)
      else some (sequence (body.operandsOf r op))) = some first →
        first.Reached r body x walked := by
    intro op h hfirst
    split at hfirst
    case isTrue hop =>
      obtain rfl := Option.some.inj hfirst
      exact h
    case isFalse hop =>
      obtain rfl := Option.some.inj hfirst
      exact operands closed (Bool.eq_false_iff.2 hop) h
  cases task with
  | visit op =>
    cases op with
    | conditional span condition branch other =>
      obtain rfl := Option.some.inj hfirst
      exact (conditional closed h).1
    | loop span condition round =>
      obtain rfl := Option.some.inj hfirst
      exact (loop closed h).1
    | _ => exact ofVisit h hfirst
  | test op =>
    cases op with
    | unary span operator operand =>
      cases operator with
      | not =>
        obtain rfl := Option.some.inj hfirst
        exact negated closed h
      | other =>
        obtain rfl := Option.some.inj hfirst
        exact h
    | binary span operator onLeft onRight =>
      rw [first?] at hfirst
      split at hfirst
      case isTrue hop =>
        obtain rfl := Option.some.inj hfirst
        exact left closed hop h
      case isFalse =>
        obtain rfl := Option.some.inj hfirst
        exact h
    | _ =>
      obtain rfl := Option.some.inj hfirst
      exact h
  | enter condition =>
    cases condition with
    | none => exact absurd hfirst (by simp [first?])
    | some condition =>
      obtain rfl := Option.some.inj hfirst
      exact h
  | sequence ops =>
    cases ops with
    | nil => exact absurd hfirst (by simp [first?])
    | cons op rest =>
      obtain rfl := Option.some.inj hfirst
      obtain ⟨w, hx, hwalked, -⟩ := h
      exact ⟨w, hx, hwalked⟩

end Task.Reached

/-! ## What a run reaches -/

/-- A use site is walked in worlds with the given one among them. -/
def SiteWalked (r : GuardReader) (body : Operation) (x : World) (walked : Operation → Worlds → Prop)
    (site : UseSite) :
    Prop :=
  ∃ op w, walked op w ∧ x ∈ w ∧
    op.useSite? body.definesFunction (WalkScope.ofBody r body).isAssertion = some site

/-- Of what a run reaches, all is walked that is not reached aside. -/
def Covered (r : GuardReader) (body : Operation) (x : World) (walked : Operation → Worlds → Prop)
    (s : List ReachedUse) : Prop :=
  ∀ u ∈ s, u.aside = false → SiteWalked r body x walked u.site

namespace Covered

variable {s s' : List ReachedUse}

theorem append (h : Covered r body x walked s) (h' : Covered r body x walked s') :
    Covered r body x walked (s ++ s') :=
  List.forall_mem_append.2 ⟨h, h'⟩

theorem setAside (s : List ReachedUse) : Covered r body x walked (setAside s) := by
  intro u hu hfollowed
  obtain ⟨u', -, rfl⟩ := List.mem_map.1 hu
  cases hfollowed

theorem asideUnless {b : Bool} (h : b = true → Covered r body x walked s) :
    Covered r body x walked (asideUnless b s) := by
  cases b with
  | true => exact h rfl
  | false => exact setAside s

end Covered

theorem definesFunction_of_mem {span : Span} {f : SymbolId} {code : Operation}
    (h : .localFunction span f code ∈ body.subterms) : body.definesFunction f = true :=
  List.any_eq_true.2 ⟨_, h, decide_eq_true rfl⟩

theorem holdsLambda_of_mem {span span' : Span} {y : LocalId} {code : Operation}
    (h : .localAssignment span y (some (.lambda span' code)) ∈ body.subterms) :
    body.holdsLambda y = true :=
  List.any_eq_true.2 ⟨_, h, decide_eq_true rfl⟩

theorem calleeOf?_of_call {span span' : Span} {f : SymbolId} {code : Operation}
    {receiver : Option Operation} {arguments : List Operation}
    (hassert : body.isAssertion r f arguments = false)
    (hdefined : .localFunction span' f code ∈ body.subterms) :
    (WalkScope.ofBody r body).calleeOf? (.invocation span f receiver arguments) =
      some (.function f) := by
  have hfunction : (WalkScope.ofBody r body).callables.isLocalFunction f = true :=
    CallableIndex.isLocalFunction_ofBody.trans (definesFunction_of_mem hdefined)
  rw [Operation.isAssertion] at hassert
  rw [WalkScope.calleeOf?, hfunction, hassert]
  rfl

theorem calleeOf?_of_lambdaCall {span span' span₁ span₂ : Span} {y : LocalId} {code : Operation}
    {arguments : List Operation}
    (hassigned : .localAssignment span₁ y (some (.lambda span₂ code)) ∈ body.subterms) :
    (WalkScope.ofBody r body).calleeOf?
      (.delegateInvocation span (.localReference span' y) arguments) =
      some (.lambda y) :=
  if_pos (CallableIndex.isLambda_ofBody.trans (holdsLambda_of_mem hassigned))

/-- Every use site that a run reaches is walked, in worlds with the one of the run among them;
unless it is reached on the side of an assertion. -/
theorem Runs.covered (closed : ClosedWalks r body x walked) {task : Task}
    {s : List ReachedUse} {e : Ending} (h : Runs r body x task s e)
    (reached : task.Reached r body x walked) : Covered r body x walked s := by
  have nothing : Covered r body x walked [] := fun _ hu => absurd hu List.not_mem_nil
  induction h with
  | fails | done | entersFreely | recalls => exact nothing
  | before hescapes _ _ ihcode ih => exact (ihcode (closed.escaping hescapes)).append (ih reached)
  | after _ hescapes _ ih ihcode => exact (ih reached).append (ihcode (closed.escaping hescapes))
  | aborted hfirst _ ih => exact ih (reached.first closed hfirst)
  | next hop _ ihop ihops =>
    obtain ⟨w, hx, hwalked, hnext⟩ := reached
    -- control falls through the first operation, so the walk goes on to the others
    obtain ⟨w', hafter, hx'⟩ := hop.allowed w hx
    exact (ihop ⟨w, hx, hwalked⟩).append (ihops (hnext w' hafter hx'))
  | @passes op s hpasses _ ih =>
    refine ih (reached.operands closed ?_)
    cases op with
    | unary span operator operand =>
      cases operator <;> first | rfl | exact absurd hpasses (by simp [Operation.passes])
    | binary => simpa [Operation.passes] using hpasses
    | _ => rfl
  | @leaves op j s hjump _ ih =>
    refine ih (reached.operands closed ?_)
    cases op with
    | unary | binary => exact absurd hjump (by simp [Operation.jump?])
    | _ => rfl
  | @uses op site s hsite _ ih =>
    refine (ih (reached.operands closed ?_)).append ?_
    · cases op with
      | unary | binary => exact absurd hsite (by simp [Operation.useSite?])
      | _ => rfl
    · obtain ⟨w, hx, hwalked⟩ := reached
      exact List.forall_mem_singleton.2 fun _ => ⟨op, w, hwalked, hx, hsite⟩
  | callsFunction hassert hdefined _ _ ihoperands ihcode =>
    -- the code runs here, but is walked elsewhere: that it is invoked is what links the two
    obtain ⟨w, hx, hwalked⟩ := reached
    exact (ihoperands (Task.Reached.callOperands closed hassert ⟨w, hx, hwalked⟩)).append
      (ihcode (closed.function hwalked hx (calleeOf?_of_call hassert hdefined) hdefined))
  | callsLambda hassigned _ _ iharguments ihcode =>
    obtain ⟨w, hx, hwalked⟩ := reached
    exact (iharguments (Task.Reached.delegateArguments closed ⟨w, hx, hwalked⟩).2).append
      (ihcode (closed.lambda hwalked hx (calleeOf?_of_lambdaCall hassigned) hassigned))
  | callsElsewhere _ _ _ ih => exact ih (Task.Reached.delegateArguments closed reached).2
  | whenTrue hcondition _ ihcondition ihbranch =>
    obtain ⟨onCondition, onTrue, -⟩ := Task.Reached.conditional closed reached
    exact (ihcondition onCondition).append (ihbranch (onTrue hcondition.allowed))
  | whenFalse hcondition _ ihcondition ihother =>
    obtain ⟨onCondition, -, onFalse⟩ := Task.Reached.conditional closed reached
    exact (ihcondition onCondition).append (ihother (onFalse hcondition.allowed))
  | enters _ ih => exact ih reached
  | loopEnds _ ih => exact ih (Task.Reached.loop closed reached).1
  | loopLeft henter _ _ ihenter ihround =>
    obtain ⟨onEnter, onRound⟩ := Task.Reached.loop closed reached
    exact (ihenter onEnter).append (ihround (onRound henter.allowed))
  | loopAgain henter _ _ _ ihenter ihround ihrest =>
    -- the walk goes round once, but it keeps the worlds of the loop, so that the rest is
    -- reached as the whole was
    obtain ⟨onEnter, onRound⟩ := Task.Reached.loop closed reached
    exact ((ihenter onEnter).append (ihround (onRound henter.allowed))).append (ihrest reached)
  | switchSkips _ ih => exact ih (Task.Reached.switch closed reached).1
  | switchRuns _ hchosen _ ihvalue ihchosen =>
    obtain ⟨onValue, onCases⟩ := Task.Reached.switch closed reached
    exact (ihvalue onValue).append (ihchosen (onCases _ hchosen))
  | asserts hassert _ _ hcondition _ ihreceiver ihcondition ihrest =>
    -- the arguments after a false condition are walked as if it were true
    obtain ⟨onReceiver, onCondition, onRest⟩ := Task.Reached.assertion closed hassert reached
    refine ((ihreceiver onReceiver).append (ihcondition onCondition)).append
      (Covered.asideUnless fun holds => ?_)
    exact ihrest (onRest (holds ▸ hcondition.allowed))
  | assertsAndCalls hassert _ _ hcondition _ _ ihreceiver ihcondition ihrest _ =>
    obtain ⟨onReceiver, onCondition, onRest⟩ := Task.Reached.assertion closed hassert reached
    refine (((ihreceiver onReceiver).append (ihcondition onCondition)).append
      (Covered.asideUnless fun holds => ?_)).append (Covered.setAside _)
    exact ihrest (onRest (holds ▸ hcondition.allowed))
  | conditionAborted hassert _ _ ihreceiver ihcondition =>
    obtain ⟨onReceiver, onCondition, -⟩ := Task.Reached.assertion closed hassert reached
    exact (ihreceiver onReceiver).append (ihcondition onCondition)
  | assertionAborted hassert _ hcondition _ ihreceiver ihcondition ihrest =>
    obtain ⟨onReceiver, onCondition, onRest⟩ := Task.Reached.assertion closed hassert reached
    refine ((ihreceiver onReceiver).append (ihcondition onCondition)).append
      (Covered.asideUnless fun holds => ?_)
    exact ihrest (onRest (holds ▸ hcondition.allowed))
  | decides _ _ ih => exact ih reached
  | answers _ _ ih => exact ih reached
  | negates _ ih => exact ih (Task.Reached.negated closed reached)
  | cutsShort hop _ ih => exact ih (Task.Reached.shortCircuit closed hop reached).1
  | goesOn hop hleft _ ihleft ihright =>
    obtain ⟨onLeft, onRight⟩ := Task.Reached.shortCircuit closed hop reached
    exact (ihleft onLeft).append (ihright (onRight hleft.allowed))
  | compares hop hconnective _ _ ihleft ihright =>
    obtain ⟨onLeft, onRight⟩ := Task.Reached.compared closed hop hconnective reached
    exact (ihleft onLeft).append (ihright onRight)
  | comparisonAborted hop hconnective _ _ ihleft ihright =>
    obtain ⟨onLeft, onRight⟩ := Task.Reached.compared closed hop hconnective reached
    exact (ihleft onLeft).append (ihright onRight)

end

end PlatformGuard
