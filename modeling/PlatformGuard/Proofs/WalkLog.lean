import PlatformGuard.Analysis.Body
import PlatformGuard.Proofs.ContractMemory

/-!
# The analysis of a body as a list of walks

An analysis goes through the events of one unit after the other and carries a state: contracts
remembered, worlds in which callables were invoked, findings. Here it is told without a state. Given
the contract of each symbol, a unit is walked from worlds that follow from the walks before it
(`BodyAnalysis.walks`), and the findings are those of the uses on the walks, in order.

* `exists_analyzeBody_eq_ok`: an analysis that cannot be cancelled has findings.
* `analyzeBody_eq_ok`: the findings, where there are any, are those of the walks.
-/

namespace PlatformGuard

def WalkUnit.use (unit : WalkUnit) (d : Declarations) (contractOf : SymbolId → Contract)
    (target : SymbolId) (span : Span) (w : Worlds) : Use where
  target := d.table.displayName target
  contract := contractOf target
  worlds := w
  enclosing := unit.enclosing
  location := .ofSpan unit.file span

/-- A use is checked; one with an empty contract has no findings anyway. -/
theorem BodyRecord.recordUse_eq (r : BodyRecord) (d : Declarations) (unit : WalkUnit)
    (contract : Contract) (target : SymbolId) (span : Span) (w : Worlds) :
    r.recordUse d unit contract target span w =
      { r with diagnostics := r.diagnostics ++
        (unit.use d (fun _ => contract) target span w).check } := by
  rw [recordUse]
  split
  case isTrue hempty =>
    have none : (unit.use d (fun _ => contract) target span w).check = [] := by
      rw [Use.check]
      exact if_pos (Bool.or_eq_true_iff.2 (.inl hempty))
    rw [none, List.append_nil]
  case isFalse => rfl

/-! ## Contracts that stay -/

namespace BodyState

variable {d : Declarations} {unit : WalkUnit} {s : BodyState} {contractOf : SymbolId → Contract}

theorem contract_agrees {id : SymbolId} (h : (s.contract d id).2.session.cache.Agrees contractOf) :
    s.session.cache.Agrees contractOf ∧ (s.contract d id).1 = contractOf id :=
  ⟨fun _ _ hget => h _ _ (ContractCache.get?_contract_of_get? hget),
    (h _ _ ContractCache.get?_contract).symm⟩

/-! ## Events -/

/-- What an event does to the state, polls apart. -/
def step (d : Declarations) (unit : WalkUnit) (s : BodyState) : WalkEvent → BodyState
  | .poll => s
  | .use target span w => s.recordUse d unit target span w
  | .invoke callee w => s.recordInvocation unit.key callee w

def withCancellation (s : BodyState) (c : Cancellation) : BodyState :=
  { s with session := { s.session with cancellation := c } }

theorem recordUse_eq (target : SymbolId) (span : Span) (w : Worlds) :
    s.recordUse d unit target span w = { (s.contract d target).2 with
      diagnostics := s.diagnostics ++
        (unit.use d (fun _ => (s.contract d target).1) target span w).check } := by
  show ({ (s.contract d target).2 with
    toBodyRecord := s.toBodyRecord.recordUse d unit (s.contract d target).1 target span w } :
      BodyState) = _
  rw [BodyRecord.recordUse_eq]
  rfl

theorem step_withCancellation (c : Cancellation) (e : WalkEvent) :
    (s.withCancellation c).step d unit e = (s.step d unit e).withCancellation c := by
  cases e <;> rfl

/-- Without a cancellation all events happen. -/
theorem follow_never (events : List WalkEvent) :
    follow d unit events (s.withCancellation .never) =
      ((events.foldl (step d unit) s).withCancellation .never, .ok ()) := by
  induction events generalizing s with
  | nil => rfl
  | cons e rest ih =>
    rw [List.foldl_cons, ← ih, ← step_withCancellation]
    cases e <;> rfl

/-- Where the end is reached, a cancellation makes no difference. -/
theorem follow_of_ok {events : List WalkEvent} (h : (follow d unit events s).2 = .ok ()) :
    follow d unit events (s.withCancellation .never) =
      ((follow d unit events s).1.withCancellation .never, .ok ()) := by
  induction events generalizing s with
  | nil => rfl
  | cons e rest ih =>
    cases e with
    | poll =>
      rw [follow] at h
      have skip : follow d unit (.poll :: rest) (s.withCancellation .never) =
          follow d unit rest (s.withCancellation .never) := rfl
      rw [skip, follow]
      cases hpoll : s.session.cancellation.poll with
      | error e =>
        rw [hpoll] at h
        exact absurd h (by simp)
      | ok left =>
        rw [hpoll] at h
        exact ih h
    | use target span w =>
      show follow d unit rest ((s.withCancellation .never).step d unit (.use target span w)) = _
      rw [step_withCancellation]
      exact ih h
    | invoke callee w =>
      show follow d unit rest ((s.withCancellation .never).step d unit (.invoke callee w)) = _
      rw [step_withCancellation]
      exact ih h

theorem step_agrees {e : WalkEvent} (h : (s.step d unit e).session.cache.Agrees contractOf) :
    s.session.cache.Agrees contractOf := by
  cases e with
  | poll => exact h
  | use target span w =>
    rw [step, recordUse_eq] at h
    exact (contract_agrees h).1
  | invoke callee w => exact h

theorem foldl_step_agrees {events : List WalkEvent}
    (h : (events.foldl (step d unit) s).session.cache.Agrees contractOf) :
    s.session.cache.Agrees contractOf := by
  induction events generalizing s with
  | nil => exact h
  | cons e rest ih => exact step_agrees (ih h)

theorem follow_agrees {events : List WalkEvent}
    (h : (follow d unit events s).1.session.cache.Agrees contractOf) :
    s.session.cache.Agrees contractOf := by
  induction events generalizing s with
  | nil => exact h
  | cons e rest ih =>
    cases e with
    | poll =>
      rw [follow] at h
      split at h
      case h_1 left _ =>
        have polled : (s.withCancellation left).session.cache.Agrees contractOf := ih h
        exact polled
      case h_2 => exact h
    | use target span w => exact step_agrees (d := d) (e := .use target span w) (ih h)
    | invoke callee w => exact step_agrees (d := d) (e := .invoke callee w) (ih h)

end BodyState

def WalkUnit.findings (unit : WalkUnit) (d : Declarations) (contractOf : SymbolId → Contract) :
    WalkEvent → List Diagnostic
  | .use target span w => (unit.use d contractOf target span w).check
  | _ => []

def joinWorlds (known : Option Worlds) (w : Worlds) : Option Worlds :=
  some <| match known with
    | some v => v.union w
    | none => w

/-- The worlds of an event that invokes a callable. -/
def WalkEvent.invokes? (callee : CallableKey) : WalkEvent → Option Worlds
  | .invoke key w => if key = callee then some w else none
  | _ => none

/-- The worlds in which a unit invokes a callable. What it knows of itself adds nothing. -/
def WalkUnit.invocationsOf (unit : WalkUnit) (callee : CallableKey) (events : List WalkEvent) :
    List Worlds :=
  if unit.key = callee then [] else events.filterMap (WalkEvent.invokes? callee)

namespace BodyState

variable {d : Declarations} {unit : WalkUnit} {s : BodyState} {contractOf : SymbolId → Contract}

theorem step_diagnostics {e : WalkEvent} (h : (s.step d unit e).session.cache.Agrees contractOf) :
    (s.step d unit e).diagnostics = s.diagnostics ++ unit.findings d contractOf e := by
  cases e with
  | poll => exact (List.append_nil _).symm
  | use target span w =>
    rw [step, recordUse_eq] at h ⊢
    have known := (contract_agrees h).2
    show s.diagnostics ++ (unit.use d (fun _ => (s.contract d target).1) target span w).check = _
    rw [known]
    rfl
  | invoke callee w =>
    show (s.toBodyRecord.recordInvocation unit.key callee w).diagnostics = _
    rw [BodyRecord.recordInvocation]
    split <;> exact (List.append_nil _).symm

theorem foldl_step_diagnostics {events : List WalkEvent}
    (h : (events.foldl (step d unit) s).session.cache.Agrees contractOf) :
    (events.foldl (step d unit) s).diagnostics = s.diagnostics ++
    events.flatMap (unit.findings d contractOf) := by
  induction events generalizing s with
  | nil => exact (List.append_nil _).symm
  | cons e rest ih =>
    rw [List.foldl_cons, ih h, step_diagnostics (foldl_step_agrees h), List.flatMap_cons,
      List.append_assoc]

theorem invokedIn?_recordInvocation (key callee other : CallableKey) (w : Worlds) :
    (s.recordInvocation key callee w).invokedIn? other =
      if callee ≠ key ∧ callee = other then joinWorlds (s.invokedIn? other) w
      else s.invokedIn? other := by
  rw [recordInvocation, BodyRecord.recordInvocation]
  by_cases hself : callee = key
  · rw [if_pos hself, if_neg (fun h => h.1 hself)]
  · rw [if_neg hself]
    by_cases heq : callee = other
    · subst heq
      rw [if_pos ⟨hself, rfl⟩]
      simp only [BodyRecord.invokedIn?, List.find?_cons, decide_true]
      rfl
    · rw [if_neg (fun h => heq h.2)]
      have kept : (s.invoked.filter fun e => e.1 ≠ callee).find? (fun e => e.1 = other) =
          s.invoked.find? fun e => e.1 = other := by
        rw [List.find?_filter]
        congr 1
        funext e
        by_cases he : e.1 = other
        · simp [he, Ne.symm heq]
        · simp [he]
      simp only [BodyRecord.invokedIn?, List.find?_cons, heq, decide_false]
      rw [kept]

theorem foldl_step_invokedIn? (events : List WalkEvent) (callee : CallableKey) :
    (events.foldl (step d unit) s).invokedIn? callee =
      (unit.invocationsOf callee events).foldl joinWorlds (s.invokedIn? callee) := by
  induction events generalizing s with
  | nil =>
    rw [WalkUnit.invocationsOf]
    split <;> rfl
  | cons e rest ih =>
    rw [List.foldl_cons, ih]
    cases e with
    | poll => rfl
    | use target span w =>
      have same : (s.recordUse d unit target span w).invokedIn? callee = s.invokedIn? callee := by
        rw [recordUse_eq]
        rfl
      rw [step, same]
      rfl
    | invoke key w =>
      rw [step, invokedIn?_recordInvocation, WalkUnit.invocationsOf, WalkUnit.invocationsOf]
      by_cases hself : unit.key = callee
      · rw [if_pos hself, if_pos hself, if_neg]
        rintro ⟨hne, rfl⟩
        exact hne hself.symm
      · rw [if_neg hself, if_neg hself]
        by_cases hkey : key = callee
        · subst hkey
          rw [if_pos ⟨Ne.symm hself, rfl⟩]
          simp [WalkEvent.invokes?]
        · rw [if_neg (fun h => hkey h.2)]
          simp [WalkEvent.invokes?, hkey]

end BodyState

/-! ## Walks of units -/

/-- The walk of a unit from some worlds. -/
structure UnitWalk where
  unit : WalkUnit
  code : Operation
  entry : Worlds

namespace UnitWalk

def events (scope : WalkScope) (u : UnitWalk) : List WalkEvent :=
  ((u.code.walk scope).visit u.entry).events

def invocationsOf (scope : WalkScope) (callee : CallableKey) (u : UnitWalk) : List Worlds :=
  u.unit.invocationsOf callee (u.events scope)

def findings (d : Declarations) (contractOf : SymbolId → Contract) (scope : WalkScope)
    (u : UnitWalk) :
    List Diagnostic :=
  (u.events scope).flatMap (u.unit.findings d contractOf)

end UnitWalk

namespace BodyAnalysis

/-- The contract of the code of a unit: a local function has its own, all else that of the body. -/
def enclosing (a : BodyAnalysis) (contractOf : SymbolId → Contract) : CallableKey → Contract
  | .function symbol => contractOf symbol
  | _ => a.contract

/-- The worlds in which some walks invoke a callable; none if they do not. -/
def invokedIn? (a : BodyAnalysis) (walks : List UnitWalk) (callee : CallableKey) : Option Worlds :=
  (walks.flatMap (UnitWalk.invocationsOf a.scope callee)).foldl joinWorlds none

def bodyWalk (a : BodyAnalysis) (body : Operation) : UnitWalk where
  unit := { key := .body, file := a.file, enclosing := a.contract }
  code := body
  entry := a.contract.allowedWorlds

/-- The walk of a callable after other walks. -/
def callableWalk (a : BodyAnalysis) (contractOf : SymbolId → Contract) (walks : List UnitWalk)
    (callable : CallableDef) (cyclic : Bool) : UnitWalk :=
  let enclosing := a.enclosing contractOf callable.key
  { unit := { key := callable.key, file := a.file, enclosing }
    code := callable.body
    entry := match a.invokedIn? walks callable.key with
      | some invoked =>
        if callable.escapes || cyclic then enclosing.allowedWorlds
        else invoked.inter enclosing.allowedWorlds
      | none => enclosing.allowedWorlds }

def walksFrom (a : BodyAnalysis) (contractOf : SymbolId → Contract) :
    List (CallableKey × Bool) → List UnitWalk → List UnitWalk
  | [], walks => walks
  | (key, cyclic) :: rest, walks =>
    match a.scope.callables.get? key with
    | none => walksFrom a contractOf rest walks
    | some callable =>
      walksFrom a contractOf rest (walks ++ [a.callableWalk contractOf walks callable cyclic])

/-- The walks of a body and its callables. -/
def walks (a : BodyAnalysis) (contractOf : SymbolId → Contract) (body : Operation) :
    List UnitWalk :=
  a.walksFrom contractOf a.scope.callables.walkOrder [a.bodyWalk body]

theorem walksFrom_append (a : BodyAnalysis) (contractOf : SymbolId → Contract)
    (first second : List (CallableKey × Bool)) (walks : List UnitWalk) :
    a.walksFrom contractOf (first ++ second) walks =
      a.walksFrom contractOf second (a.walksFrom contractOf first walks) := by
  induction first generalizing walks with
  | nil => rfl
  | cons next rest ih =>
    obtain ⟨key, cyclic⟩ := next
    rw [List.cons_append, walksFrom, walksFrom]
    cases a.scope.callables.get? key with
    | none => exact ih walks
    | some callable => exact ih _

/-- Each callable in the order is walked once. -/
theorem walksFrom_code (a : BodyAnalysis) (contractOf : SymbolId → Contract)
    (order : List (CallableKey × Bool)) (walks : List UnitWalk) :
    ((a.walksFrom contractOf order walks).map fun u => (u.unit.key, u.code)) =
      (walks.map fun u => (u.unit.key, u.code)) ++
      (order.map (·.1)).filterMap fun key => (a.scope.callables.get? key).map fun d =>
      (d.key, d.body) := by
  induction order generalizing walks with
  | nil => exact (List.append_nil _).symm
  | cons next rest ih =>
    obtain ⟨key, cyclic⟩ := next
    rw [walksFrom, List.map_cons, List.filterMap_cons]
    cases a.scope.callables.get? key with
    | none => exact ih walks
    | some callable =>
      refine (ih _).trans ?_
      rw [List.map_append, List.append_assoc]
      rfl

/-- What is walked later does not change the walks before. -/
theorem walks_prefix_walksFrom (a : BodyAnalysis) (contractOf : SymbolId → Contract)
    (order : List (CallableKey × Bool)) (walks : List UnitWalk) :
    walks <+: a.walksFrom contractOf order walks := by
  induction order generalizing walks with
  | nil => exact List.prefix_refl walks
  | cons next rest ih =>
    obtain ⟨key, cyclic⟩ := next
    rw [walksFrom]
    cases a.scope.callables.get? key with
    | none => exact ih walks
    | some callable => exact (List.prefix_append _ _).trans (ih _)

/-- What holds of the walk of every callable holds of all walks. -/
theorem forall_mem_walksFrom {a : BodyAnalysis} {contractOf : SymbolId → Contract}
    {p : UnitWalk → Prop}
    (next : ∀ walks callable cyclic, p (a.callableWalk contractOf walks callable cyclic))
    (order : List (CallableKey × Bool)) {walks : List UnitWalk} (h : ∀ u ∈ walks, p u) :
    ∀ u ∈ a.walksFrom contractOf order walks, p u := by
  induction order generalizing walks with
  | nil => exact h
  | cons entry rest ih =>
    obtain ⟨key, cyclic⟩ := entry
    rw [walksFrom]
    cases a.scope.callables.get? key with
    | none => exact ih h
    | some callable =>
      exact ih (List.forall_mem_append.2
        ⟨h, List.forall_mem_singleton.2 (next walks callable cyclic)⟩)

/-! ## The state along the walks -/

variable {a : BodyAnalysis} {s : BodyState} {contractOf : SymbolId → Contract}

/-- What a walk does to the state. -/
def advance (a : BodyAnalysis) (u : UnitWalk) (s : BodyState) : BodyState :=
  (u.events a.scope).foldl (BodyState.step a.declarations u.unit) s

/-- The walk of a callable, and the state once its contract was asked for. -/
def nextWalk (a : BodyAnalysis) (key : CallableKey) (callable : CallableDef) (cyclic : Bool)
    (s : BodyState) :
    UnitWalk × BodyState :=
  let (contract, s) := a.callableContract key s
  (⟨{ key, file := a.file, enclosing := contract }, callable.body,
    s.entryWorlds callable cyclic contract.allowedWorlds⟩, s)

def advanceAll (a : BodyAnalysis) : List (CallableKey × Bool) → BodyState → BodyState
  | [], s => s
  | (key, cyclic) :: rest, s =>
    match a.scope.callables.get? key with
    | none => advanceAll a rest s
    | some callable =>
      let (u, s) := a.nextWalk key callable cyclic s
      advanceAll a rest (a.advance u s)

/-- Goes on where the end was reached. -/
def andThen (result : BodyState × Except AnalysisError Unit)
    (next : BodyState → BodyState × Except AnalysisError Unit) :
    BodyState × Except AnalysisError Unit :=
  match result with
  | (s, .ok ()) => next s
  | (s, .error e) => (s, .error e)

theorem andThen_of_ok {result result' : BodyState × Except AnalysisError Unit}
    {next : BodyState → BodyState × Except AnalysisError Unit}
    (hresult : result.2 = .ok () → result' = (result.1.withCancellation .never, .ok ()))
    (hnext : ∀ s, (next s).2 = .ok () → next (s.withCancellation .never) =
      ((next s).1.withCancellation .never, .ok ()))
    (h : (andThen result next).2 = .ok ()) :
    andThen result' next = ((andThen result next).1.withCancellation .never, .ok ()) := by
  obtain ⟨s, reached⟩ := result
  cases reached with
  | error e => exact absurd h (by simp [andThen])
  | ok =>
    rw [hresult rfl]
    exact hnext s h

theorem nextWalk_withCancellation (key : CallableKey) (callable : CallableDef) (cyclic : Bool)
    (c : Cancellation) :
    a.nextWalk key callable cyclic (s.withCancellation c) =
      ((a.nextWalk key callable cyclic s).1,
        (a.nextWalk key callable cyclic s).2.withCancellation c) := by
  cases key <;> rfl

theorem walkCallables_cons {key : CallableKey} {cyclic : Bool} {rest : List (CallableKey × Bool)}
    {callable : CallableDef} (h : a.scope.callables.get? key = some callable) :
    a.walkCallables ((key, cyclic) :: rest) s =
      let (u, s) := a.nextWalk key callable cyclic s
      andThen (a.walkUnit u.unit u.code u.entry s) (a.walkCallables rest) := by
  rw [walkCallables, h]
  rfl

theorem walkUnit_never (u : UnitWalk) :
    a.walkUnit u.unit u.code u.entry (s.withCancellation .never) =
      ((a.advance u s).withCancellation .never, .ok ()) :=
  BodyState.follow_never _

theorem walkCallables_never (order : List (CallableKey × Bool)) :
    a.walkCallables order (s.withCancellation .never) =
      ((a.advanceAll order s).withCancellation .never, .ok ()) := by
  induction order generalizing s with
  | nil => rfl
  | cons next rest ih =>
    obtain ⟨key, cyclic⟩ := next
    cases hget : a.scope.callables.get? key with
    | none =>
      rw [walkCallables, advanceAll, hget]
      exact ih
    | some callable =>
      rw [walkCallables_cons hget, advanceAll, hget, nextWalk_withCancellation]
      show andThen (a.walkUnit _ _ _ (BodyState.withCancellation _ _)) _ = _
      rw [walkUnit_never]
      exact ih

/-- Where the end is reached, a cancellation makes no difference. -/
theorem walkCallables_of_ok {order : List (CallableKey × Bool)}
    (h : (a.walkCallables order s).2 = .ok ()) :
    a.walkCallables order (s.withCancellation .never) =
      ((a.walkCallables order s).1.withCancellation .never, .ok ()) := by
  induction order generalizing s with
  | nil => rfl
  | cons next rest ih =>
    obtain ⟨key, cyclic⟩ := next
    cases hget : a.scope.callables.get? key with
    | none =>
      rw [walkCallables, hget] at h ⊢
      rw [walkCallables, hget]
      exact ih h
    | some callable =>
      rw [walkCallables_cons hget] at h
      rw [walkCallables_cons hget, walkCallables_cons hget, nextWalk_withCancellation]
      exact andThen_of_ok BodyState.follow_of_ok (fun _ => ih) h

/-- Walks a body and then some of its callables. -/
def runUpTo (a : BodyAnalysis) (body : Operation) (order : List (CallableKey × Bool))
    (s : BodyState) :
    BodyState × Except AnalysisError Unit :=
  andThen (a.walkUnit (a.bodyWalk body).unit body (a.bodyWalk body).entry s) (a.walkCallables order)

theorem runUpTo_never (body : Operation) (order : List (CallableKey × Bool)) :
    a.runUpTo body order (s.withCancellation .never) =
      ((a.advanceAll order (a.advance (a.bodyWalk body) s)).withCancellation .never, .ok ()) := by
  show andThen (a.walkUnit _ (a.bodyWalk body).code _ _) _ = _
  rw [walkUnit_never]
  exact walkCallables_never _

/-- A run that comes to the end does what its walks do. -/
theorem runUpTo_of_ok {body : Operation} {order : List (CallableKey × Bool)}
    (h : (a.runUpTo body order s).2 = .ok ()) :
    (a.runUpTo body order s).1.withCancellation .never =
      (a.advanceAll order (a.advance (a.bodyWalk body) s)).withCancellation .never := by
  have same : a.runUpTo body order (s.withCancellation .never) =
      ((a.runUpTo body order s).1.withCancellation .never, .ok ()) :=
    andThen_of_ok BodyState.follow_of_ok (fun _ => walkCallables_of_ok) h
  exact congrArg Prod.fst (same.symm.trans (runUpTo_never body order))

theorem runUpTo_cache {body : Operation} {order : List (CallableKey × Bool)}
    (h : (a.runUpTo body order s).2 = .ok ()) :
    (a.runUpTo body order s).1.session.cache =
      (a.advanceAll order (a.advance (a.bodyWalk body) s)).session.cache := by
  have caches := congrArg (fun t : BodyState => t.session.cache) (runUpTo_of_ok h)
  exact caches

theorem andThen_assoc (result : BodyState × Except AnalysisError Unit)
    (next last : BodyState → BodyState × Except AnalysisError Unit) :
    andThen (andThen result next) last = andThen result fun s => andThen (next s) last := by
  obtain ⟨s, reached⟩ := result
  cases reached <;> rfl

theorem walkCallables_append (first second : List (CallableKey × Bool)) :
    a.walkCallables (first ++ second) s =
      andThen (a.walkCallables first s) (a.walkCallables second) := by
  induction first generalizing s with
  | nil => rfl
  | cons next rest ih =>
    obtain ⟨key, cyclic⟩ := next
    rw [List.cons_append]
    cases hget : a.scope.callables.get? key with
    | none =>
      rw [walkCallables, walkCallables, hget]
      exact ih
    | some callable =>
      rw [walkCallables_cons hget, walkCallables_cons hget]
      refine (congrArg (andThen _) (funext fun s => ?_)).trans (andThen_assoc _ _ _).symm
      exact ih

theorem runUpTo_append (body : Operation) (first second : List (CallableKey × Bool)) :
    a.runUpTo body (first ++ second) s =
      andThen (a.runUpTo body first s) (a.walkCallables second) := by
  refine (congrArg (andThen _) (funext fun s => ?_)).trans (andThen_assoc _ _ _).symm
  exact walkCallables_append first second

theorem reached_of_andThen {result : BodyState × Except AnalysisError Unit}
    {next : BodyState → BodyState × Except AnalysisError Unit}
    (h : (andThen result next).2 = .ok ()) : result.2 = .ok () := by
  obtain ⟨s, reached⟩ := result
  cases reached with
  | ok => rfl
  | error e => cases h

/-! ## The findings -/

theorem nextWalk_agrees {key : CallableKey} {callable : CallableDef} {cyclic : Bool}
    (h : (a.nextWalk key callable cyclic s).2.session.cache.Agrees contractOf) :
    s.session.cache.Agrees contractOf ∧
      (a.nextWalk key callable cyclic s).1.unit.enclosing = a.enclosing contractOf key := by
  cases key with
  | function symbol => exact BodyState.contract_agrees h
  | body | lambda | anonymous => exact ⟨h, rfl⟩

theorem advanceAll_cons {key : CallableKey} {cyclic : Bool} {rest : List (CallableKey × Bool)}
    {callable : CallableDef} (h : a.scope.callables.get? key = some callable) :
    a.advanceAll ((key, cyclic) :: rest) s =
      a.advanceAll rest
        (a.advance (a.nextWalk key callable cyclic s).1 (a.nextWalk key callable cyclic s).2) := by
  rw [advanceAll, h]

theorem advance_agrees {u : UnitWalk} (h : (a.advance u s).session.cache.Agrees contractOf) :
    s.session.cache.Agrees contractOf :=
  BodyState.foldl_step_agrees h

theorem advanceAll_agrees {order : List (CallableKey × Bool)}
    (h : (a.advanceAll order s).session.cache.Agrees contractOf) :
    s.session.cache.Agrees contractOf := by
  induction order generalizing s with
  | nil => exact h
  | cons next rest ih =>
    obtain ⟨key, cyclic⟩ := next
    cases hget : a.scope.callables.get? key with
    | none =>
      rw [advanceAll, hget] at h
      exact ih h
    | some callable =>
      rw [advanceAll_cons hget] at h
      exact (nextWalk_agrees (advance_agrees (ih h))).1

theorem andThen_agrees {result : BodyState × Except AnalysisError Unit}
    {next : BodyState → BodyState × Except AnalysisError Unit}
    (h : (andThen result next).1.session.cache.Agrees contractOf)
    (back : ∀ s, (next s).1.session.cache.Agrees contractOf → s.session.cache.Agrees contractOf) :
    result.1.session.cache.Agrees contractOf := by
  obtain ⟨s, reached⟩ := result
  cases reached with
  | ok => exact back s h
  | error e => exact h

/-- Contracts that agree with those remembered after some walks, cancelled or not,
agree with those before. -/
theorem walkCallables_agrees {order : List (CallableKey × Bool)}
    (h : (a.walkCallables order s).1.session.cache.Agrees contractOf) :
    s.session.cache.Agrees contractOf := by
  induction order generalizing s with
  | nil => exact h
  | cons next rest ih =>
    obtain ⟨key, cyclic⟩ := next
    cases hget : a.scope.callables.get? key with
    | none =>
      rw [walkCallables, hget] at h
      exact ih h
    | some callable =>
      rw [walkCallables_cons hget] at h
      have asked : (a.nextWalk key callable cyclic s).2.session.cache.Agrees contractOf :=
        BodyState.follow_agrees (andThen_agrees h fun _ => ih)
      exact (nextWalk_agrees asked).1

theorem nextWalk_invokedIn? {key callee : CallableKey} {callable : CallableDef} {cyclic : Bool} :
    (a.nextWalk key callable cyclic s).2.invokedIn? callee = s.invokedIn? callee := by
  cases key <;> rfl

theorem nextWalk_diagnostics {key : CallableKey} {callable : CallableDef} {cyclic : Bool} :
    (a.nextWalk key callable cyclic s).2.diagnostics = s.diagnostics := by
  cases key <;> rfl

theorem nextWalk_eq {key : CallableKey} {callable : CallableDef} {cyclic : Bool}
    {walks : List UnitWalk} (hget : a.scope.callables.get? key = some callable)
    (invoked : ∀ callee, s.invokedIn? callee = a.invokedIn? walks callee)
    (h : (a.nextWalk key callable cyclic s).2.session.cache.Agrees contractOf) :
    (a.nextWalk key callable cyclic s).1 = a.callableWalk contractOf walks callable cyclic := by
  obtain rfl : callable.key = key := by simpa using List.find?_some hget
  have unfolded : (a.nextWalk callable.key callable cyclic s).1 =
      ⟨{ key := callable.key, file := a.file
         enclosing := (a.nextWalk callable.key callable cyclic s).1.unit.enclosing }, callable.body,
        (a.nextWalk callable.key callable cyclic s).2.entryWorlds callable cyclic
          (a.nextWalk callable.key callable cyclic s).1.unit.enclosing.allowedWorlds⟩ := rfl
  rw [unfolded, (nextWalk_agrees h).2, BodyRecord.entryWorlds, nextWalk_invokedIn?, invoked]
  rfl

/-- A state holds what some walks give: the worlds of their invocations, and their findings. -/
structure Records (a : BodyAnalysis) (contractOf : SymbolId → Contract) (walks : List UnitWalk)
    (s : BodyState) :
    Prop where
  invoked : ∀ callee, s.invokedIn? callee = a.invokedIn? walks callee
  found : s.diagnostics = walks.flatMap (UnitWalk.findings a.declarations contractOf a.scope)

theorem Records.advance {walks : List UnitWalk} {u : UnitWalk} (h : a.Records contractOf walks s)
    (agrees : (a.advance u s).session.cache.Agrees contractOf) :
    a.Records contractOf (walks ++ [u]) (a.advance u s) where
  invoked callee := by
    rw [invokedIn?, List.flatMap_append, List.foldl_append, List.flatMap_singleton, ← invokedIn?,
      ← h.invoked callee]
    exact BodyState.foldl_step_invokedIn? _ callee
  found := by
    rw [List.flatMap_append, List.flatMap_singleton, ← h.found]
    exact BodyState.foldl_step_diagnostics agrees

theorem Records.nextWalk {walks : List UnitWalk} {key : CallableKey} {callable : CallableDef}
    {cyclic : Bool} (h : a.Records contractOf walks s) :
    a.Records contractOf walks (a.nextWalk key callable cyclic s).2 where
  invoked callee := nextWalk_invokedIn?.trans (h.invoked callee)
  found := nextWalk_diagnostics.trans h.found

/-- A record says nothing of the cancellation. -/
theorem Records.of_same {walks : List UnitWalk} {t : BodyState} (h : a.Records contractOf walks s)
    (same : t.withCancellation .never = s.withCancellation .never) :
    a.Records contractOf walks t where
  invoked callee :=
    (congrArg (fun t : BodyState => t.invokedIn? callee) same).trans (h.invoked callee)
  found := (congrArg (fun t : BodyState => t.diagnostics) same).trans h.found

theorem records_nothing (start : s.invoked = [] ∧ s.diagnostics = []) :
    a.Records contractOf [] s := by
  refine ⟨fun callee => ?_, start.2⟩
  rw [BodyRecord.invokedIn?, start.1]
  rfl

/-- The findings, and what is known of invocations, follow from the walks alone. -/
theorem Records.advanceAll {order : List (CallableKey × Bool)} {walks : List UnitWalk}
    (h : a.Records contractOf walks s)
    (agrees : (a.advanceAll order s).session.cache.Agrees contractOf) :
    a.Records contractOf (a.walksFrom contractOf order walks) (a.advanceAll order s) := by
  induction order generalizing s walks with
  | nil => exact h
  | cons next rest ih =>
    obtain ⟨key, cyclic⟩ := next
    cases hget : a.scope.callables.get? key with
    | none =>
      rw [BodyAnalysis.advanceAll, hget] at agrees ⊢
      rw [walksFrom, hget]
      exact ih h agrees
    | some callable =>
      rw [advanceAll_cons hget] at agrees ⊢
      rw [walksFrom, hget]
      have walked := advanceAll_agrees agrees
      have same := nextWalk_eq hget h.invoked (advance_agrees walked)
      exact ih (same ▸ h.nextWalk.advance walked) agrees

/-- What a run that comes to the end has recorded. -/
theorem runUpTo_records {body : Operation} {order : List (CallableKey × Bool)}
    (start : s.invoked = [] ∧ s.diagnostics = []) (reached : (a.runUpTo body order s).2 = .ok ())
    (h : (a.runUpTo body order s).1.session.cache.Agrees contractOf) :
    s.session.cache.Agrees contractOf ∧
      a.Records contractOf (a.walksFrom contractOf order [a.bodyWalk body])
      (a.runUpTo body order s).1 := by
  have same := runUpTo_of_ok reached
  have agrees : (a.advanceAll order (a.advance (a.bodyWalk body) s)).session.cache.Agrees
      contractOf :=
    runUpTo_cache reached ▸ h
  have walked := advanceAll_agrees agrees
  have records := ((records_nothing start).advance walked).advanceAll agrees
  exact ⟨advance_agrees walked, records.of_same same⟩

end BodyAnalysis

/-! ## The whole analysis -/

def MethodBody.analysis (body : MethodBody) (reader : GuardReader)
    (contractOf : SymbolId → Contract) : BodyAnalysis where
  declarations := reader.declarations
  scope := .ofBody reader body.body
  file := body.file
  contract := contractOf body.owner

/-- The walks of a body and its callables, given the contract of each symbol. -/
def MethodBody.walks (body : MethodBody) (reader : GuardReader) (contractOf : SymbolId → Contract) :
    List UnitWalk :=
  (body.analysis reader contractOf).walks contractOf body.body

def MethodBody.walksUpTo (body : MethodBody) (reader : GuardReader)
    (contractOf : SymbolId → Contract) (order : List (CallableKey × Bool)) : List UnitWalk :=
  (body.analysis reader contractOf).walksFrom contractOf order
    [(body.analysis reader contractOf).bodyWalk body.body]

section

variable {reader : GuardReader} {body : MethodBody} {session : Session}

/-- The contract of the owner, and the state once it was asked for. -/
def ownerContract (reader : GuardReader) (body : MethodBody) (session : Session) :
    Contract × BodyState :=
  BodyState.contract { session } reader.declarations body.owner

/-- The analysis of a body up to some of its callables: the state then, and whether it was
reached. -/
def MethodBody.runUpTo (body : MethodBody) (reader : GuardReader) (session : Session)
    (order : List (CallableKey × Bool)) : BodyState × Except AnalysisError Unit :=
  (body.analysis reader fun _ => (ownerContract reader body session).1).runUpTo body.body order
    (ownerContract reader body session).2

theorem analyzeBody_eq : analyzeBody reader body session =
    match body.runUpTo reader session (CallableIndex.ofBody body.body).walkOrder with
    | (s, .ok ()) => (.ok s.diagnostics, s.session)
    | (s, .error e) => (.error e, s.session) := rfl

theorem analyzeBody_fst : (analyzeBody reader body session).1 =
    let ran := body.runUpTo reader session (CallableIndex.ofBody body.body).walkOrder
    ran.2.map fun _ => ran.1.diagnostics := by
  rw [analyzeBody_eq]
  generalize body.runUpTo reader session (CallableIndex.ofBody body.body).walkOrder = ran
  obtain ⟨s, reached⟩ := ran
  cases reached <;> rfl

theorem analyzeBody_snd : (analyzeBody reader body session).2 =
    (body.runUpTo reader session (CallableIndex.ofBody body.body).walkOrder).1.session := by
  rw [analyzeBody_eq]
  generalize body.runUpTo reader session (CallableIndex.ofBody body.body).walkOrder = ran
  obtain ⟨s, reached⟩ := ran
  cases reached <;> rfl

/-- An analysis that cannot be cancelled comes to the end. -/
theorem MethodBody.reached_of_never (h : session.cancellation = .never)
    (order : List (CallableKey × Bool)) :
    (body.runUpTo reader session order).2 = .ok () := by
  have never : (ownerContract reader body session).2 =
      (ownerContract reader body session).2.withCancellation .never := by
    rw [← h]
    rfl
  rw [runUpTo, never, BodyAnalysis.runUpTo_never]

theorem exists_analyzeBody_eq_ok (h : session.cancellation = .never) :
    ∃ found, (analyzeBody reader body session).1 = .ok found := by
  rw [analyzeBody_fst]
  dsimp only
  rw [MethodBody.reached_of_never h]
  exact ⟨_, rfl⟩

theorem run_of_analyzeBody_eq_ok {found : List Diagnostic}
    (h : (analyzeBody reader body session).1 = .ok found) :
    let ran := body.runUpTo reader session (CallableIndex.ofBody body.body).walkOrder
    ran.2 = .ok () ∧ (analyzeBody reader body session).2 = ran.1.session ∧
      found = ran.1.diagnostics := by
  intro ran
  rw [analyzeBody_fst] at h
  change ran.2.map (fun _ => ran.1.diagnostics) = _ at h
  cases hreached : ran.2 with
  | error e =>
    rw [hreached] at h
    cases h
  | ok =>
    rw [hreached] at h
    exact ⟨rfl, analyzeBody_snd, (Except.ok.inj h).symm⟩

/-- What an analysis has recorded, with contracts that agree with those it remembers. -/
theorem MethodBody.runUpTo_records {order : List (CallableKey × Bool)}
    {contractOf : SymbolId → Contract} (reached : (body.runUpTo reader session order).2 = .ok ())
    (h : (body.runUpTo reader session order).1.session.cache.Agrees contractOf) :
    session.cache.Agrees contractOf ∧ (body.analysis reader contractOf).Records contractOf
      (body.walksUpTo reader contractOf order) (body.runUpTo reader session order).1 := by
  obtain ⟨start, records⟩ := BodyAnalysis.runUpTo_records ⟨rfl, rfl⟩ reached h
  obtain ⟨before, owner⟩ : session.cache.Agrees contractOf ∧
      (ownerContract reader body session).1 = contractOf body.owner :=
    BodyState.contract_agrees start
  rw [owner] at records
  rw [MethodBody.runUpTo, owner]
  exact ⟨before, records⟩

/-- The findings of an analysis, with the contracts as they are remembered after it. Those
remembered before it are the same. -/
theorem analyzeBody_eq_ok {found : List Diagnostic}
    (h : (analyzeBody reader body session).1 = .ok found) :
    let contractOf := (analyzeBody reader body session).2.cache.contractOf reader.declarations
    session.cache.Agrees contractOf ∧ found = (body.walks reader contractOf).flatMap
      (UnitWalk.findings reader.declarations contractOf (.ofBody reader body.body)) := by
  intro contractOf
  have agrees :=
    ContractCache.agrees_contractOf (analyzeBody reader body session).2.cache reader.declarations
  change ContractCache.Agrees _ contractOf at agrees
  clear_value contractOf
  obtain ⟨reached, hsession, hfound⟩ := run_of_analyzeBody_eq_ok h
  rw [hsession] at agrees
  obtain ⟨before, records⟩ := MethodBody.runUpTo_records reached agrees
  exact ⟨before, hfound.trans records.found⟩

end

end PlatformGuard
