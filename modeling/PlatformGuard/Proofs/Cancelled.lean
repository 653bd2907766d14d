import PlatformGuard.Proofs.UseSites

/-!
# What is checked before a cancellation

A cancelled analysis has no findings, but it has checked uses before it was given up. The walks of a
body, told without a state, give one log of polls and checks; the uses that an analysis checks are
those in the log before the poll that finds the cancellation (`MethodBody.run_passes`). Without one
these are all checked uses.
-/

namespace PlatformGuard

/-- What stands in the log of a walk. -/
inductive LogEntry where
  | poll
  | check (use : CheckedUse)

def LogEntry.use? : LogEntry → Option CheckedUse
  | .poll => none
  | .check use => some use

def WalkEvent.logged? (unit : WalkUnit) : WalkEvent → Option LogEntry
  | .poll => some .poll
  | .use target span w => some (.check ⟨unit, ⟨target, span⟩, w⟩)
  | .invoke _ _ => none

def UnitWalk.log (scope : WalkScope) (u : UnitWalk) : List LogEntry :=
  (u.events scope).filterMap (WalkEvent.logged? u.unit)

theorem UnitWalk.log_uses (scope : WalkScope) (u : UnitWalk) :
    (u.log scope).filterMap LogEntry.use? = u.checkedUses scope := by
  rw [log, List.filterMap_filterMap, checkedUses]
  refine List.filterMap_congr fun e _ => ?_
  cases e <;> rfl

/-- The uses in a log before the poll that finds the cancellation. -/
def Cancellation.checked : Cancellation → List LogEntry → List CheckedUse
  | _, [] => []
  | c, .check use :: rest => use :: c.checked rest
  | c, .poll :: rest =>
    match c.poll with
    | .ok left => left.checked rest
    | .error _ => []

theorem Cancellation.checked_subset (c : Cancellation) (log : List LogEntry) :
    c.checked log ⊆ log.filterMap LogEntry.use? := by
  induction log generalizing c with
  | nil => exact List.Subset.refl _
  | cons entry rest ih =>
    cases entry with
    | check use => exact List.cons_subset_cons _ (ih c)
    | poll =>
      rw [checked]
      cases c.poll with
      | error e => exact List.nil_subset _
      | ok left => exact ih left

/-! ## A run along its log -/

/-- A run from a state goes through a log as far as the cancellation lets it: what it has found,
where it goes on, and that a run which comes to the end has checked all uses. -/
structure Passes (d : Declarations) (contractOf : SymbolId → Contract) (log : List LogEntry)
    (s : BodyState) (result : BodyState × Except AnalysisError Unit) : Prop where
  found : result.1.diagnostics =
    s.diagnostics ++ (s.session.cancellation.checked log).flatMap (CheckedUse.findings d contractOf)
  next : ∀ later, s.session.cancellation.checked (log ++ later) =
    s.session.cancellation.checked log ++
      if result.2.isOk then result.1.session.cancellation.checked later else []
  complete : result.2 = .ok () → s.session.cancellation.checked log = log.filterMap LogEntry.use?

section

variable {d : Declarations} {contractOf : SymbolId → Contract} {log later : List LogEntry}
    {s t : BodyState}
  {result : BodyState × Except AnalysisError Unit}

theorem passes_nil : Passes d contractOf [] s (s, .ok ()) where
  found := (List.append_nil _).symm
  next _ := rfl
  complete _ := rfl

/-- A run reads the cancellation and the findings of the state it starts from. -/
theorem Passes.of_same (h : Passes d contractOf log t result)
    (cancellation : t.session.cancellation = s.session.cancellation)
    (diagnostics : t.diagnostics = s.diagnostics) : Passes d contractOf log s result := by
  obtain ⟨found, next, complete⟩ := h
  rw [cancellation] at found next complete
  rw [diagnostics] at found
  exact ⟨found, next, complete⟩

theorem passes_poll_error {e : AnalysisError} (h : s.session.cancellation.poll = .error e) :
    Passes d contractOf (.poll :: log) s (s, .error e) := by
  have stops : ∀ log, s.session.cancellation.checked (.poll :: log) = [] := by
    intro log
    rw [Cancellation.checked, h]
  refine ⟨?_, fun later => ?_, fun reached => by cases reached⟩
  · rw [stops]
    exact (List.append_nil _).symm
  · rw [List.cons_append, stops, stops]
    rfl

theorem Passes.poll {left : Cancellation} (h : s.session.cancellation.poll = .ok left)
    (rest : Passes d contractOf log (s.withCancellation left) result) :
    Passes d contractOf (.poll :: log) s result := by
  have goes : ∀ log, s.session.cancellation.checked (.poll :: log) = left.checked log := by
    intro log
    rw [Cancellation.checked, h]
  refine ⟨?_, fun later => ?_, fun reached => ?_⟩
  · rw [goes]
    exact rest.found
  · rw [List.cons_append, goes, goes]
    exact rest.next later
  · rw [goes]
    exact rest.complete reached

theorem Passes.andThen {onward : BodyState → BodyState × Except AnalysisError Unit}
    (first : Passes d contractOf log s result)
    (second : ∀ t, result = (t, .ok ()) → Passes d contractOf later t (onward t)) :
    Passes d contractOf (log ++ later) s (BodyAnalysis.andThen result onward) := by
  obtain ⟨t, reached⟩ := result
  cases reached with
  | error e =>
    have stops : ∀ later, s.session.cancellation.checked (log ++ later) =
        s.session.cancellation.checked log :=
      fun later => (first.next later).trans (List.append_nil _)
    refine ⟨?_, fun last => ?_, fun reached => by cases reached⟩
    · rw [stops]
      exact first.found
    · rw [List.append_assoc, stops, stops]
      exact (List.append_nil _).symm
  | ok =>
    have goes : ∀ later, s.session.cancellation.checked (log ++ later) =
        s.session.cancellation.checked log ++ t.session.cancellation.checked later := first.next
    have rest := second t rfl
    refine ⟨?_, fun last => ?_, fun reached => ?_⟩
    · rw [goes, List.flatMap_append, ← List.append_assoc, ← first.found]
      exact rest.found
    · rw [List.append_assoc, goes, goes, rest.next, List.append_assoc]
      rfl
    · rw [goes, first.complete rfl, rest.complete reached, List.filterMap_append]

theorem Passes.goesOn (first : Passes d contractOf log s (t, .ok ()))
    (rest : Passes d contractOf later t result) :
    Passes d contractOf (log ++ later) s result := by
  have both : Passes d contractOf (log ++ later) s
      (BodyAnalysis.andThen (t, .ok ()) fun _ => result) :=
    first.andThen fun t' ht => (Prod.mk.inj ht).1 ▸ rest
  exact both

end

namespace BodyState

variable {d : Declarations} {unit : WalkUnit} {s : BodyState} {contractOf : SymbolId → Contract}

theorem step_cancellation (e : WalkEvent) :
    (s.step d unit e).session.cancellation = s.session.cancellation := by
  have same : s.step d unit e = (s.step d unit e).withCancellation s.session.cancellation :=
    step_withCancellation s.session.cancellation e
  rw [same]
  rfl

/-- An event other than a poll is logged with what it finds. -/
theorem step_passes {e : WalkEvent} (he : e ≠ .poll)
    (agrees : (s.step d unit e).session.cache.Agrees contractOf) :
    Passes d contractOf (e.logged? unit).toList s (s.step d unit e, .ok ()) := by
  have findings := step_diagnostics agrees
  have cancellation : (s.step d unit e).session.cancellation = s.session.cancellation :=
    step_cancellation e
  cases e with
  | poll => exact absurd rfl he
  | use target span w =>
    refine ⟨findings.trans ?_, fun later => ?_, fun _ => rfl⟩
    · exact congrArg (s.diagnostics ++ ·) (List.append_nil _).symm
    · rw [cancellation]
      rfl
  | invoke callee w => exact passes_nil.of_same cancellation (findings.trans (List.append_nil _))

theorem follow_passes {events : List WalkEvent}
    (agrees : (follow d unit events s).1.session.cache.Agrees contractOf) :
    Passes d contractOf (events.filterMap (WalkEvent.logged? unit)) s (follow d unit events s) := by
  induction events generalizing s with
  | nil => exact passes_nil
  | cons e rest ih =>
    cases e with
    | poll =>
      show Passes d contractOf (.poll :: rest.filterMap _) s _
      rw [follow] at agrees ⊢
      cases hpoll : s.session.cancellation.poll with
      | error e => exact passes_poll_error hpoll
      | ok left =>
        rw [hpoll] at agrees
        exact Passes.poll hpoll (ih agrees)
    | use target span w =>
      have walked : (follow d unit rest (s.step d unit (.use target span w))).1.session.cache.Agrees
        contractOf := agrees
      exact (step_passes (by simp) (follow_agrees walked)).goesOn (ih walked)
    | invoke callee w =>
      have walked : (follow d unit rest (s.step d unit (.invoke callee w))).1.session.cache.Agrees
        contractOf := agrees
      exact (step_passes (by simp) (follow_agrees walked)).goesOn (ih walked)

end BodyState

namespace BodyAnalysis

variable {a : BodyAnalysis} {s : BodyState} {contractOf : SymbolId → Contract}
    {walks : List UnitWalk}

/-- A walk that comes to its end leaves its invocations and findings on record. -/
theorem Records.walkUnit {u : UnitWalk} {t : BodyState} (h : a.Records contractOf walks s)
    (reached : a.walkUnit u.unit u.code u.entry s = (t, .ok ()))
    (agrees : t.session.cache.Agrees contractOf) :
    a.Records contractOf (walks ++ [u]) t := by
  have same : t.withCancellation .never = (a.advance u s).withCancellation .never := by
    have never := BodyState.follow_of_ok (congrArg Prod.snd reached)
    rw [show BodyState.follow _ _ _ s = (t, .ok ()) from reached] at never
    exact congrArg Prod.fst (never.symm.trans (walkUnit_never u))
  have caches := congrArg (fun t : BodyState => t.session.cache) same
  change t.session.cache = (a.advance u s).session.cache at caches
  exact (h.advance (caches ▸ agrees)).of_same same

/-- A walk, and what comes after it if it comes to its end. -/
theorem Records.passes {u : UnitWalk} {onward : BodyState → BodyState × Except AnalysisError Unit}
    {later : List LogEntry} (h : a.Records contractOf walks s)
    (walked : (a.walkUnit u.unit u.code u.entry s).1.session.cache.Agrees contractOf)
    (agrees :
      (andThen (a.walkUnit u.unit u.code u.entry s) onward).1.session.cache.Agrees contractOf)
    (rest : ∀ t, a.Records contractOf (walks ++ [u]) t →
      (onward t).1.session.cache.Agrees contractOf →
      Passes a.declarations contractOf later t (onward t)) :
    Passes a.declarations contractOf (u.log a.scope ++ later) s
      (andThen (a.walkUnit u.unit u.code u.entry s) onward) := by
  refine (BodyState.follow_passes walked).andThen fun t reached => ?_
  change a.walkUnit _ _ _ _ = _ at reached
  rw [reached] at walked agrees
  exact rest t (h.walkUnit reached walked) agrees

theorem passes_of_nextWalk {key : CallableKey} {callable : CallableDef} {cyclic : Bool}
    {d : Declarations} {log : List LogEntry} {result : BodyState × Except AnalysisError Unit}
    (h : Passes d contractOf log (a.nextWalk key callable cyclic s).2 result) :
    Passes d contractOf log s result := by
  have cancellation : (a.nextWalk key callable cyclic s).2.session.cancellation =
      s.session.cancellation := by
    cases key <;> rfl
  exact h.of_same cancellation nextWalk_diagnostics

/-- Callables are walked along the logs of their walks. -/
theorem walkCallables_passes {order : List (CallableKey × Bool)} {newer : List UnitWalk}
    (records : a.Records contractOf walks s)
    (agrees : (a.walkCallables order s).1.session.cache.Agrees contractOf)
    (hnewer : a.walksFrom contractOf order walks = walks ++ newer) :
    Passes a.declarations contractOf (newer.flatMap (UnitWalk.log a.scope)) s
      (a.walkCallables order s) := by
  induction order generalizing s walks newer with
  | nil =>
    obtain rfl : newer = [] := List.self_eq_append_right.1 hnewer
    exact passes_nil
  | cons next rest ih =>
    obtain ⟨key, cyclic⟩ := next
    cases hget : a.scope.callables.get? key with
    | none =>
      rw [walksFrom, hget] at hnewer
      rw [walkCallables, hget] at agrees ⊢
      exact ih records agrees hnewer
    | some callable =>
      rw [walksFrom, hget] at hnewer
      rw [walkCallables_cons hget] at agrees ⊢
      have asking : a.Records contractOf walks (a.nextWalk key callable cyclic s).2 :=
        records.nextWalk
      have same : (a.nextWalk key callable cyclic s).2.session.cache.Agrees contractOf →
        (a.nextWalk key callable cyclic s).1 = a.callableWalk contractOf walks callable cyclic :=
          nextWalk_eq hget records.invoked
      refine passes_of_nextWalk (?_ : Passes _ _ _ (a.nextWalk key callable cyclic s).2 _)
      generalize a.nextWalk key callable cyclic s = asked at agrees asking same ⊢
      obtain ⟨u, t⟩ := asked
      have walked : (a.walkUnit u.unit u.code u.entry t).1.session.cache.Agrees contractOf :=
        andThen_agrees agrees fun _ => walkCallables_agrees
      obtain rfl : u = a.callableWalk contractOf walks callable cyclic :=
        same (BodyState.follow_agrees walked)
      obtain ⟨later, hlater⟩ := a.walks_prefix_walksFrom contractOf rest
        (walks ++ [a.callableWalk contractOf walks callable cyclic])
      obtain rfl : a.callableWalk contractOf walks callable cyclic :: later = newer := by
        change a.walksFrom contractOf rest _ = _ at hnewer
        rw [← hlater, List.append_assoc] at hnewer
        exact List.append_cancel_left hnewer
      rw [List.flatMap_cons]
      exact asking.passes walked agrees fun t records agrees => ih records agrees hlater.symm

/-- A body and callables of it are walked along the logs of their walks. -/
theorem runUpTo_passes {body : Operation} {order : List (CallableKey × Bool)}
    (start : s.invoked = [] ∧ s.diagnostics = [])
    (agrees : (a.runUpTo body order s).1.session.cache.Agrees contractOf) :
    s.session.cache.Agrees contractOf ∧ Passes a.declarations contractOf
      ((a.walksFrom contractOf order [a.bodyWalk body]).flatMap (UnitWalk.log a.scope)) s
        (a.runUpTo body order s) := by
  have walked : (a.walkUnit (a.bodyWalk body).unit (a.bodyWalk body).code
    (a.bodyWalk body).entry s).1.session.cache.Agrees
      contractOf := andThen_agrees agrees fun _ => walkCallables_agrees
  obtain ⟨later, hlater⟩ := a.walks_prefix_walksFrom contractOf order [a.bodyWalk body]
  rw [← hlater, List.singleton_append, List.flatMap_cons]
  exact ⟨BodyState.follow_agrees walked, (records_nothing start).passes walked agrees
    fun t records agrees => walkCallables_passes records agrees hlater.symm⟩

end BodyAnalysis

namespace MethodBody

variable {body : MethodBody} {reader : GuardReader} {contractOf : SymbolId → Contract}
    {session : Session}

def log (body : MethodBody) (reader : GuardReader) (contractOf : SymbolId → Contract) :
    List LogEntry :=
  (body.walks reader contractOf).flatMap (UnitWalk.log (.ofBody reader body.body))

theorem log_uses : (body.log reader contractOf).filterMap LogEntry.use? =
    body.checkedUses reader contractOf := by
  rw [log, List.filterMap_flatMap]
  exact List.flatMap_congr fun u _ => u.log_uses _

/-- An analysis goes through the log of the body until it is cancelled. -/
theorem run_passes (agrees : (analyzeBody reader body session).2.cache.Agrees contractOf) :
    Passes reader.declarations contractOf (body.log reader contractOf) { session }
      (body.runUpTo reader session (CallableIndex.ofBody body.body).walkOrder) := by
  rw [analyzeBody_snd] at agrees
  obtain ⟨start, passes⟩ := BodyAnalysis.runUpTo_passes ⟨rfl, rfl⟩ agrees
  have owner : (ownerContract reader body session).1 = contractOf body.owner :=
    (BodyState.contract_agrees start).2
  rw [owner] at passes
  rw [runUpTo, owner]
  exact passes.of_same rfl rfl

end MethodBody

end PlatformGuard
