import PlatformGuard.Proofs.Cancelled
import PlatformGuard.Proofs.ContractRecursion
import PlatformGuard.Proofs.Entry

/-!
# All or nothing

A body is cancelled, or its findings are those of an analysis on its own: neither what
was remembered before, nor what a cancelled analysis left behind, makes a difference
(`analyzeBody_outcome`). Which of the two it is depends on the number of polls in the
log of the body alone.

A cancelled analysis stops anywhere, but it only ever asks for contracts; where no members implement
each other in a circle, these are the contracts of the recursion, whoever asks.
-/

namespace PlatformGuard

/-! ## Polls that pass -/

namespace Cancellation

/-- Whether a number of polls all pass. -/
def outlasts : Cancellation → Nat → Bool
  | never, _ => true
  | after left, polls => decide (polls ≤ left)

/-- What is left of the time after a number of polls. A cancellation that was found stays. -/
def spend : Cancellation → Nat → Cancellation
  | never, _ => never
  | after left, polls => after (left - polls)

variable {c : Cancellation}

theorem outlasts_succ (c : Cancellation) (n : Nat) :
    c.outlasts (n + 1) = match c.poll with
      | .ok left => left.outlasts n
      | .error _ => false := by
  cases c with
  | never => rfl
  | after left => cases left <;> simp [outlasts, poll]

theorem spend_succ {left : Cancellation} (h : c.poll = .ok left) (n : Nat) :
    c.spend (n + 1) = left.spend n := by
  match c, h with
  | never, rfl => rfl
  | after (m + 1), rfl =>
    rw [spend, spend]
    congr 1
    omega

theorem ext_outlasts {c' : Cancellation} (h : ∀ n, c.outlasts n = c'.outlasts n) : c = c' := by
  cases c with
  | never =>
    cases c' with
    | never => rfl
    | after left => exact absurd (h (left + 1)) (by simp [outlasts])
  | after left =>
    cases c' with
    | never => exact absurd (h (left + 1)) (by simp [outlasts])
    | after left' =>
      have below := h left
      have above := h left'
      simp only [outlasts, decide_eq_decide] at below above
      congr 1
      omega

end Cancellation

/-! ## Polls in a log -/

instance : Inhabited CheckedUse := ⟨⟨⟨.body, "", .empty⟩, ⟨⟨0⟩, {}⟩, .none⟩⟩

def LogEntry.isPoll : LogEntry → Bool
  | .poll => true
  | .check _ => false

def pollsIn (log : List LogEntry) : Nat := log.countP LogEntry.isPoll

namespace Cancellation

variable {c : Cancellation}

theorem checked_append (c : Cancellation) (log later : List LogEntry) :
    c.checked (log ++ later) =
      c.checked log ++
        if c.outlasts (pollsIn log) then (c.spend (pollsIn log)).checked later else [] := by
  induction log generalizing c with
  | nil => cases c <;> simp [checked, pollsIn, outlasts, spend]
  | cons entry rest ih =>
    cases entry with
    | check use => exact congrArg (use :: ·) (ih c)
    | poll =>
      have count : pollsIn (.poll :: rest) = pollsIn rest + 1 := List.countP_cons_of_pos rfl
      rw [List.cons_append, checked, checked, count, outlasts_succ]
      cases hpoll : c.poll with
      | error e => rfl
      | ok left =>
        rw [spend_succ hpoll]
        exact ih left

/-- A use that stands after some polls tells whether they pass. -/
theorem checked_polls (c : Cancellation) (use : CheckedUse) (n : Nat) :
    c.checked (List.replicate n .poll ++ [.check use]) = if c.outlasts n then [use] else [] := by
  have count : pollsIn (List.replicate n .poll) = n := by
    rw [pollsIn, List.countP_replicate]
    rfl
  have silent : c.checked (List.replicate n .poll) = [] := by
    have noUse : (List.replicate n LogEntry.poll).filterMap LogEntry.use? = [] := by
      rw [List.filterMap_replicate]
      rfl
    exact List.eq_nil_of_subset_nil (noUse ▸ c.checked_subset _)
  rw [checked_append, count, silent, List.nil_append]
  rfl

theorem ext_checked {c' : Cancellation} (h : ∀ log, c.checked log = c'.checked log) : c = c' := by
  refine ext_outlasts fun n => ?_
  have same := h (List.replicate n .poll ++ [.check default])
  rw [checked_polls, checked_polls] at same
  cases hc : c.outlasts n <;> cases hc' : c'.outlasts n <;> simp_all

end Cancellation

/-- A run that was given up was cancelled, and stays so. -/
def Stopped (result : BodyState × Except AnalysisError Unit) : Prop :=
  ∀ e, result.2 = .error e → e = .cancelled ∧ result.1.session.cancellation = .after 0

namespace Passes

variable {d : Declarations} {contractOf : SymbolId → Contract} {log : List LogEntry} {s : BodyState}
  {result : BodyState × Except AnalysisError Unit}

/-- A run comes to the end of its log when all polls in it pass. -/
theorem reached_eq (h : Passes d contractOf log s result) :
    result.2.isOk = s.session.cancellation.outlasts (pollsIn log) := by
  have next := h.next [.check default]
  rw [Cancellation.checked_append, List.append_cancel_left_eq] at next
  cases hresult : result.2.isOk <;>
    cases hpasses : s.session.cancellation.outlasts (pollsIn log) <;>
    simp_all [Cancellation.checked]

theorem cancellation_eq (h : Passes d contractOf log s result) (stopped : Stopped result) :
    result.1.session.cancellation = s.session.cancellation.spend (pollsIn log) := by
  have reached := h.reached_eq
  cases hresult : result.2 with
  | ok =>
    rw [hresult] at reached
    refine Cancellation.ext_checked fun later => ?_
    have next := h.next later
    rw [Cancellation.checked_append, List.append_cancel_left_eq, hresult, ← reached] at next
    exact next.symm
  | error e =>
    rw [hresult] at reached
    rw [(stopped e hresult).2]
    cases hcancellation : s.session.cancellation with
    | never =>
      rw [hcancellation] at reached
      cases reached
    | after left =>
      rw [hcancellation] at reached
      have short := of_decide_eq_false reached.symm
      rw [Cancellation.spend, Nat.sub_eq_zero_of_le (by omega)]

end Passes

/-! ## An analysis that is given up -/

theorem Cancellation.eq_of_poll_eq_error {c : Cancellation} {e : AnalysisError}
    (h : c.poll = .error e) : e = .cancelled ∧ c = .after 0 := by
  match c, h with
  | .after 0, rfl => exact ⟨rfl, rfl⟩

theorem stopped_ok (s : BodyState) : Stopped (s, .ok ()) := fun _ h => nomatch h

namespace BodyState

variable {d : Declarations} {unit : WalkUnit} {s : BodyState}

theorem follow_stopped (events : List WalkEvent) : Stopped (follow d unit events s) := by
  induction events generalizing s with
  | nil => exact stopped_ok s
  | cons e rest ih =>
    cases e with
    | poll =>
      rw [follow]
      cases hpoll : s.session.cancellation.poll with
      | error e =>
        rintro _ ⟨⟩
        exact Cancellation.eq_of_poll_eq_error hpoll
      | ok left => exact ih
    | use target span w => exact ih
    | invoke callee w => exact ih

/-- What each question keeps, an event keeps. -/
theorem step_keeps {p : ContractCache → Prop}
    (asks : ∀ cache id, p cache → p (cache.contract d id).2) (e : WalkEvent)
    (h : p s.session.cache) : p (s.step d unit e).session.cache := by
  cases e with
  | poll => exact h
  | use target span w =>
    rw [step, recordUse_eq]
    exact asks _ _ h
  | invoke callee w => exact h

theorem follow_keeps {p : ContractCache → Prop}
    (asks : ∀ cache id, p cache → p (cache.contract d id).2) (events : List WalkEvent)
    (h : p s.session.cache) : p (follow d unit events s).1.session.cache := by
  induction events generalizing s with
  | nil => exact h
  | cons e rest ih =>
    cases e with
    | poll =>
      rw [follow]
      cases s.session.cancellation.poll with
      | error e => exact h
      | ok left => exact ih h
    | use target span w => exact ih (step_keeps asks (.use target span w) h)
    | invoke callee w => exact ih (step_keeps asks (.invoke callee w) h)

end BodyState

namespace BodyAnalysis

variable {a : BodyAnalysis} {s : BodyState}

theorem andThen_stopped {result : BodyState × Except AnalysisError Unit}
    {next : BodyState → BodyState × Except AnalysisError Unit} (first : Stopped result)
    (later : ∀ s, Stopped (next s)) : Stopped (andThen result next) := by
  obtain ⟨s, reached⟩ := result
  cases reached with
  | ok => exact later s
  | error e => exact first

theorem walkCallables_stopped (order : List (CallableKey × Bool)) :
    Stopped (a.walkCallables order s) := by
  induction order generalizing s with
  | nil => exact stopped_ok s
  | cons next rest ih =>
    obtain ⟨key, cyclic⟩ := next
    cases hget : a.scope.callables.get? key with
    | none =>
      rw [walkCallables, hget]
      exact ih
    | some callable =>
      rw [walkCallables_cons hget]
      exact andThen_stopped (BodyState.follow_stopped _) fun _ => ih

theorem runUpTo_stopped (body : Operation) (order : List (CallableKey × Bool)) :
    Stopped (a.runUpTo body order s) :=
  andThen_stopped (BodyState.follow_stopped _) fun _ => walkCallables_stopped order

theorem andThen_keeps {p : ContractCache → Prop} {result : BodyState × Except AnalysisError Unit}
    {next : BodyState → BodyState × Except AnalysisError Unit}
    (later : ∀ s : BodyState, p s.session.cache → p (next s).1.session.cache)
    (h : p result.1.session.cache) : p (andThen result next).1.session.cache := by
  obtain ⟨s, reached⟩ := result
  cases reached with
  | ok => exact later s h
  | error e => exact h

section

variable {p : ContractCache → Prop}
    (asks : ∀ cache id, p cache → p (cache.contract a.declarations id).2)

include asks

theorem nextWalk_keeps (key : CallableKey) (callable : CallableDef) (cyclic : Bool)
    (h : p s.session.cache) :
    p (a.nextWalk key callable cyclic s).2.session.cache := by
  cases key with
  | function symbol => exact asks _ _ h
  | body | lambda | anonymous => exact h

theorem walkCallables_keeps (order : List (CallableKey × Bool)) (h : p s.session.cache) :
    p (a.walkCallables order s).1.session.cache := by
  induction order generalizing s with
  | nil => exact h
  | cons next rest ih =>
    obtain ⟨key, cyclic⟩ := next
    cases hget : a.scope.callables.get? key with
    | none =>
      rw [walkCallables, hget]
      exact ih h
    | some callable =>
      rw [walkCallables_cons hget]
      exact andThen_keeps (fun _ => ih)
        (BodyState.follow_keeps asks _ (nextWalk_keeps asks key callable cyclic h))

theorem runUpTo_keeps (body : Operation) (order : List (CallableKey × Bool))
    (h : p s.session.cache) :
    p (a.runUpTo body order s).1.session.cache :=
  andThen_keeps (fun _ => walkCallables_keeps asks order) (BodyState.follow_keeps asks _ h)

end

end BodyAnalysis

/-! ## The outcome of a body -/

theorem ContractCache.Faithful.contract {d : Declarations} {contractOf : SymbolId → Contract}
    {cache : ContractCache} (acyclic : d.ImplementsAcyclic) (recursion : d.IsContractOf contractOf)
    (h : Faithful d contractOf cache) (id : SymbolId) :
    (cache.contract d id).1 = contractOf id ∧ Faithful d contractOf (cache.contract d id).2 :=
  resolve_faithful acyclic recursion [] id cache (fun _ hv => absurd hv List.not_mem_nil) h

theorem ContractCache.asks_faithful {d : Declarations} {contractOf : SymbolId → Contract}
    (acyclic : d.ImplementsAcyclic) (recursion : d.IsContractOf contractOf) (cache : ContractCache)
    (id : SymbolId) (h : Faithful d contractOf cache) :
    Faithful d contractOf (cache.contract d id).2 :=
  (h.contract acyclic recursion id).2

def Walk.Polls (k : Walk) : Prop := ∀ w, .poll ∈ (k.visit w).events

theorem Operation.walk_polls (scope : WalkScope) (op : Operation) : (op.walk scope).Polls := by
  refine walk_cases (fun _ _ w => ?_) (fun _ w => ?_) (fun _ w => ?_) (fun _ w => ?_) op <;>
    exact List.mem_cons_self

namespace MethodBody

/-- A body that defines no callable has one walk. -/
theorem walks_of_definitions_eq_nil {body : MethodBody} {reader : GuardReader}
    {contractOf : SymbolId → Contract} (h : body.body.definitions = []) :
    body.walks reader contractOf = [(body.analysis reader contractOf).bodyWalk body.body] := by
  have order : (body.analysis reader contractOf).scope.callables.walkOrder = [] := by
    refine List.eq_nil_iff_forall_not_mem.2 fun next hnext => ?_
    have defined := ((CallableIndex.walkOrder_invokersFirst body.body).mem_iff _).1
      (List.mem_map_of_mem hnext)
    rw [h] at defined
    cases defined
  rw [walks, BodyAnalysis.walks, order, BodyAnalysis.walksFrom]

/-- The number of polls on the walks of a body. -/
def polls (body : MethodBody) (reader : GuardReader) (contractOf : SymbolId → Contract) : Nat :=
  pollsIn (body.log reader contractOf)

theorem polls_pos (body : MethodBody) (reader : GuardReader) (contractOf : SymbolId → Contract) :
    0 < body.polls reader contractOf := by
  let first := (body.analysis reader contractOf).bodyWalk body.body
  have polled : WalkEvent.poll ∈ first.events (.ofBody reader body.body) :=
    first.code.walk_polls _ first.entry
  have logged : LogEntry.poll ∈ first.log (.ofBody reader body.body) :=
    List.mem_filterMap.2 ⟨_, polled, rfl⟩
  exact List.countP_pos_iff.2 ⟨_, List.mem_flatMap.2 ⟨first, bodyWalk_mem_walks, logged⟩, rfl⟩

def findings (body : MethodBody) (reader : GuardReader) (contractOf : SymbolId → Contract) :
    List Diagnostic :=
  (body.checkedUses reader contractOf).flatMap (CheckedUse.findings reader.declarations contractOf)

end MethodBody

section

variable {reader : GuardReader} {contractOf : SymbolId → Contract} {session : Session}

/-- An analysis, cancelled or not, remembers the contracts of the recursion only. -/
theorem analyzeBody_faithful (acyclic : reader.declarations.ImplementsAcyclic)
    (recursion : reader.declarations.IsContractOf contractOf) (body : MethodBody)
    (h : session.cache.Faithful reader.declarations contractOf) :
    (analyzeBody reader body session).2.cache.Faithful reader.declarations contractOf := by
  have asks := ContractCache.asks_faithful acyclic recursion
  rw [analyzeBody_snd]
  exact BodyAnalysis.runUpTo_keeps asks _ _ (asks _ _ h)

/-- The contracts after an analysis are those that the declarations give. -/
theorem analyzeBody_contractOf (acyclic : reader.declarations.ImplementsAcyclic)
    (recursion : reader.declarations.IsContractOf contractOf) (body : MethodBody)
    (h : session.cache.Faithful reader.declarations contractOf) :
    (analyzeBody reader body session).2.cache.contractOf reader.declarations = contractOf :=
  funext fun id => ((analyzeBody_faithful acyclic recursion body h).contract acyclic recursion id).1

/-- A body is cancelled, or has all its findings. -/
theorem analyzeBody_outcome (acyclic : reader.declarations.ImplementsAcyclic)
    (recursion : reader.declarations.IsContractOf contractOf) (body : MethodBody)
    (h : session.cache.Faithful reader.declarations contractOf) :
    (analyzeBody reader body session).1 =
        (if session.cancellation.outlasts (body.polls reader contractOf) then
          .ok (body.findings reader contractOf)
        else .error .cancelled) ∧
      (analyzeBody reader body session).2.cancellation =
        session.cancellation.spend (body.polls reader contractOf) := by
  have passes := MethodBody.run_passes (analyzeBody_faithful acyclic recursion body h).contracts
  have stopped : Stopped (body.runUpTo reader session (CallableIndex.ofBody body.body).walkOrder) :=
    BodyAnalysis.runUpTo_stopped _ _
  have left := passes.cancellation_eq stopped
  have reached : _ = session.cancellation.outlasts (body.polls reader contractOf) :=
    passes.reached_eq
  rw [analyzeBody_fst, analyzeBody_snd]
  refine ⟨?_, left⟩
  clear left
  generalize body.runUpTo reader session (CallableIndex.ofBody body.body).walkOrder = ran
    at passes stopped reached ⊢
  show ran.2.map (fun _ => ran.1.diagnostics) = _
  cases hran : ran.2 with
  | error e =>
    rw [hran] at reached
    rw [← reached, (stopped e hran).1]
    rfl
  | ok =>
    rw [hran] at reached
    rw [← reached, passes.found, passes.complete hran, MethodBody.log_uses, List.nil_append]
    rfl

end

end PlatformGuard
