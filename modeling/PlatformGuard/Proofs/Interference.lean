import PlatformGuard.Analysis.Compilation
import PlatformGuard.Proofs.BodyOutcome
import PlatformGuard.Proofs.ContractsBuilt

/-!
# Bodies that are analysed in turns

Analyses take turns with a cache that they share, and each of them may find in it what the others
have built. This makes no difference to what it finds: a process ensures its result whatever is
added between its steps (`Process.Ensures`), so that a pool of them does in any order of turns
(`Pool.Ensures.run`). For an analysis on its own this is `Process.run_body`, for several of them
`analyzeBodies_outcomes`.
-/

namespace PlatformGuard

open Relation

/-! ## An analysis on its own -/

/-- What some work on the cache of a session gives, and the session after it. -/
def Session.withCache {α : Type} (s : Session) (worked : α × ContractCache) : α × Session :=
  (worked.1, { s with cache := worked.2 })

namespace Process

variable {α β : Type} {d : Declarations} {id : SymbolId} {s : Session}

@[simp] theorem run_pure (a : α) (s : Session) : (pure a : Process α).run s = (a, s) := rfl

@[simp] theorem run_bind (p : Process α) (f : α → Process β) (s : Session) :
    (p >>= f).run s = (f (p.run s).1).run (p.run s).2 := by
  induction p generalizing s with
  | done a => rfl
  | ask access next ih => exact ih _ _

@[simp] theorem run_attributes? : (attributes? id).run s = (s.cache.attributes[id]?, s) := rfl

@[simp] theorem run_contract? : (contract? id).run s = (s.cache.get? id, s) := rfl

theorem run_addAttributes (h : s.cache.attributes[id]? = none) (declared : Declared) :
    (addAttributes id declared).run s =
      s.withCache (declared, s.cache.rememberAttributes id declared) := by
  simp only [addAttributes, run, Session.serve, h]
  rfl

theorem run_addContract (h : s.cache.get? id = none) (contract : Contract) :
    (addContract id contract).run s =
      s.withCache (contract, s.cache.remember id contract) := by
  simp only [addContract, run, Session.serve, h]
  rfl

theorem run_declared (id : SymbolId) (s : Session) :
    (declared d id).run s = s.withCache (s.cache.declared d id) := by
  rw [declared, run_bind, run_attributes?, ContractCache.declared]
  cases known : s.cache.attributes[id]? with
  | some declared => rfl
  | none => exact run_addAttributes known _

theorem run_mergeLayers (c : Contract) (scopes : List SymbolId) (s : Session) :
    (mergeLayers d c scopes).run s = s.withCache (s.cache.mergeLayers d c scopes) := by
  induction scopes generalizing c s with
  | nil => rfl
  | cons scope rest ih =>
    rw [mergeLayers, run_bind, run_declared, ih]
    rfl

mutual
theorem run_resolve (visiting : List SymbolId) (id : SymbolId) (s : Session) :
    (resolve d visiting id).run s = s.withCache (s.cache.resolve d visiting id) := by
  rw [resolve, run_bind, run_contract?]
  cases known : s.cache.get? id with
  | some contract =>
    rw [ContractCache.resolve_of_remembered known]
    rfl
  | none =>
    dsimp only
    by_cases hid : id ∈ visiting
    · rw [dif_pos hid, ContractCache.resolve_of_visiting known hid]
      rfl
    · rw [dif_neg hid]
      split
      case h_1 hs => rw [run_addContract known, ContractCache.resolve_of_unknown known hid hs]
      case h_2 symbol hs =>
        have unbuilt := ContractCache.get?_assemble_self d visiting symbol known
        rw [run_bind, run_bind, run_bind, run_mergeLayers, run_mergeResolved, run_mergeLayers,
          ContractCache.resolve_of_symbol known hid hs]
        exact run_addContract unbuilt _
termination_by (d.table.unvisited visiting, 0)
decreasing_by exact Prod.Lex.left _ _ (SymbolTable.unvisited_cons_lt ‹_› ‹_›)

theorem run_mergeResolved (visiting ids : List SymbolId) (outer : Contract) (s : Session) :
    (mergeResolved d visiting ids outer).run s =
      s.withCache (s.cache.mergeResolved d visiting ids outer) := by
  match ids with
  | [] =>
    rw [mergeResolved, ContractCache.mergeResolved]
    rfl
  | id :: rest =>
    rw [mergeResolved, ContractCache.mergeResolved, run_bind, run_resolve, run_mergeResolved]
    rfl
termination_by (d.table.unvisited visiting, ids.length + 1)
end

theorem run_contract (id : SymbolId) (s : Session) :
    (contract d id).run s = s.withCache (s.cache.contract d id) :=
  run_resolve [] id s

/-- What a walk leaves, as a process gives it. -/
def walked (result : BodyState × Except AnalysisError Unit) :
    Except AnalysisError BodyRecord × Session :=
  (result.2.map fun _ => result.1.toBodyRecord, result.1.session)

/-- A walk that goes on is a process that goes on. -/
theorem run_andThen {p : Process (Except AnalysisError BodyRecord)}
    {f : BodyRecord → Process (Except AnalysisError BodyRecord)}
    {result : BodyState × Except AnalysisError Unit}
    {next : BodyState → BodyState × Except AnalysisError Unit} (first : p.run s = walked result)
    (later : ∀ t : BodyState, (f t.toBodyRecord).run t.session = walked (next t)) :
    (p.andThen f).run s = walked (BodyAnalysis.andThen result next) := by
  obtain ⟨t, reached⟩ := result
  rw [andThen, run_bind, first]
  cases reached with
  | ok => exact later t
  | error e => rfl

theorem run_follow (unit : WalkUnit) (events : List WalkEvent) (t : BodyState) :
    (follow d unit events t.toBodyRecord).run t.session =
      walked (BodyState.follow d unit events t) := by
  induction events generalizing t with
  | nil => rfl
  | cons e rest ih =>
    cases e with
    | poll =>
      rw [follow, BodyState.follow, andThen, run_bind]
      simp only [poll, run, Session.serve]
      cases t.session.cancellation.poll with
      | error e => rfl
      | ok left => exact ih { t with session.cancellation := left }
    | use target span w =>
      rw [follow, BodyState.follow, run_bind, run_contract]
      exact ih (t.recordUse d unit target span w)
    | invoke callee w => exact ih (t.recordInvocation unit.key callee w)

/-- To ask for a contract leaves the record of a body as it is. -/
theorem run_callableContract (a : BodyAnalysis) (key : CallableKey) (t : BodyState) :
    (callableContract a key).run t.session =
      ((a.callableContract key t).1, (a.callableContract key t).2.session) ∧
    (a.callableContract key t).2.toBodyRecord = t.toBodyRecord := by
  cases key with
  | function symbol => exact ⟨run_contract symbol t.session, rfl⟩
  | body | lambda | anonymous => exact ⟨rfl, rfl⟩

theorem run_walkCallables (a : BodyAnalysis) (order : List (CallableKey × Bool)) (t : BodyState) :
    (walkCallables a order t.toBodyRecord).run t.session = walked (a.walkCallables order t) := by
  induction order generalizing t with
  | nil => rfl
  | cons next rest ih =>
    obtain ⟨key, cyclic⟩ := next
    cases hget : a.scope.callables.get? key with
    | none =>
      rw [walkCallables, BodyAnalysis.walkCallables, hget]
      exact ih t
    | some callable =>
      obtain ⟨asked, kept⟩ := run_callableContract a key t
      rw [walkCallables, hget, BodyAnalysis.walkCallables_cons hget]
      dsimp only
      rw [run_bind, asked, ← kept]
      exact run_andThen (run_follow _ _ _) ih

/-- On its own, the process of a body does what the analysis of the body does. -/
theorem run_body (reader : GuardReader) (body : MethodBody) (s : Session) :
    (Process.body reader body).run s = analyzeBody reader body s := by
  let a := body.analysis reader fun _ => (ownerContract reader body s).1
  let t := (ownerContract reader body s).2
  have ran : ((walkUnit a (a.bodyWalk body.body).unit body.body (a.bodyWalk body.body).entry
      t.toBodyRecord).andThen (walkCallables a (CallableIndex.ofBody body.body).walkOrder)).run
        t.session = walked (body.runUpTo reader s (CallableIndex.ofBody body.body).walkOrder) :=
    run_andThen (run_follow _ _ t) (run_walkCallables a _)
  rw [Process.body, run_bind, run_contract, run_bind, analyzeBody_eq]
  refine (congrArg (fun out => (out.1.map (·.diagnostics), out.2)) ran).trans ?_
  generalize body.runUpTo reader s (CallableIndex.ofBody body.body).walkOrder = result
  obtain ⟨t, reached⟩ := result
  cases reached <;> rfl

/-! ## What a process ensures -/

/-- Whatever others do between its steps, as long as they keep `inv` and take away nothing that is
built, a process keeps to this too, and ends as `post` says: of its result, and of what is built
then. -/
def Ensures (inv : Session → Prop) (post : α → Set SymbolId → Prop) :
    Process α → (built : Set SymbolId) → Prop
  | done a, built => ∀ later, built ⊆ later → post a later
  | ask access next, built => ∀ s, inv s → built ⊆ s.cache.built →
    inv (s.serve access).2 ∧ s.cache.built ⊆ (s.serve access).2.cache.built ∧
      (next (s.serve access).1).Ensures inv post (s.serve access).2.cache.built

section

variable {inv : Session → Prop} {post : α → Set SymbolId → Prop} {p : Process α}
  {built : Set SymbolId}

theorem Ensures.mono {later : Set SymbolId} (h : p.Ensures inv post built) (sub : built ⊆ later) :
    p.Ensures inv post later := by
  cases p with
  | done a => exact fun last hlast => h last (sub.trans hlast)
  | ask access next => exact fun s hs hlater => h s hs (sub.trans hlater)

theorem ensures_pure {a : α} (h : ∀ later, built ⊆ later → post a later) :
    (pure a : Process α).Ensures inv post built := h

/-- What was built before is built at the end. -/
theorem Ensures.bind {f : α → Process β} {post' : β → Set SymbolId → Prop}
    (first : p.Ensures inv post built)
    (later : ∀ a later, built ⊆ later → post a later → (f a).Ensures inv post' later) :
    (p >>= f).Ensures inv post' built := by
  induction p generalizing built with
  | done a => exact later a built (subset_refl _) (first built (subset_refl _))
  | ask access next ih =>
    intro s hs sub
    obtain ⟨kept, grows, onward⟩ := first s hs sub
    exact ⟨kept, grows, ih _ onward fun a last hlast =>
      later a last ((sub.trans grows).trans hlast)⟩

theorem Ensures.weaken {post' : α → Set SymbolId → Prop} (h : p.Ensures inv post built)
    (imp : ∀ a later, built ⊆ later → post a later → post' a later) :
    p.Ensures inv post' built := by
  induction p generalizing built with
  | done a => exact fun later hlater => imp a later hlater (h later hlater)
  | ask access next ih =>
    intro s hs sub
    obtain ⟨kept, grows, onward⟩ := h s hs sub
    exact ⟨kept, grows, ih _ onward fun a last hlast => imp a last ((sub.trans grows).trans hlast)⟩

theorem Ensures.run (h : p.Ensures inv post built) (hs : inv s) (sub : built ⊆ s.cache.built) :
    inv (p.run s).2 ∧ s.cache.built ⊆ (p.run s).2.cache.built ∧
      ∀ later, (p.run s).2.cache.built ⊆ later → post (p.run s).1 later := by
  induction p generalizing built s with
  | done a => exact ⟨hs, subset_refl _, fun later hlater => h later (sub.trans hlater)⟩
  | ask access next ih =>
    obtain ⟨kept, grows, onward⟩ := h s hs sub
    obtain ⟨kept', grows', result⟩ := ih _ onward kept (subset_refl _)
    exact ⟨kept', grows.trans grows', result⟩

end

end Process

/-! ## Sessions -/

/-- What analyses keep of what they share: only what the declarations say is remembered,
contracts with all they need, and none outside of a limit. A cancellation that is not to
come does not come. -/
structure Session.Steady (d : Declarations) (contractOf : SymbolId → Contract)
    (limit : Set SymbolId) (start : Cancellation) (s : Session) : Prop where
  faithful : s.cache.Faithful d contractOf
  complete : d.Complete s.cache.built
  within : s.cache.built ⊆ limit
  endless : start = .never → s.cancellation = .never

namespace Session.Steady

variable {d : Declarations} {contractOf : SymbolId → Contract} {limit : Set SymbolId}
  {start : Cancellation} {s : Session}

theorem fresh (start : Cancellation) :
    Steady d contractOf limit start { cancellation := start } where
  faithful := ContractCache.faithful_empty
  complete := by
    show d.Complete (ContractCache.built .empty)
    rw [ContractCache.built_empty]
    exact Declarations.complete_empty
  within := by
    show ContractCache.built .empty ⊆ limit
    rw [ContractCache.built_empty]
    exact Set.empty_subset limit
  endless := id

theorem declared (h : s.Steady d contractOf limit start) (id : SymbolId) :
    Steady d contractOf limit start { s with cache := (s.cache.declared d id).2 } where
  faithful := (h.faithful.declared id).2
  complete := by
    rw [ContractCache.built_declared]
    exact h.complete
  within := by
    rw [ContractCache.built_declared]
    exact h.within
  endless := h.endless

theorem remember (h : s.Steady d contractOf limit start) {id : SymbolId}
    (needed : d.needs id ⊆ insert id s.cache.built) (hid : id ∈ limit) :
    Steady d contractOf limit start { s with cache := s.cache.remember id (contractOf id) } where
  faithful := h.faithful.remember id
  complete := by
    rw [ContractCache.built_remember]
    rintro i (rfl | hi)
    · exact needed
    · exact (h.complete i hi).trans (Set.subset_insert id _)
  within := by
    rw [ContractCache.built_remember]
    exact Set.insert_subset hid h.within
  endless := h.endless

theorem poll (h : s.Steady d contractOf limit start) {left : Cancellation}
    (hpoll : s.cancellation.poll = .ok left) :
    Steady d contractOf limit start { s with cancellation := left } where
  faithful := h.faithful
  complete := h.complete
  within := h.within
  endless never := by
    rw [h.endless never] at hpoll
    exact (Except.ok.inj hpoll).symm

theorem ne_never_of_poll (h : s.Steady d contractOf limit start) {e : AnalysisError}
    (hpoll : s.cancellation.poll = .error e) : start ≠ .never := by
  intro never
  rw [h.endless never] at hpoll
  cases hpoll

end Session.Steady

/-! ## What analyses ensure -/

namespace Process

variable {α β : Type} {d : Declarations} {contractOf : SymbolId → Contract} {limit : Set SymbolId}
  {start : Cancellation} {id : SymbolId} {built : Set SymbolId}

theorem poll_ensures : poll.Ensures (Session.Steady d contractOf limit start)
    (fun answer _ => answer = .ok () ∨ start ≠ .never ∧ answer = .error .cancelled) built := by
  intro s hs _
  show Session.Steady d contractOf limit start (s.serve .poll).2 ∧ _
  rw [Session.serve]
  cases hpoll : s.cancellation.poll with
  | ok left => exact ⟨hs.poll hpoll, subset_refl _, fun _ _ => .inl rfl⟩
  | error e =>
    obtain ⟨rfl, -⟩ := Cancellation.eq_of_poll_eq_error hpoll
    exact ⟨hs, subset_refl _, fun _ _ => .inr ⟨hs.ne_never_of_poll hpoll, rfl⟩⟩

theorem addAttributes_ensures : (addAttributes id (d.declared id)).Ensures
    (Session.Steady d contractOf limit start) (fun answer _ => answer = d.declared id) built := by
  intro s hs _
  have served : s.serve (.addAttributes id (d.declared id)) =
      s.withCache (s.cache.declared d id) := by
    rw [Session.serve, ContractCache.declared]
    cases s.cache.attributes[id]? <;> rfl
  rw [served]
  exact ⟨hs.declared id, ContractCache.built_declared.ge, fun _ _ => (hs.faithful.declared id).1⟩

theorem attributes?_ensures : (attributes? id).Ensures (Session.Steady d contractOf limit start)
    (fun answer _ => ∀ known ∈ answer, known = d.declared id) built :=
  fun _ hs _ => ⟨hs, subset_refl _, fun _ _ known hknown =>
    (hs.faithful.attributes id known hknown).symm⟩

theorem declared_ensures : (declared d id).Ensures (Session.Steady d contractOf limit start)
    (fun answer _ => answer = d.declared id) built := by
  rw [declared]
  refine attributes?_ensures.bind ?_
  rintro (_ | known) later - hknown
  · exact addAttributes_ensures
  · exact ensures_pure fun _ _ => hknown known rfl

theorem mergeLayers_ensures (c : Contract) (scopes : List SymbolId) :
    (mergeLayers d c scopes).Ensures (Session.Steady d contractOf limit start)
      (fun answer _ => answer = (scopes.map d.layer).foldl Contract.mergeChild c) built := by
  induction scopes generalizing c built with
  | nil => exact ensures_pure fun _ _ => rfl
  | cons scope rest ih =>
    rw [mergeLayers]
    refine declared_ensures.bind ?_
    rintro _ later - rfl
    exact ih _

theorem contract?_ensures : (contract? id).Ensures (Session.Steady d contractOf limit start)
    (fun answer later => ∀ c ∈ answer, c = contractOf id ∧ d.needs id ⊆ later) built := by
  intro s hs _
  refine ⟨hs, subset_refl _, fun later hlater c hc => ⟨(hs.faithful.contracts id c hc).symm, ?_⟩⟩
  have known : id ∈ s.cache.built := Option.isSome_iff_exists.2 ⟨c, hc⟩
  exact (hs.complete id known).trans hlater

theorem addContract_ensures (needed : d.needs id ⊆ insert id built) (hid : id ∈ limit) :
    (addContract id (contractOf id)).Ensures (Session.Steady d contractOf limit start)
      (fun answer later => answer = contractOf id ∧ d.needs id ⊆ later) built := by
  intro s hs sub
  show Session.Steady d contractOf limit start (s.serve (.addContract id (contractOf id))).2 ∧ _
  rw [Session.serve]
  cases known : s.cache.get? id with
  | some first =>
    have first_eq := hs.faithful.contracts id first known
    have asked : id ∈ s.cache.built := Option.isSome_iff_exists.2 ⟨first, known⟩
    exact ⟨hs, subset_refl _, fun later hlater =>
      ⟨first_eq.symm, (hs.complete id asked).trans hlater⟩⟩
  | none =>
    have needed' : d.needs id ⊆ insert id s.cache.built :=
      needed.trans (Set.insert_subset_insert sub)
    have added : (s.cache.remember id (contractOf id)).built = insert id s.cache.built :=
      ContractCache.built_remember id _
    refine ⟨hs.remember needed' hid, ?_, fun later hlater => ⟨rfl, ?_⟩⟩
    · exact added.symm ▸ Set.subset_insert id _
    · exact needed'.trans (added.ge.trans hlater)

mutual
/-- What others add between the steps by which a contract is built changes nothing about it. -/
theorem resolve_ensures (acyclic : d.ImplementsAcyclic) (recursion : d.IsContractOf contractOf)
    (visiting : List SymbolId) (id : SymbolId) (built : Set SymbolId)
    (below : ∀ v ∈ visiting, TransGen d.Implements id v) (within : d.needs id ⊆ limit) :
    (resolve d visiting id).Ensures (Session.Steady d contractOf limit start)
      (fun answer later => answer = contractOf id ∧ d.needs id ⊆ later) built := by
  have fresh : id ∉ visiting := fun hmem => acyclic id (below id hmem)
  have hid : id ∈ limit := within (d.self_mem_needs id)
  rw [resolve]
  refine contract?_ensures.bind ?_
  rintro (_ | known) later - hknown
  · dsimp only
    rw [dif_neg fresh]
    split
    case h_1 hunknown =>
      rw [← recursion.eq_empty hunknown]
      exact addContract_ensures (by simp [Declarations.needs_of_unknown hunknown]) hid
    case h_2 symbol hs =>
      have below' := Declarations.below_of_mem_implements hs below
      have needs := Declarations.needs_of_known hs
      refine (mergeLayers_ensures _ _).bind ?_
      rintro _ later₁ - rfl
      refine (mergeResolved_ensures acyclic recursion (id :: visiting) _ _ later₁ below' ?_).bind ?_
      · intro i hi member hmember
        exact within (needs ▸ .inr ⟨i, hi, hmember⟩)
      · rintro _ later₂ - ⟨rfl, members⟩
        refine (mergeLayers_ensures _ _).bind ?_
        rintro _ later₃ grows rfl
        rw [← recursion.eq_merge hs]
        refine addContract_ensures ?_ hid
        rw [needs]
        refine Set.insert_subset_insert ?_
        rintro member ⟨i, hi, hmember⟩
        exact grows (members i hi hmember)
  · exact ensures_pure fun last hlast => ⟨(hknown known rfl).1, (hknown known rfl).2.trans hlast⟩
termination_by (d.table.unvisited visiting, 0)
decreasing_by exact Prod.Lex.left _ _ (SymbolTable.unvisited_cons_lt ‹_› ‹_›)

theorem mergeResolved_ensures (acyclic : d.ImplementsAcyclic)
    (recursion : d.IsContractOf contractOf) (visiting ids : List SymbolId) (outer : Contract)
    (built : Set SymbolId) (below : ∀ id ∈ ids, ∀ v ∈ visiting, TransGen d.Implements id v)
    (within : ∀ id ∈ ids, d.needs id ⊆ limit) :
    (mergeResolved d visiting ids outer).Ensures (Session.Steady d contractOf limit start)
      (fun answer later => answer = (ids.map contractOf).foldl Contract.mergeChild outer ∧
        ∀ id ∈ ids, d.needs id ⊆ later) built := by
  match ids with
  | [] =>
    rw [mergeResolved]
    exact ensures_pure fun _ _ => ⟨rfl, fun _ h => absurd h List.not_mem_nil⟩
  | id :: rest =>
    rw [mergeResolved]
    obtain ⟨belowId, belowRest⟩ := List.forall_mem_cons.1 below
    obtain ⟨withinId, withinRest⟩ := List.forall_mem_cons.1 within
    refine (resolve_ensures acyclic recursion visiting id built belowId withinId).bind ?_
    rintro _ later - ⟨rfl, needed⟩
    refine (mergeResolved_ensures acyclic recursion visiting rest _ later belowRest
      withinRest).weaken ?_
    rintro answer last grows ⟨hanswer, needs⟩
    exact ⟨hanswer, List.forall_mem_cons.2 ⟨needed.trans grows, needs⟩⟩
termination_by (d.table.unvisited visiting, ids.length + 1)
end

theorem contract_ensures (acyclic : d.ImplementsAcyclic) (recursion : d.IsContractOf contractOf)
    (within : d.needs id ⊆ limit) :
    (contract d id).Ensures (Session.Steady d contractOf limit start)
      (fun answer later => answer = contractOf id ∧ d.needs id ⊆ later) built :=
  resolve_ensures acyclic recursion [] id built (fun _ hv => absurd hv List.not_mem_nil) within

/-- A process has one result, whatever others do, unless it is cancelled; and when it has this, all
that the contracts of `ids` need is built. -/
def Settles (d : Declarations) (contractOf : SymbolId → Contract) (limit : Set SymbolId)
    (start : Cancellation) (ids : List SymbolId) (result : α)
    (p : Process (Except AnalysisError α)) : Prop :=
  ∀ built, p.Ensures (Session.Steady d contractOf limit start)
    (fun out later => out = .ok result ∧ (∀ id ∈ ids, d.needs id ⊆ later) ∨
      start ≠ .never ∧ out = .error .cancelled) built

section

variable {ids ids' : List SymbolId} {a : α} {b : β}

theorem settles_pure (a : α) : Settles d contractOf limit start [] a (pure (.ok a)) :=
  fun _ => ensures_pure fun _ _ => .inl ⟨rfl, fun _ h => absurd h List.not_mem_nil⟩

theorem Settles.andThen {p : Process (Except AnalysisError α)}
    {f : α → Process (Except AnalysisError β)} (first : Settles d contractOf limit start ids a p)
    (next : Settles d contractOf limit start ids' b (f a)) :
    Settles d contractOf limit start (ids ++ ids') b (p.andThen f) := by
  intro built
  rw [Process.andThen]
  refine (first built).bind ?_
  rintro _ later - (⟨rfl, needed⟩ | ⟨stops, rfl⟩)
  · refine (next later).weaken ?_
    rintro _ last grows (⟨rfl, needed'⟩ | stopped)
    · exact .inl ⟨rfl, List.forall_mem_append.2 ⟨fun i hi => (needed i hi).trans grows, needed'⟩⟩
    · exact .inr stopped
  · exact ensures_pure fun _ _ => .inr ⟨stops, rfl⟩

theorem settles_poll : Settles d contractOf limit start [] () poll := by
  refine fun _ => poll_ensures.weaken ?_
  rintro _ later - (rfl | stopped)
  · exact .inl ⟨rfl, fun _ h => absurd h List.not_mem_nil⟩
  · exact .inr stopped

end

section

variable (acyclic : d.ImplementsAcyclic) (recursion : d.IsContractOf contractOf)

include acyclic recursion

theorem Settles.contract {ids : List SymbolId} {b : β}
    {f : Contract → Process (Except AnalysisError β)} (within : d.needs id ⊆ limit)
    (next : Settles d contractOf limit start ids b (f (contractOf id))) :
    Settles d contractOf limit start (id :: ids) b (Process.contract d id >>= f) := by
  refine fun _ => (contract_ensures acyclic recursion within).bind ?_
  rintro _ later - ⟨rfl, needed⟩
  refine (next later).weaken ?_
  rintro _ last grows (⟨rfl, needed'⟩ | stopped)
  · exact .inl ⟨rfl, List.forall_mem_cons.2 ⟨needed.trans grows, needed'⟩⟩
  · exact .inr stopped

theorem follow_settles (unit : WalkUnit) (events : List WalkEvent) (r : BodyRecord)
    (within : ∀ id ∈ (Walk.sitesOf events).map (·.target), d.needs id ⊆ limit) :
    ∃ r', Settles d contractOf limit start ((Walk.sitesOf events).map (·.target)) r'
      (follow d unit events r) := by
  induction events generalizing r with
  | nil => exact ⟨r, settles_pure r⟩
  | cons e rest ih =>
    cases e with
    | poll =>
      obtain ⟨r', onward⟩ := ih r within
      exact ⟨r', settles_poll.andThen onward⟩
    | use target span w =>
      obtain ⟨withinTarget, withinRest⟩ := List.forall_mem_cons.1 within
      obtain ⟨r', onward⟩ := ih (r.recordUse d unit (contractOf target) target span w) withinRest
      exact ⟨r', onward.contract acyclic recursion withinTarget⟩
    | invoke callee w => exact ih _ within

end

section

variable {a : BodyAnalysis} (acyclic : a.declarations.ImplementsAcyclic)
  (recursion : a.declarations.IsContractOf contractOf)

include acyclic recursion

theorem walkUnit_settles (unit : WalkUnit) (code : Operation) (entry : Worlds) (r : BodyRecord)
    (within : ∀ id ∈ (code.ownSites a.scope).map (·.target), a.declarations.needs id ⊆ limit) :
    ∃ r', Settles a.declarations contractOf limit start
      ((code.ownSites a.scope).map (·.target)) r' (walkUnit a unit code entry r) := by
  rw [← code.walk_uses a.scope entry] at within ⊢
  exact follow_settles acyclic recursion unit _ r within

theorem Settles.callableContract {key : CallableKey} {ids : List SymbolId} {b : β}
    {f : Contract → Process (Except AnalysisError β)}
    (within : ∀ id ∈ key.function?.toList, a.declarations.needs id ⊆ limit)
    (next : Settles a.declarations contractOf limit start ids b (f (a.enclosing contractOf key))) :
    Settles a.declarations contractOf limit start (key.function?.toList ++ ids) b
      (Process.callableContract a key >>= f) := by
  cases key with
  | function symbol =>
    exact next.contract acyclic recursion (within symbol (List.mem_singleton_self _))
  | body | lambda | anonymous => exact next

theorem walkCallables_settles (order : List (CallableKey × Bool)) (r : BodyRecord)
    (within : ∀ id ∈ ((order.map (·.1)).filterMap fun key =>
        (a.scope.callables.get? key).map fun d => (d.key, d.body)).flatMap a.scope.asks,
      a.declarations.needs id ⊆ limit) :
    ∃ r', Settles a.declarations contractOf limit start
      (((order.map (·.1)).filterMap fun key =>
        (a.scope.callables.get? key).map fun d => (d.key, d.body)).flatMap a.scope.asks) r'
      (walkCallables a order r) := by
  induction order generalizing r with
  | nil => exact ⟨r, settles_pure r⟩
  | cons next rest ih =>
    obtain ⟨key, cyclic⟩ := next
    rw [List.map_cons, List.filterMap_cons] at within ⊢
    rw [walkCallables]
    cases hget : a.scope.callables.get? key with
    | none =>
      rw [hget] at within
      exact ih r within
    | some callable =>
      rw [hget] at within
      obtain rfl : callable.key = key := by simpa using List.find?_some hget
      obtain ⟨withinUnit, withinRest⟩ := List.forall_mem_append.1 within
      obtain ⟨withinKey, withinSites⟩ := List.forall_mem_append.1 withinUnit
      let contract := a.enclosing contractOf callable.key
      obtain ⟨r₁, first⟩ := walkUnit_settles acyclic recursion
        { key := callable.key, file := a.file, enclosing := contract } callable.body
        (r.entryWorlds callable cyclic contract.allowedWorlds) r withinSites
      obtain ⟨r₂, onward⟩ := ih r₁ withinRest
      refine ⟨r₂, ?_⟩
      rw [Option.map_some, List.flatMap_cons, WalkScope.asks, List.append_assoc]
      exact Settles.callableContract acyclic recursion withinKey (first.andThen onward)

end

theorem Settles.map {ids : List SymbolId} {a : α} {p : Process (Except AnalysisError α)}
    (h : Settles d contractOf limit start ids a p) (f : α → β) :
    Settles d contractOf limit start ids (f a) (p >>= fun out => pure (out.map f)) := by
  refine fun built => (h built).bind ?_
  rintro _ later - (⟨rfl, needed⟩ | ⟨stops, rfl⟩)
  · exact ensures_pure fun _ grows => .inl ⟨rfl, fun i hi => (needed i hi).trans grows⟩
  · exact ensures_pure fun _ _ => .inr ⟨stops, rfl⟩

/-- Whatever others do, a body has the findings it has on its own, unless it is cancelled. -/
theorem body_settles {reader : GuardReader} (acyclic : reader.declarations.ImplementsAcyclic)
    (recursion : reader.declarations.IsContractOf contractOf) (body : MethodBody)
    (within : ∀ id ∈ body.asks reader, reader.declarations.needs id ⊆ limit) :
    Settles reader.declarations contractOf limit start (body.asks reader)
      (body.findings reader contractOf) (Process.body reader body) := by
  let a := body.analysis reader contractOf
  let u := a.bodyWalk body.body
  have asked : (body.owner :: (body.unitsWalked reader).flatMap a.scope.asks).Perm
      (body.asks reader) := ((body.unitsWalked_perm reader).flatMap_right _).cons _
  simp only [← asked.mem_iff] at within
  obtain ⟨withinOwner, withinUnits⟩ := List.forall_mem_cons.1 within
  obtain ⟨withinBody, withinCallables⟩ := List.forall_mem_append.1 withinUnits
  obtain ⟨r, first⟩ :=
    walkUnit_settles acyclic recursion (a := a) u.unit body.body u.entry {} withinBody
  obtain ⟨r', onward⟩ := walkCallables_settles acyclic recursion (a := a) _ r withinCallables
  have settled : Settles reader.declarations contractOf limit start
      (body.owner :: (body.unitsWalked reader).flatMap a.scope.asks) r'.diagnostics
      (Process.body reader body) :=
    ((first.andThen onward).map (·.diagnostics)).contract acyclic recursion withinOwner
  -- the result is the one of an analysis on its own
  have alone : Session.Steady reader.declarations contractOf limit start {} :=
    { Session.Steady.fresh .never with endless := fun _ => rfl }
  have ran := ((settled ∅).run alone (Set.empty_subset _)).2.2 _ (subset_refl _)
  rw [run_body, (analyzeBody_outcome acyclic recursion body ContractCache.faithful_empty).1] at ran
  obtain ⟨same, -⟩ | ⟨-, failed⟩ := ran
  · rw [show body.findings reader contractOf = r'.diagnostics from Except.ok.inj same]
    simp only [Settles, asked.mem_iff] at settled
    exact settled
  · cases failed

end Process

/-! ## Pools -/

theorem forall₂_set {α β : Type} {R S : α → β → Prop} {l : List α} {l' : List β} {i : Nat}
    {x x' : α} (h : List.Forall₂ R l l') (hx : l[i]? = some x) (others : ∀ a b, R a b → S a b)
    (one : ∀ b, R x b → S x' b) : List.Forall₂ S (l.set i x') l' := by
  induction h generalizing i with
  | nil => cases hx
  | @cons a b l l' hab rest ih =>
    cases i with
    | zero =>
      obtain rfl := Option.some.inj hx
      exact .cons (one b hab) (rest.imp others)
    | succ i => exact .cons (others a b hab) (ih hx)

namespace Pool

variable {α : Type} {inv : Session → Prop} {posts : List (α → Set SymbolId → Prop)} {p : Pool α}

/-- Each process of a pool ensures what it is to end with. -/
structure Ensures (inv : Session → Prop) (posts : List (α → Set SymbolId → Prop)) (p : Pool α) :
    Prop where
  session : inv p.session
  processes : List.Forall₂ (fun process post => process.Ensures inv post p.session.cache.built)
    p.processes posts

theorem turn_of_ask {i : Nat} {access : Access} {next : access.Answer → Process α}
    (h : p.processes[i]? = some (.ask access next)) :
    p.turn i =
      { processes := p.processes.set i (next (p.session.serve access).1)
        session := (p.session.serve access).2 } := by
  rw [turn, h]

/-- A turn of one process leaves the others with what they ensure. -/
theorem Ensures.turn (h : p.Ensures inv posts) (i : Nat) : (p.turn i).Ensures inv posts := by
  cases hprocess : p.processes[i]? with
  | none =>
    rw [Pool.turn, hprocess]
    exact h
  | some process =>
    cases process with
    | done a =>
      rw [Pool.turn, hprocess]
      exact h
    | ask access next =>
      rw [turn_of_ask hprocess]
      have step : ∀ post, (Process.ask access next).Ensures inv post p.session.cache.built → _ :=
        fun post ensured => ensured p.session h.session (subset_refl _)
      obtain ⟨hi, hget⟩ := List.getElem?_eq_some_iff.1 hprocess
      have ensured := h.processes.get hi (h.processes.length_eq ▸ hi)
      simp only [List.get_eq_getElem, hget] at ensured
      obtain ⟨kept, grows, -⟩ := step _ ensured
      exact ⟨kept, forall₂_set h.processes hprocess (fun _ _ other => other.mono grows)
        fun post ensured => (step post ensured).2.2⟩

theorem Ensures.turns (h : p.Ensures inv posts) (turns : List Nat) :
    (turns.foldl Pool.turn p).Ensures inv posts :=
  List.foldlRecOn turns _ h fun _ kept i _ => kept.turn i

theorem runAll_ensures {processes : List (Process α)} {s : Session} (hs : inv s)
    (h : List.Forall₂ (fun process post => process.Ensures inv post s.cache.built)
      processes posts) :
    inv (runAll processes s).2 ∧ s.cache.built ⊆ (runAll processes s).2.cache.built ∧
      List.Forall₂ (fun result post => post result (runAll processes s).2.cache.built)
        (runAll processes s).1 posts := by
  induction processes generalizing s posts with
  | nil =>
    cases h
    exact ⟨hs, subset_refl _, .nil⟩
  | cons process rest ih =>
    cases h with
    | cons first others =>
      obtain ⟨kept, grows, result⟩ := first.run hs (subset_refl _)
      obtain ⟨kept', grows', results⟩ := ih kept (others.imp fun _ _ later => later.mono grows)
      exact ⟨kept', grows.trans grows', .cons (result _ grows') results⟩

/-- However the turns are taken, each process ends as it ensures. -/
theorem Ensures.run (h : p.Ensures inv posts) (turns : List Nat) :
    inv (p.run turns).2 ∧
      List.Forall₂ (fun result post => post result (p.run turns).2.cache.built) (p.run turns).1
        posts := by
  obtain ⟨kept, -, results⟩ := runAll_ensures (h.turns turns).session (h.turns turns).processes
  exact ⟨kept, results⟩

/-- A process may take all its turns before any other has one. -/
theorem exists_turns_of_one (p : Pool α) {i : Nat} {process : Process α}
    (h : p.processes[i]? = some process) :
    ∃ n, (List.replicate n i).foldl turn p =
      { processes := p.processes.set i (.done (process.run p.session).1)
        session := (process.run p.session).2 } := by
  induction process generalizing p with
  | done a =>
    obtain ⟨hi, hget⟩ := List.getElem?_eq_some_iff.1 h
    refine ⟨0, ?_⟩
    show p = { p with processes := p.processes.set i (.done a) }
    rw [← hget, List.set_getElem_self]
  | ask access next ih =>
    have turned := turn_of_ask h
    have hi := (List.getElem?_eq_some_iff.1 h).1
    obtain ⟨n, hn⟩ :=
      ih (p.session.serve access).1 (p.turn i) (by rw [turned, List.getElem?_set_self hi])
    refine ⟨n + 1, ?_⟩
    rw [List.replicate_succ, List.foldl_cons, hn, turned]
    dsimp only
    rw [List.set_set]
    rfl

end Pool

/-! ## The outcomes of bodies -/

section

variable {reader : GuardReader} {contractOf : SymbolId → Contract}

/-- However the turns are taken, each body has the findings it has on its own or is cancelled, and
what is built is what the bodies need. -/
theorem analyzeBodies_outcomes (acyclic : reader.declarations.ImplementsAcyclic)
    (recursion : reader.declarations.IsContractOf contractOf) (bodies : List MethodBody)
    (turns : List Nat) (cancellation : Cancellation) :
    let ran := analyzeBodies reader bodies turns { cancellation }
    List.Forall₂ (fun outcome body => outcome = .ok (body.findings reader contractOf) ∨
      outcome = .error .cancelled ∧ cancellation ≠ .never) ran.1 bodies ∧
    (cancellation = .never →
      ran.2.cache.built = { id | ∃ body ∈ bodies, id ∈ body.needs reader }) := by
  intro ran
  let limit := { id | ∃ body ∈ bodies, id ∈ body.needs reader }
  have pool : Pool.Ensures (Session.Steady reader.declarations contractOf limit cancellation)
      (bodies.map fun body out later =>
        out = .ok (body.findings reader contractOf) ∧
          (∀ id ∈ body.asks reader, reader.declarations.needs id ⊆ later) ∨
        cancellation ≠ .never ∧ out = .error .cancelled)
      { processes := bodies.map (Process.body reader), session := { cancellation } } := by
    refine ⟨.fresh cancellation, ?_⟩
    rw [List.forall₂_map_left_iff, List.forall₂_map_right_iff, List.forall₂_same]
    intro body hbody
    refine Process.body_settles acyclic recursion body ?_ _
    exact fun id hid member hmember => ⟨body, hbody, id, hid, hmember⟩
  obtain ⟨steady, outcomes⟩ := pool.run turns
  rw [List.forall₂_map_right_iff] at outcomes
  refine ⟨outcomes.imp ?_, fun never => ?_⟩
  · rintro outcome body (⟨complete, -⟩ | ⟨stops, stopped⟩)
    · exact .inl complete
    · exact .inr ⟨stopped, stops⟩
  · refine Set.Subset.antisymm steady.within ?_
    have each : List.Forall₂ (fun body _ =>
        (∀ id ∈ body.asks reader, reader.declarations.needs id ⊆ ran.2.cache.built) ∧ True)
        bodies ran.1 := by
      refine (outcomes.imp ?_).flip
      rintro outcome body (⟨-, built⟩ | ⟨stops, -⟩)
      · exact ⟨built, trivial⟩
      · exact absurd never stops
    rintro member ⟨body, hbody, id, hid, hmember⟩
    exact ((List.forall₂_and_left _ _).1 each).1 body hbody id hid hmember

end

end PlatformGuard
