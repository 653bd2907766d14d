import Mathlib.Data.Set.Card
import PlatformGuard.Proofs.ContractRecursion
import PlatformGuard.Proofs.Recognition

/-!
# Which contracts are built

To ask for a contract builds it, and those of the members it implements in some steps, where they
were not built before. So where no members implement each other in a circle, the set of contracts
built does not depend on the order in which they were asked for (`ContractCache.built_askAll`), and
neither does their number. What a body asks for does not depend on what was remembered before
(`analyzeBody_built`).
-/

namespace PlatformGuard

open Relation

namespace Declarations

variable {d : Declarations} {id : SymbolId}

/-- The symbols whose contracts go into that of a symbol: the symbol, and what it
implements in some steps. -/
def needs (d : Declarations) (id : SymbolId) : Set SymbolId :=
    { member | ReflTransGen d.Implements member id }

/-- Each symbol is there with all that its contract needs. -/
def Complete (d : Declarations) (ids : Set SymbolId) : Prop := ∀ id ∈ ids, d.needs id ⊆ ids

theorem self_mem_needs (d : Declarations) (id : SymbolId) : id ∈ d.needs id := ReflTransGen.refl

theorem complete_empty : d.Complete ∅ := fun _ h => absurd h (Set.notMem_empty _)

theorem complete_needs (d : Declarations) (id : SymbolId) : d.Complete (d.needs id) :=
  fun _ hmember _ hlower => ReflTransGen.trans hlower hmember

theorem Complete.union {ids ids' : Set SymbolId} (h : d.Complete ids) (h' : d.Complete ids') :
    d.Complete (ids ∪ ids') := by
  rintro id (hid | hid)
  · exact (h id hid).trans Set.subset_union_left
  · exact (h' id hid).trans Set.subset_union_right

theorem needs_of_unknown (h : d.table.get? id = none) : d.needs id = {id} := by
  refine Set.eq_singleton_iff_unique_mem.2 ⟨d.self_mem_needs id, fun member hmember => ?_⟩
  obtain rfl | ⟨_, _, s, hs, _⟩ := ReflTransGen.cases_tail hmember
  · rfl
  · rw [h] at hs
    cases hs

theorem needs_of_known {s : Symbol} (h : d.table.get? id = some s) :
    d.needs id = insert id { member | ∃ i ∈ s.implements.filter (· ≠ id), member ∈ d.needs i } := by
  ext member
  constructor
  · intro hmember
    obtain rfl | ⟨i, hlower, s', hs', hmem, hne⟩ := ReflTransGen.cases_tail hmember
    · exact .inl rfl
    · obtain rfl := Option.some.inj (h.symm.trans hs')
      exact .inr ⟨i, List.mem_filter.2 ⟨hmem, decide_eq_true hne⟩, hlower⟩
  · rintro (rfl | ⟨i, hi, hlower⟩)
    · exact d.self_mem_needs member
    · obtain ⟨hmem, hne⟩ := List.mem_filter.1 hi
      exact ReflTransGen.tail hlower ⟨s, h, hmem, of_decide_eq_true hne⟩

end Declarations

namespace ContractCache

variable {d : Declarations} {contractOf : SymbolId → Contract} {cache : ContractCache}

/-! ## The contracts that a question builds -/

/-- The symbols whose contract is remembered. -/
def built (cache : ContractCache) : Set SymbolId := { id | (cache.get? id).isSome = true }

theorem built_empty : built .empty = ∅ := by
  ext id
  simp [built, get?, empty]

theorem built_remember (id : SymbolId) (contract : Contract) :
    (cache.remember id contract).built = insert id cache.built := by
  ext i
  show ((cache.remember id contract).get? i).isSome = true ↔ i = id ∨ (cache.get? i).isSome = true
  rw [get?_remember]
  by_cases h : id = i
  · simp [h]
  · simp [h, Ne.symm h]

theorem built_declared {id : SymbolId} : (cache.declared d id).2.built = cache.built := by
  ext i
  show ((cache.declared d id).2.get? i).isSome = true ↔ _
  rw [get?_declared]
  rfl

theorem built_mergeLayers (c : Contract) (scopes : List SymbolId) :
    (mergeLayers d c scopes cache).2.built = cache.built := by
  ext i
  show ((mergeLayers d c scopes cache).2.get? i).isSome = true ↔ _
  rw [get?_mergeLayers]
  rfl

mutual
/-- To build a contract while symbols are being built that need it. -/
theorem resolve_built (acyclic : d.ImplementsAcyclic) (visiting : List SymbolId) (id : SymbolId)
    (cache : ContractCache) (below : ∀ v ∈ visiting, TransGen d.Implements id v)
    (complete : d.Complete cache.built) :
    (resolve d visiting id cache).2.built = cache.built ∪ d.needs id := by
  have fresh : id ∉ visiting := fun hmem => acyclic id (below id hmem)
  unfold resolve
  split
  case h_1 contract hget =>
    have known : id ∈ cache.built := Option.isSome_iff_exists.2 ⟨contract, hget⟩
    exact (Set.union_eq_self_of_subset_right (complete id known)).symm
  case h_2 =>
    rw [dif_neg fresh]
    split
    case h_1 hunknown =>
      rw [built_remember, Declarations.needs_of_unknown hunknown, Set.union_singleton]
    case h_2 s hs =>
      let members := s.implements.filter (· ≠ id)
      let outer := mergeLayers d .empty (d.scopes id).1 cache
      let merged := mergeResolved d (id :: visiting) members outer.1 outer.2
      let inner := mergeLayers d merged.1 ((d.scopes id).2 ++ s.associated.toList ++ [id]) merged.2
      have below' : ∀ member ∈ members, ∀ v ∈ id :: visiting, TransGen d.Implements member v :=
        Declarations.below_of_mem_implements hs below
      have houter : outer.2.built = cache.built := built_mergeLayers _ _
      have hmerged : merged.2.built = cache.built ∪
          { member | ∃ i ∈ members, member ∈ d.needs i } := by
        rw [← houter] at complete ⊢
        exact mergeResolved_built acyclic (id :: visiting) members outer.1 outer.2 below' complete
      have hinner : inner.2.built = merged.2.built := built_mergeLayers _ _
      show (inner.2.remember id inner.1).built = _
      rw [built_remember, hinner, hmerged, Declarations.needs_of_known hs, Set.union_insert]
termination_by (d.table.unvisited visiting, 0)
decreasing_by exact Prod.Lex.left _ _ (SymbolTable.unvisited_cons_lt ‹_› ‹_›)

theorem mergeResolved_built (acyclic : d.ImplementsAcyclic) (visiting ids : List SymbolId)
    (outer : Contract) (cache : ContractCache)
    (below : ∀ id ∈ ids, ∀ v ∈ visiting, TransGen d.Implements id v)
    (complete : d.Complete cache.built) :
    (mergeResolved d visiting ids outer cache).2.built =
      cache.built ∪ { member | ∃ i ∈ ids, member ∈ d.needs i } := by
  match ids with
  | [] =>
    unfold mergeResolved
    simp
  | id :: rest =>
    have first := resolve_built acyclic visiting id cache (below id List.mem_cons_self) complete
    have complete' : d.Complete (resolve d visiting id cache).2.built :=
      first ▸ complete.union (d.complete_needs id)
    unfold mergeResolved
    dsimp only
    rw [mergeResolved_built acyclic visiting rest _ _
      (fun i hi => below i (List.mem_cons_of_mem _ hi)) complete', first]
    ext member
    simp [or_assoc]
termination_by (d.table.unvisited visiting, ids.length + 1)
end

/-! ## Many questions -/

/-- What is remembered once the contracts of some symbols were asked for. -/
def askAll (d : Declarations) (cache : ContractCache) (ids : List SymbolId) : ContractCache :=
  ids.foldl (fun cache id => (cache.contract d id).2) cache

theorem askAll_append (ids ids' : List SymbolId) :
    cache.askAll d (ids ++ ids') = (cache.askAll d ids).askAll d ids' :=
  List.foldl_append

theorem ask_eq_askAll (sites : List UseSite) :
    cache.ask d sites = cache.askAll d (sites.map (·.target)) := by
  rw [ask, askAll, List.foldl_map]

theorem contract_built (acyclic : d.ImplementsAcyclic) (id : SymbolId)
    (complete : d.Complete cache.built) :
    (cache.contract d id).2.built = cache.built ∪ d.needs id :=
  resolve_built acyclic [] id cache (fun _ hv => absurd hv List.not_mem_nil) complete

/-- What is built once some contracts were asked for is what each of them needs, in whatever
order. -/
theorem built_askAll (acyclic : d.ImplementsAcyclic) (ids : List SymbolId)
    (complete : d.Complete cache.built) :
    (cache.askAll d ids).built = cache.built ∪ { member | ∃ id ∈ ids, member ∈ d.needs id } ∧
      d.Complete (cache.askAll d ids).built := by
  induction ids generalizing cache with
  | nil =>
    refine ⟨?_, complete⟩
    ext member
    simp [askAll]
  | cons id rest ih =>
    have first := contract_built acyclic id complete
    have complete' : d.Complete (cache.contract d id).2.built :=
      first ▸ complete.union (d.complete_needs id)
    obtain ⟨later, complete'⟩ := ih complete'
    refine ⟨later.trans ?_, complete'⟩
    ext member
    simp [first, or_assoc]

theorem size_eq_ncard (cache : ContractCache) : cache.size = cache.built.ncard := by
  have keys : cache.built = cache.contracts.keys.toFinset := by
    ext id
    simp [built, get?]
  have distinct : cache.contracts.keys.Nodup := by
    refine List.Pairwise.imp ?_ cache.contracts.distinct_keys
    intro a b h
    simpa using h
  rw [keys, Set.ncard_coe_finset, List.toFinset_card_of_nodup distinct,
    Std.HashMap.length_keys, size]

end ContractCache

/-! ## What a body asks for -/

def CallableKey.function? : CallableKey → Option SymbolId
  | .function symbol => some symbol
  | _ => none

/-- The contracts that a unit asks for: that of a local function, and those of its use sites. -/
def WalkScope.asks (scope : WalkScope) (unit : CallableKey × Operation) : List SymbolId :=
  unit.1.function?.toList ++ (unit.2.ownSites scope).map (·.target)

/-- The contracts that the analysis of a body asks for: that of its owner, and
those of its units. -/
def MethodBody.asks (body : MethodBody) (reader : GuardReader) : List SymbolId :=
  body.owner :: (CallableIndex.unitsOf body.body).flatMap (WalkScope.ofBody reader body.body).asks

namespace BodyAnalysis

variable {a : BodyAnalysis} {s : BodyState}

theorem nextWalk_cache (key : CallableKey) (callable : CallableDef) (cyclic : Bool) :
    (a.nextWalk key callable cyclic s).2.session.cache =
      s.session.cache.askAll a.declarations key.function?.toList := by
  cases key <;> rfl

theorem advanceAll_cache (order : List (CallableKey × Bool)) :
    (a.advanceAll order s).session.cache = s.session.cache.askAll a.declarations
      (((order.map (·.1)).filterMap fun key => (a.scope.callables.get? key).map fun d =>
        (d.key, d.body)).flatMap
        a.scope.asks) := by
  induction order generalizing s with
  | nil => rfl
  | cons next rest ih =>
    obtain ⟨key, cyclic⟩ := next
    rw [List.map_cons, List.filterMap_cons]
    cases hget : a.scope.callables.get? key with
    | none =>
      rw [advanceAll, hget]
      exact ih
    | some callable =>
      obtain rfl : callable.key = key := by simpa using List.find?_some hget
      rw [advanceAll_cons hget, ih, advance_cache, nextWalk_cache, ContractCache.ask_eq_askAll,
        ← ContractCache.askAll_append, ← ContractCache.askAll_append]
      exact congrArg _ (List.append_assoc _ _ _).symm

end BodyAnalysis

/-- The symbols whose contracts go into what the analysis of a body asks for. -/
def MethodBody.needs (body : MethodBody) (reader : GuardReader) : Set SymbolId :=
  { member | ∃ id ∈ body.asks reader, member ∈ reader.declarations.needs id }

section

variable {reader : GuardReader} {session : Session}

def MethodBody.unitsWalked (body : MethodBody) (reader : GuardReader) :
    List (CallableKey × Operation) :=
  let scope := WalkScope.ofBody reader body.body
  (.body, body.body) :: ((CallableIndex.ofBody body.body).walkOrder.map (·.1)).filterMap fun key =>
    (scope.callables.get? key).map fun d => (d.key, d.body)

theorem MethodBody.unitsWalked_perm (body : MethodBody) (reader : GuardReader) :
    (body.unitsWalked reader).Perm (CallableIndex.unitsOf body.body) := by
  have walks : ((body.walks reader fun _ => .empty).map fun u => (u.unit.key, u.code)).Perm
      (CallableIndex.unitsOf body.body) := MethodBody.walks_perm
  rw [MethodBody.walks, BodyAnalysis.walks, BodyAnalysis.walksFrom_code] at walks
  exact walks

/-- An analysis that cannot be cancelled asks for the contracts of its body, in the order of the
walks. -/
theorem analyzeBody_cache (reader : GuardReader) (body : MethodBody)
    (h : session.cancellation = .never) :
    ∃ ids, ids.Perm (body.asks reader) ∧
      (analyzeBody reader body session).2.cache = session.cache.askAll reader.declarations ids := by
  refine ⟨body.owner :: (body.unitsWalked reader).flatMap (WalkScope.ofBody reader body.body).asks,
    ((body.unitsWalked_perm reader).flatMap_right _).cons _, ?_⟩
  rw [analyzeBody_snd, MethodBody.runUpTo,
    BodyAnalysis.runUpTo_cache (MethodBody.reached_of_never h _), BodyAnalysis.advanceAll_cache,
    BodyAnalysis.advance_cache, ContractCache.ask_eq_askAll, ← ContractCache.askAll_append]
  rfl

/-- The contracts built for a body are the same, whatever was built before. -/
theorem analyzeBody_built (acyclic : reader.declarations.ImplementsAcyclic) (body : MethodBody)
    (h : session.cancellation = .never)
    (complete : reader.declarations.Complete session.cache.built) :
    (analyzeBody reader body session).2.cache.built = session.cache.built ∪ body.needs reader ∧
      reader.declarations.Complete (analyzeBody reader body session).2.cache.built := by
  obtain ⟨ids, perm, hcache⟩ := analyzeBody_cache reader body h
  obtain ⟨hbuilt, complete'⟩ := ContractCache.built_askAll acyclic ids complete
  rw [hcache]
  refine ⟨hbuilt.trans ?_, complete'⟩
  simp only [perm.mem_iff, MethodBody.needs]

end

end PlatformGuard
