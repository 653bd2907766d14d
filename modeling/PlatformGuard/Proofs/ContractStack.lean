import PlatformGuard.Proofs.ContractsBuilt

/-!
# Building a contract ends

Interface members may implement each other in a circle, and scopes may contain each other in one.
Two records cut the circles: the chain of scopes met so far, and the stack of symbols whose
contracts are being built. Each round of the one and each level of the other takes a symbol of the
table that was not there before, so that both end (`SymbolTable.collectScopes_eq`,
`BuildState.resolveWithin_eq`), and the stack is given back as it was.

Whatever a cache remembers, all that happens to it meanwhile is that attributes are read and
contracts are remembered, those of the symbol and of what it implements in some steps
(`ContractCache.resolve_steps`).
-/

namespace PlatformGuard

open Relation

/-! ## Scopes -/

namespace SymbolTable

variable {visited chain : List SymbolId}

/-- The scopes around a symbol from `current` outwards, after those of a chain, in some rounds; none
when these do not suffice. A scope of the chain, or the symbol itself, ends it. -/
def collectScopes (t : SymbolTable) (id : SymbolId) :
    Nat → List SymbolId → Option SymbolId → Option (List SymbolId)
  | _, chain, none => some chain
  | 0, _, some _ => none
  | rounds + 1, chain, some next =>
    if next ∈ chain ∨ next = id then some chain
    else collectScopes t id rounds (chain ++ [next]) (t.scope? next)

theorem collectScopes_none (t : SymbolTable) (id : SymbolId) (rounds : Nat)
    (chain : List SymbolId) :
    t.collectScopes id rounds chain none = some chain := by
  cases rounds <;> rfl

/-- A round is needed for each symbol of the table that was not met, and one more to
find that nothing is new. -/
theorem collectScopes_eq (t : SymbolTable) (id : SymbolId) {rounds : Nat}
    (enough : t.unvisited visited < rounds) (met : ∀ i, i ∈ visited ↔ i ∈ chain ∨ i = id)
    (next : Option SymbolId) :
    t.collectScopes id rounds chain next = some (chain ++ t.scopesFrom visited next) := by
  induction rounds generalizing visited chain next with
  | zero => exact absurd enough (Nat.not_lt_zero _)
  | succ rounds ih =>
    cases next with
    | none => rw [collectScopes_none, scopesFrom, List.append_nil]
    | some next =>
      rw [collectScopes, scopesFrom]
      by_cases hmem : next ∈ visited
      · rw [if_pos ((met next).1 hmem), dif_pos hmem, List.append_nil]
      · rw [if_neg fun h => hmem ((met next).2 h), dif_neg hmem, scope?]
        have met' : ∀ i, i ∈ next :: visited ↔ i ∈ chain ++ [next] ∨ i = id := by
          intro i
          simp only [List.mem_cons, List.mem_append, List.not_mem_nil, or_false, met]
          tauto
        split
        case h_1 hget => rw [hget, Option.bind_none, collectScopes_none]
        case h_2 s hget =>
          have fewer := unvisited_cons_lt hget hmem
          rw [hget, Option.bind_some, ih (by omega) met', List.append_assoc, List.singleton_append]

end SymbolTable

namespace ContractCache

variable {d : Declarations} {ids : Set SymbolId} {cache after : ContractCache}
    {visiting : List SymbolId} {id : SymbolId}

/-! ## What happens to the cache -/

/-- One thing that happens to a cache: the attributes of a symbol are read, or the contract of one
of some symbols is remembered. -/
inductive Step (d : Declarations) (ids : Set SymbolId) (cache : ContractCache) :
    ContractCache → Prop
  | read (id : SymbolId) : Step d ids cache (cache.declared d id).2
  | remember {id : SymbolId} (contract : Contract) (needed : id ∈ ids) : Step d ids cache
      (cache.remember id contract)

theorem mergeLayers_steps (c : Contract) (scopes : List SymbolId) (cache : ContractCache) :
    ReflTransGen (Step d ids) cache (mergeLayers d c scopes cache).2 := by
  induction scopes generalizing c cache with
  | nil => exact .refl
  | cons scope rest ih => exact .head (.read scope) (ih _ _)

mutual
/-- To build a contract is to read attributes and to remember contracts, none but those that it
needs. -/
theorem resolve_steps (visiting : List SymbolId) (id : SymbolId) (cache : ContractCache)
    (needed : d.needs id ⊆ ids) :
    ReflTransGen (Step d ids) cache (resolve d visiting id cache).2 := by
  have self : id ∈ ids := needed (d.self_mem_needs id)
  unfold resolve
  split
  case h_1 => exact .refl
  case h_2 =>
    split
    case isTrue => exact .refl
    case isFalse hid =>
      split
      case h_1 => exact .single (.remember .empty self)
      case h_2 s hs =>
        rw [Declarations.needs_of_known hs] at needed
        let members := s.implements.filter (· ≠ id)
        have needed' : ∀ i ∈ members, d.needs i ⊆ ids :=
          fun i hi member hmember => needed (.inr ⟨i, hi, hmember⟩)
        have outer : ReflTransGen (Step d ids) cache
            (mergeLayers d .empty (d.scopes id).1 cache).2 :=
          mergeLayers_steps _ _ _
        have merged := mergeResolved_steps (id :: visiting) members
          (mergeLayers d .empty (d.scopes id).1 cache).1
            (mergeLayers d .empty (d.scopes id).1 cache).2 needed'
        exact ((outer.trans merged).trans (mergeLayers_steps _ _ _)).tail (.remember _ self)
termination_by (d.table.unvisited visiting, 0)
decreasing_by exact Prod.Lex.left _ _ (SymbolTable.unvisited_cons_lt ‹_› ‹_›)

theorem mergeResolved_steps (visiting members : List SymbolId) (outer : Contract)
    (cache : ContractCache) (needed : ∀ i ∈ members, d.needs i ⊆ ids) :
    ReflTransGen (Step d ids) cache (mergeResolved d visiting members outer cache).2 := by
  match members with
  | [] =>
    unfold mergeResolved
    exact .refl
  | i :: rest =>
    unfold mergeResolved
    exact (resolve_steps visiting i cache (needed i List.mem_cons_self)).trans
      (mergeResolved_steps visiting rest _ _ fun j hj => needed j (List.mem_cons_of_mem _ hj))
termination_by (d.table.unvisited visiting, members.length + 1)
end

theorem get?_of_steps (steps : ReflTransGen (Step d ids) cache after) {i : SymbolId} {c : Contract}
    (h : after.get? i = some c) : cache.get? i = some c ∨ i ∈ ids := by
  induction steps with
  | refl => exact .inl h
  | tail _ step ih =>
    cases step with
    | read id => exact ih (get?_declared.symm.trans h)
    | @remember id contract needed =>
      rw [get?_remember] at h
      split at h
      case isTrue heq => exact .inr (heq ▸ needed)
      case isFalse => exact ih h

theorem attributes_of_steps (steps : ReflTransGen (Step d ids) cache after) {i : SymbolId}
    {known : Declared} (h : cache.attributes[i]? = some known) :
    after.attributes[i]? = some known := by
  induction steps with
  | refl => exact h
  | @tail middle _ _ step ih =>
    cases step with
    | remember => exact ih
    | read id =>
      unfold declared
      split
      case h_1 => exact ih
      case h_2 hunread =>
        rw [attributes_rememberAttributes, if_neg, ih]
        rintro rfl
        rw [ih] at hunread
        cases hunread

end ContractCache

/-! ## The stack of what is being built -/

/-- Where building stands: the symbols whose contracts are being built, the last
one first, and the cache. -/
structure BuildState where
  visiting : List SymbolId
  cache : ContractCache

namespace BuildState

def mergeLayers (d : Declarations) (c : Contract) (scopes : List SymbolId) (s : BuildState) :
    Contract × BuildState :=
  let (merged, cache) := ContractCache.mergeLayers d c scopes s.cache
  (merged, { s with cache })

/-- Merges the contracts of interface members in their order, as they are asked for. -/
def mergeAsked (ask : SymbolId → BuildState → Option (Contract × BuildState)) :
    List SymbolId → Contract → BuildState → Option (Contract × BuildState)
  | [], outer, s => some (outer, s)
  | id :: rest, outer, s => do
    let (contract, s) ← ask id s
    mergeAsked ask rest (outer.mergeChild contract) s

/-- Merges all that the contract of a symbol is made of. An unknown symbol has an empty one. -/
def build (d : Declarations) (ask : SymbolId → BuildState → Option (Contract × BuildState))
    (id : SymbolId) (s : BuildState) : Option (Contract × BuildState) :=
  match d.table.get? id with
  | none => some (.empty, s)
  | some symbol => do
    let scopes := d.scopes id
    let (outer, s) := s.mergeLayers d .empty scopes.1
    let (merged, s) ← mergeAsked ask (symbol.implements.filter (· ≠ id)) outer s
    return s.mergeLayers d merged (scopes.2 ++ symbol.associated.toList ++ [id])

/-- The contract of a symbol, with questions nested within each other to some depth; none when
they nest deeper. A symbol is on the stack while its contract is being built. What was
remembered for it first stays. -/
def resolveWithin (d : Declarations) : Nat → SymbolId → BuildState → Option (Contract × BuildState)
  | 0, _, _ => none
  | depth + 1, id, s =>
    match s.cache.get? id with
    | some contract => some (contract, s)
    | none =>
      if id ∈ s.visiting then some (.empty, s)
      else do
        let (contract, s) ← build d (resolveWithin d depth) id
          { s with visiting := id :: s.visiting }
        let s := { s with visiting := s.visiting.tail }
        match s.cache.get? id with
        | some first => return (first, s)
        | none => return (contract, { s with cache := s.cache.remember id contract })

variable {d : Declarations} {visiting : List SymbolId}

def answered (visiting : List SymbolId) (answer : Contract × ContractCache) :
    Contract × BuildState :=
  (answer.1, ⟨visiting, answer.2⟩)

theorem mergeAsked_eq {ask : SymbolId → BuildState → Option (Contract × BuildState)}
    (answers : ∀ id cache, ask id ⟨visiting, cache⟩ =
      some (answered visiting (ContractCache.resolve d visiting id cache)))
    (members : List SymbolId) (outer : Contract) (cache : ContractCache) :
    mergeAsked ask members outer ⟨visiting, cache⟩ =
      some (answered visiting (ContractCache.mergeResolved d visiting members outer cache)) := by
  induction members generalizing outer cache with
  | nil =>
    unfold ContractCache.mergeResolved
    rfl
  | cons id rest ih =>
    rw [mergeAsked, answers, ContractCache.mergeResolved]
    exact ih _ _

theorem build_eq {ask : SymbolId → BuildState → Option (Contract × BuildState)}
    {id : SymbolId} {s : Symbol}
    (answers : ∀ i cache, ask i ⟨visiting, cache⟩ =
      some (answered visiting (ContractCache.resolve d visiting i cache)))
    (hs : d.table.get? id = some s) (cache : ContractCache) :
    build d ask id ⟨visiting, cache⟩ =
      some (answered visiting (ContractCache.assemble d visiting id s cache)) := by
  let outer := ContractCache.mergeLayers d .empty (d.scopes id).1 cache
  have merged := mergeAsked_eq answers (s.implements.filter (· ≠ id)) outer.1 outer.2
  unfold build
  rw [hs]
  show (mergeAsked ask (s.implements.filter (· ≠ id)) outer.1 ⟨visiting, outer.2⟩).bind _ = _
  rw [merged]
  rfl

/-- Each level takes a symbol of the table that was not on the stack, and one more
finds that there is none. -/
theorem resolveWithin_eq (d : Declarations) {depth : Nat}
    (enough : d.table.unvisited visiting < depth) (id : SymbolId) (cache : ContractCache) :
    resolveWithin d depth id ⟨visiting, cache⟩ =
      some (answered visiting (ContractCache.resolve d visiting id cache)) := by
  induction depth generalizing visiting id cache with
  | zero => exact absurd enough (Nat.not_lt_zero _)
  | succ depth ih =>
    rw [resolveWithin]
    dsimp only
    cases hcache : cache.get? id with
    | some contract => rw [ContractCache.resolve_of_remembered hcache]; rfl
    | none =>
      by_cases hid : id ∈ visiting
      · rw [ContractCache.resolve_of_visiting hcache hid, if_pos hid]
        rfl
      · rw [if_neg hid]
        cases hs : d.table.get? id with
        | none =>
          rw [ContractCache.resolve_of_unknown hcache hid hs, build, hs]
          simp only [Option.bind_eq_bind, Option.bind_some, List.tail_cons, hcache]
          rfl
        | some s =>
          have fewer := SymbolTable.unvisited_cons_lt hs hid
          have built : build d (resolveWithin d depth) id ⟨id :: visiting, cache⟩ =
              some (answered (id :: visiting)
                (ContractCache.assemble d (id :: visiting) id s cache)) :=
            build_eq (fun i cache => ih (by omega) i cache) hs cache
          have unknown := ContractCache.get?_assemble_self d visiting s hcache
          rw [ContractCache.resolve_of_symbol hcache hid hs, built]
          simp only [Option.bind_eq_bind, Option.bind_some, answered, List.tail_cons, unknown]
          rfl

end BuildState

/-- Whatever the table and the cache, a contract is built with questions nested no deeper than there
are symbols that are not being built, and one more, and the stack is as it was. The contract is
remembered; besides it only those of members that the symbol implements in some steps are; and what
was known stays. The chain of scopes of a symbol ends too. It has no scope twice nor the symbol
itself, each is the scope of the one before, and it ends only where there is none left. -/
theorem contract_building_ends (d : Declarations) (id : SymbolId) (cache : ContractCache) :
    let after := (cache.contract d id).2
    let chain := d.table.scopeChain id
    (∀ visiting depth, d.table.unvisited visiting < depth →
      BuildState.resolveWithin d depth id ⟨visiting, cache⟩ =
        some ((ContractCache.resolve d visiting id cache).1,
          ⟨visiting, (ContractCache.resolve d visiting id cache).2⟩)) ∧
    (after.get? id = some (cache.contract d id).1 ∧
      (∀ i c, after.get? i = some c → cache.get? i = some c ∨ ReflTransGen d.Implements i id) ∧
      (∀ i c, cache.get? i = some c → after.get? i = some c) ∧
      ∀ (i : SymbolId) known, cache.attributes[i]? = some known →
        after.attributes[i]? = some known) ∧
    (∀ rounds, d.table.unvisited [id] < rounds →
      d.table.collectScopes id rounds [] (d.table.scope? id) = some chain) ∧
    chain.Nodup ∧ id ∉ chain ∧
    (id :: chain).IsChain (fun inner outer => d.table.scope? inner = some outer) ∧
    ∀ last ∈ (id :: chain).getLast?, ∀ next, d.table.scope? last = some next →
      next ∈ id :: chain := by
  intro after chain
  have steps := ContractCache.resolve_steps [] id cache (Set.Subset.refl (d.needs id))
  have climbs := d.table.scopeChain_climbs id
  refine ⟨fun visiting depth enough => BuildState.resolveWithin_eq d enough id cache,
    ⟨ContractCache.get?_contract, fun i c => ContractCache.get?_of_steps steps,
      fun i c => ContractCache.get?_contract_of_get?, fun i known =>
      ContractCache.attributes_of_steps steps⟩,
    fun rounds enough => ?_, climbs.nodup, fun hmem =>
    climbs.new id hmem List.mem_cons_self, climbs.linked,
    fun last hlast next hnext => ?_⟩
  · have none : ∀ i, i ∈ [id] ↔ i ∈ ([] : List SymbolId) ∨ i = id := fun i => by simp
    exact d.table.collectScopes_eq id enough none (d.table.scope? id)
  · rw [List.mem_cons, ← List.mem_singleton]
    exact climbs.complete last hlast next hnext

/-- Two members that implement each other, one of them also itself and a symbol that is not there;
it is declared twice. Their types contain each other. -/
def knotSymbols : List Symbol :=
  [{ id := ⟨1⟩, name := "Draw", kind := .method, containing := some ⟨3⟩, implements := [⟨2⟩] },
    { id := ⟨1⟩, name := "Draw", kind := .method, containing := some ⟨3⟩,
      implements := [⟨1⟩, ⟨2⟩, ⟨9⟩] },
    { id := ⟨2⟩, name := "Fill", kind := .method, containing := some ⟨4⟩, implements := [⟨1⟩] },
    { id := ⟨3⟩, name := "Lib.Circle", kind := .type, containing := some ⟨4⟩ },
    { id := ⟨4⟩, name := "Lib.Shape", kind := .type, containing := some ⟨3⟩ }]

def knots : Declarations := ⟨.ofSymbols knotSymbols, {}⟩

/-- With one contract known and a symbol on the stack. -/
theorem contract_building_ends_knots :
    let cache := ContractCache.empty.remember ⟨9⟩ .empty
    (∃ depth contract after, BuildState.resolveWithin knots depth ⟨1⟩ ⟨[⟨4⟩], cache⟩ =
      some (contract, ⟨[⟨4⟩], after⟩)) ∧
    (cache.contract knots ⟨1⟩).2.get? ⟨9⟩ = some .empty ∧
    (∀ c, (cache.contract knots ⟨1⟩).2.get? ⟨3⟩ = some c → ReflTransGen knots.Implements ⟨3⟩ ⟨1⟩) ∧
    ∃ rounds, knots.table.collectScopes ⟨1⟩ rounds [] (knots.table.scope? ⟨1⟩) =
      some (knots.table.scopeChain ⟨1⟩) := by
  intro cache
  obtain ⟨ends, ⟨-, added, kept, -⟩, collected, -⟩ := contract_building_ends knots ⟨1⟩ cache
  refine ⟨⟨_, _, _, ends [⟨4⟩] _ (Nat.lt_succ_self _)⟩, kept ⟨9⟩ .empty ?_, fun c hc =>
    (added ⟨3⟩ c hc).resolve_left ?_,
    _, collected _ (Nat.lt_succ_self _)⟩
  · rw [ContractCache.get?_remember, if_pos rfl]
  · rw [ContractCache.get?_remember, if_neg (by decide)]
    simp [ContractCache.empty, ContractCache.get?]

end PlatformGuard
