import Mathlib.Data.Fintype.EquivFin
import Mathlib.Logic.Relation
import PlatformGuard.Proofs.ContractMemory

/-!
# Contracts without a cache

The contract of a symbol merges layers from outside in: of the scopes around it, which contain one
another (`SymbolTable.Climbs`), and of the symbol; and the contracts of the interface members it
implements are among them. Where no members implement each other in a circle, this is a definition
by recursion (`Declarations.ImplementsAcyclic.exists_contracts`). It says nothing of a cache, nor of
members that are being built.

The cache cuts the recursion short in two places: at what it remembers, and at a member met again on
the way down. The second never happens here, for all that is being built implements, in some steps,
what is asked for. So nothing is ever remembered but the contracts that the recursion gives
(`ContractCache.resolve_faithful`), and whatever was asked before, the answers are the same
(`answers_independent_of_history`).
-/

namespace PlatformGuard

open Relation

/-! ## Scopes -/

namespace SymbolTable

variable {t : SymbolTable} {visited chain chain' : List SymbolId} {start next : SymbolId}

def scope? (t : SymbolTable) (id : SymbolId) : Option SymbolId :=
  (t.get? id).bind (·.containing)

/-- A chain leads from a symbol outwards, each time to the scope of the one before, by
symbols that were not visited and are met once. It ends only where there is no further
scope that was not visited. -/
structure Climbs (t : SymbolTable) (visited : List SymbolId) (start : SymbolId)
    (chain : List SymbolId) : Prop where
  nodup : chain.Nodup
  new : ∀ i ∈ chain, i ∉ visited
  linked : (start :: chain).IsChain fun inner outer => t.scope? inner = some outer
  complete : ∀ last ∈ (start :: chain).getLast?, ∀ next, t.scope? last = some next →
    next ∈ visited ∨ next ∈ chain

theorem climbs_nil (h : ∀ next, t.scope? start = some next → next ∈ visited) :
    t.Climbs visited start [] where
  nodup := List.nodup_nil
  new _ hi := absurd hi List.not_mem_nil
  linked := .singleton start
  complete := by
    rintro last ⟨⟩ next hnext
    exact .inl (h next hnext)

theorem Climbs.cons (h : t.Climbs (next :: visited) next chain)
    (hscope : t.scope? start = some next) (hnew : next ∉ visited) :
    t.Climbs visited start (next :: chain) where
  nodup := List.nodup_cons.2 ⟨fun hmem => h.new next hmem List.mem_cons_self, h.nodup⟩
  new := List.forall_mem_cons.2
    ⟨hnew, fun i hi hvisited => h.new i hi (List.mem_cons_of_mem _ hvisited)⟩
  linked := .cons_cons hscope h.linked
  complete last hlast outer houter := by
    rw [List.getLast?_cons_cons] at hlast
    rcases h.complete last hlast outer houter with hmem | hmem
    · rcases List.mem_cons.1 hmem with rfl | hmem
      · exact .inr List.mem_cons_self
      · exact .inl hmem
    · exact .inr (List.mem_cons_of_mem _ hmem)

theorem scopesFrom_climbs (t : SymbolTable) (visited : List SymbolId) (next : Option SymbolId) :
    ∀ start, t.scope? start = next → t.Climbs visited start (t.scopesFrom visited next) := by
  fun_induction t.scopesFrom visited next with
  | case1 visited =>
    intro start hscope
    exact climbs_nil fun next hnext => by rw [hscope] at hnext; cases hnext
  | case2 visited id hmem =>
    intro start hscope
    exact climbs_nil fun next hnext => Option.some.inj (hscope.symm.trans hnext) ▸ hmem
  | case3 visited id hmem hget =>
    intro start hscope
    refine Climbs.cons (climbs_nil fun next hnext => ?_) hscope hmem
    rw [scope?, hget] at hnext
    cases hnext
  | case4 visited id hmem s hget ih =>
    intro start hscope
    exact (ih id (by rw [scope?, hget]; rfl)).cons hscope hmem

theorem scopeChain_climbs (t : SymbolTable) (id : SymbolId) : t.Climbs [id] id (t.scopeChain id) :=
  t.scopesFrom_climbs [id] (t.scope? id) id rfl

theorem Climbs.tail (h : t.Climbs visited start (next :: chain)) :
    t.scope? start = some next ∧ next ∉ visited ∧ t.Climbs (next :: visited) next chain := by
  obtain ⟨hscope, linked⟩ := List.isChain_cons_cons.1 h.linked
  obtain ⟨once, nodup⟩ := List.nodup_cons.1 h.nodup
  refine ⟨hscope, h.new next List.mem_cons_self, nodup, fun i hi => ?_, linked,
    fun last hlast outer houter => ?_⟩
  · rw [List.mem_cons, not_or]
    exact ⟨fun heq => once (heq ▸ hi), h.new i (List.mem_cons_of_mem _ hi)⟩
  · rw [List.mem_cons, or_right_comm, ← List.mem_cons, or_comm]
    exact h.complete last (by rwa [List.getLast?_cons_cons]) outer houter

theorem Climbs.unique (h : t.Climbs visited start chain) (h' : t.Climbs visited start chain') :
    chain' = chain := by
  -- a chain that ends has no further scope, so the other one ends there too
  have ends : ∀ {start visited next rest}, t.Climbs visited start [] →
      ¬ t.Climbs visited start (next :: rest) := by
    intro start visited next rest hnil hcons
    obtain ⟨hscope, hnew, -⟩ := hcons.tail
    rcases hnil.complete start rfl next hscope with hvisited | hmem
    · exact hnew hvisited
    · exact absurd hmem List.not_mem_nil
  induction chain generalizing visited start chain' with
  | nil =>
    cases chain' with
    | nil => rfl
    | cons next rest => exact absurd h' (ends h)
  | cons next rest ih =>
    cases chain' with
    | nil => exact absurd h (ends h')
    | cons next' rest' =>
      obtain ⟨hscope, -, htail⟩ := h.tail
      obtain ⟨hscope', -, htail'⟩ := h'.tail
      obtain rfl := Option.some.inj (hscope.symm.trans hscope')
      rw [ih htail htail']

end SymbolTable

namespace Declarations

variable {d : Declarations}

/-! ## The recursion -/

/-- A symbol implements an interface member other than itself. -/
def Implements (d : Declarations) (member id : SymbolId) : Prop :=
  ∃ s, d.table.get? id = some s ∧ member ∈ s.implements ∧ member ≠ id

/-- No members implement each other in a circle. -/
def ImplementsAcyclic (d : Declarations) : Prop := ∀ id, ¬ TransGen d.Implements id id

/-- How many of the scopes around a symbol, the nearest first, are an assembly at the outside: one
or none. -/
def assemblyScopes (d : Declarations) (scopes : List SymbolId) : Nat :=
  if (scopes.getLast?.bind d.table.get?).map (·.kind) = some .assembly then 1 else 0

/-- The layers that the contract of a symbol merges, from outside in: the assembly, the contracts of
the members it implements, the other scopes, the property or event it belongs to, and its own. An
unknown symbol has none. -/
def layersOf (d : Declarations) (scopes : List SymbolId) (contractOf : SymbolId → Contract)
    (id : SymbolId) : List Contract :=
  match d.table.get? id with
  | none => []
  | some s =>
    let assemblies := d.assemblyScopes scopes
    (scopes.reverse.take assemblies).map d.layer ++
      (s.implements.filter (· ≠ id)).map contractOf ++
      (scopes.reverse.drop assemblies).map d.layer ++
      s.associated.toList.map d.layer ++ [d.layer id]

/-- Each contract is the merge of the layers of its symbol, with the scopes that contain it in some
steps. -/
def IsContractOf (d : Declarations) (contractOf : SymbolId → Contract) : Prop :=
  ∀ id, ∃ scopes, d.table.Climbs [id] id scopes ∧
    contractOf id = (d.layersOf scopes contractOf id).foldl Contract.mergeChild .empty

theorem layersOf_congr {scopes : List SymbolId} {contractOf contractOf' : SymbolId → Contract}
    {id : SymbolId}
    (h : ∀ member, d.Implements member id → contractOf member = contractOf' member) :
    d.layersOf scopes contractOf id = d.layersOf scopes contractOf' id := by
  unfold layersOf
  cases hs : d.table.get? id with
  | none => rfl
  | some s =>
    have same : (s.implements.filter (· ≠ id)).map contractOf =
        (s.implements.filter (· ≠ id)).map contractOf' := by
      refine List.map_congr_left fun member hmember => h member ?_
      obtain ⟨hmem, hne⟩ := List.mem_filter.1 hmember
      exact ⟨s, hs, hmem, of_decide_eq_true hne⟩
    simp only [same]

instance : Finite SymbolId :=
  Finite.of_injective (fun id => id.val.toFin) fun a b h => by
    cases a
    cases b
    simpa [UInt32.toFin_inj] using h

/-- There are finitely many symbols, so that without circles the recursion ends. -/
theorem ImplementsAcyclic.wellFounded (acyclic : d.ImplementsAcyclic) :
    WellFounded d.Implements := by
  have irreflexive : Std.Irrefl (TransGen d.Implements) := ⟨acyclic⟩
  exact Subrelation.wf TransGen.single
    (Finite.wellFounded_of_trans_of_irrefl (TransGen d.Implements))

theorem ImplementsAcyclic.exists_contracts (acyclic : d.ImplementsAcyclic) :
    ∃ contractOf, d.IsContractOf contractOf := by
  classical
  let step (id : SymbolId) (known : (member : SymbolId) → d.Implements member id → Contract) :=
    (d.layersOf (d.table.scopeChain id)
      (fun member => if h : d.Implements member id then known member h else .empty) id).foldl
      Contract.mergeChild .empty
  refine ⟨acyclic.wellFounded.fix step, fun id => ⟨_, d.table.scopeChain_climbs id, ?_⟩⟩
  rw [acyclic.wellFounded.fix_eq]
  refine congrArg (List.foldl Contract.mergeChild .empty) (layersOf_congr fun member h => ?_)
  rw [dif_pos h]

theorem IsContractOf.eq {contractOf : SymbolId → Contract} (recursion : d.IsContractOf contractOf)
    {id : SymbolId} {scopes : List SymbolId} (climbs : d.table.Climbs [id] id scopes) :
    contractOf id = (d.layersOf scopes contractOf id).foldl Contract.mergeChild .empty := by
  obtain ⟨scopes', climbs', heq⟩ := recursion id
  rwa [climbs.unique climbs'] at heq

theorem ImplementsAcyclic.unique (acyclic : d.ImplementsAcyclic)
    {contractOf contractOf' : SymbolId → Contract} (h : d.IsContractOf contractOf)
    (h' : d.IsContractOf contractOf') : contractOf' = contractOf := by
  funext id
  induction id using acyclic.wellFounded.induction with
  | _ id ih =>
    have climbs := d.table.scopeChain_climbs id
    rw [h.eq climbs, h'.eq climbs, layersOf_congr ih]

/-- A member is below what implements it, and below all that is being built around that. -/
theorem below_of_mem_implements {id : SymbolId} {s : Symbol} {visiting : List SymbolId}
    (hs : d.table.get? id = some s) (below : ∀ v ∈ visiting, TransGen d.Implements id v) :
    ∀ member ∈ s.implements.filter (· ≠ id), ∀ v ∈ id :: visiting,
    TransGen d.Implements member v := by
  intro member hmember v hv
  obtain ⟨hmem, hne⟩ := List.mem_filter.1 hmember
  have first : TransGen d.Implements member id := .single ⟨s, hs, hmem, of_decide_eq_true hne⟩
  rcases List.mem_cons.1 hv with rfl | hv
  · exact first
  · exact first.trans (below v hv)

theorem scopes_eq (d : Declarations) (id : SymbolId) :
    d.scopes id =
      ((d.table.scopeChain id).reverse.take (d.assemblyScopes (d.table.scopeChain id)),
        (d.table.scopeChain id).reverse.drop (d.assemblyScopes (d.table.scopeChain id))) := by
  unfold scopes assemblyScopes
  rw [List.getLast?_eq_head?_reverse]
  cases (d.table.scopeChain id).reverse with
  | nil => simp
  | cons outermost rest =>
    by_cases hkind : (d.table.get? outermost).map (·.kind) = some .assembly <;> simp [hkind]

/-- A symbol that stands in no scope, belongs to nothing and implements nothing has its own layer
only. -/
theorem IsContractOf.eq_layer {contractOf : SymbolId → Contract} {id : SymbolId} {s : Symbol}
    (recursion : d.IsContractOf contractOf) (hs : d.table.get? id = some s)
    (top : s.containing = none) (plain : s.associated = none) (himplements : s.implements = []) :
    contractOf id = Contract.empty.mergeChild (d.layer id) := by
  have alone : d.table.Climbs [id] id [] := SymbolTable.climbs_nil fun next hnext => by
    rw [SymbolTable.scope?, hs, Option.bind_some, top] at hnext
    cases hnext
  rw [recursion.eq alone, layersOf, hs]
  simp [plain, himplements]

theorem implementsAcyclic_of_nil (h : ∀ id s, d.table.get? id = some s → s.implements = []) :
    d.ImplementsAcyclic := by
  have nothing : ∀ {member id}, ¬ d.Implements member id := by
    rintro member id ⟨s, hs, hmem, -⟩
    rw [h id s hs] at hmem
    cases hmem
  intro id hcircle
  obtain ⟨_, _, hlast⟩ := TransGen.tail'_iff.1 hcircle
  exact nothing hlast

theorem IsContractOf.eq_empty {contractOf : SymbolId → Contract} {id : SymbolId}
    (recursion : d.IsContractOf contractOf) (hunknown : d.table.get? id = none) :
    contractOf id = .empty := by
  rw [recursion.eq (d.table.scopeChain_climbs id), layersOf, hunknown]
  rfl

/-- The merge of all layers in three parts, as contracts are built. -/
theorem IsContractOf.eq_merge {contractOf : SymbolId → Contract} {id : SymbolId} {s : Symbol}
    (recursion : d.IsContractOf contractOf) (hs : d.table.get? id = some s) :
    contractOf id =
      (((d.scopes id).2 ++ s.associated.toList ++ [id]).map d.layer).foldl Contract.mergeChild
      (((s.implements.filter (· ≠ id)).map contractOf).foldl Contract.mergeChild
        (((d.scopes id).1.map d.layer).foldl Contract.mergeChild .empty)) := by
  rw [recursion.eq (d.table.scopeChain_climbs id), layersOf, hs, scopes_eq]
  simp only [List.foldl_append, List.map_append, List.map_cons, List.map_nil]

end Declarations

namespace ContractCache

variable {d : Declarations} {contractOf : SymbolId → Contract} {cache : ContractCache}

/-! ## Nothing else is remembered -/

/-- A cache remembers what the attributes say and the contracts given, and nothing else. -/
structure Faithful (d : Declarations) (contractOf : SymbolId → Contract) (cache : ContractCache) :
    Prop where
  attributes : ∀ id known, cache.attributes[id]? = some known → d.declared id = known
  contracts : cache.Agrees contractOf

theorem faithful_empty : Faithful d contractOf .empty :=
  ⟨fun _ _ h => absurd h (by simp [empty]), fun _ _ h => absurd h (by simp [empty, get?])⟩

theorem Faithful.remember (h : Faithful d contractOf cache) (id : SymbolId) :
    Faithful d contractOf (cache.remember id (contractOf id)) := by
  refine ⟨h.attributes, fun i contract hget => ?_⟩
  rw [get?_remember] at hget
  split at hget
  case isTrue heq =>
    subst heq
    exact Option.some.inj hget
  case isFalse => exact h.contracts i contract hget

theorem Faithful.declared (h : Faithful d contractOf cache) (id : SymbolId) :
    (cache.declared d id).1 = d.declared id ∧ Faithful d contractOf (cache.declared d id).2 := by
  unfold ContractCache.declared
  split
  case h_1 known hget => exact ⟨(h.attributes id known hget).symm, h⟩
  case h_2 =>
    refine ⟨rfl, fun i known hget => ?_, h.contracts⟩
    rw [attributes_rememberAttributes] at hget
    split at hget
    case isTrue heq =>
      rw [← heq]
      exact Option.some.inj hget
    case isFalse => exact h.attributes i known hget

theorem Faithful.mergeLayers (h : Faithful d contractOf cache) (c : Contract)
    (scopes : List SymbolId) :
    (mergeLayers d c scopes cache).1 = (scopes.map d.layer).foldl Contract.mergeChild c ∧
      Faithful d contractOf (mergeLayers d c scopes cache).2 := by
  induction scopes generalizing c cache with
  | nil => exact ⟨rfl, h⟩
  | cons scope rest ih =>
    obtain ⟨hdeclared, hkept⟩ := h.declared scope
    unfold ContractCache.mergeLayers
    dsimp only
    rw [hdeclared]
    exact ih hkept _

mutual
/-- What is asked for while symbols are being built that implement it, in some steps, is the
contract of the recursion. -/
theorem resolve_faithful (acyclic : d.ImplementsAcyclic) (recursion : d.IsContractOf contractOf)
    (visiting : List SymbolId) (id : SymbolId) (cache : ContractCache)
    (below : ∀ v ∈ visiting, TransGen d.Implements id v) (h : Faithful d contractOf cache) :
    (resolve d visiting id cache).1 = contractOf id ∧
    Faithful d contractOf (resolve d visiting id cache).2 := by
  have fresh : id ∉ visiting := fun hmem => acyclic id (below id hmem)
  unfold resolve
  split
  case h_1 contract hget => exact ⟨(h.contracts id contract hget).symm, h⟩
  case h_2 =>
    rw [dif_neg fresh]
    split
    case h_1 hunknown =>
      rw [← recursion.eq_empty hunknown]
      exact ⟨rfl, h.remember id⟩
    case h_2 s hs =>
      let members := s.implements.filter (· ≠ id)
      let outer := mergeLayers d .empty (d.scopes id).1 cache
      let merged := mergeResolved d (id :: visiting) members outer.1 outer.2
      let inner := mergeLayers d merged.1 ((d.scopes id).2 ++ s.associated.toList ++ [id]) merged.2
      have below' : ∀ member ∈ members, ∀ v ∈ id :: visiting, TransGen d.Implements member v :=
        Declarations.below_of_mem_implements hs below
      obtain ⟨houter, h⟩ := h.mergeLayers .empty (d.scopes id).1
      obtain ⟨hmerged, h⟩ :=
        mergeResolved_faithful acyclic recursion (id :: visiting) members outer.1 outer.2 below' h
      obtain ⟨hinner, h⟩ := h.mergeLayers merged.1 ((d.scopes id).2 ++ s.associated.toList ++ [id])
      have built : inner.1 = contractOf id := by
        rw [recursion.eq_merge hs, ← houter, ← hmerged]
        exact hinner
      show inner.1 = contractOf id ∧ Faithful d contractOf (inner.2.remember id inner.1)
      rw [built]
      exact ⟨rfl, h.remember id⟩
termination_by (d.table.unvisited visiting, 0)
decreasing_by exact Prod.Lex.left _ _ (SymbolTable.unvisited_cons_lt ‹_› ‹_›)

theorem mergeResolved_faithful (acyclic : d.ImplementsAcyclic)
    (recursion : d.IsContractOf contractOf) (visiting ids : List SymbolId) (outer : Contract)
    (cache : ContractCache) (below : ∀ id ∈ ids, ∀ v ∈ visiting, TransGen d.Implements id v)
    (h : Faithful d contractOf cache) :
    (mergeResolved d visiting ids outer cache).1 =
      (ids.map contractOf).foldl Contract.mergeChild outer ∧
      Faithful d contractOf (mergeResolved d visiting ids outer cache).2 := by
  match ids with
  | [] =>
    unfold mergeResolved
    exact ⟨rfl, h⟩
  | id :: rest =>
    obtain ⟨hfirst, hkept⟩ :=
      resolve_faithful acyclic recursion visiting id cache (below id List.mem_cons_self) h
    unfold mergeResolved
    dsimp only
    rw [hfirst]
    exact mergeResolved_faithful acyclic recursion visiting rest _ _
      (fun i hi => below i (List.mem_cons_of_mem _ hi)) hkept
termination_by (d.table.unvisited visiting, ids.length + 1)
end

/-! ## Questions in a row -/

/-- What a cache is asked. -/
inductive Query where
  | contract (id : SymbolId)
  | attributes (id : SymbolId)

inductive Answer where
  | contract (contract : Contract)
  | attributes (declared : Declared)

def answer (d : Declarations) (cache : ContractCache) : Query → Answer × ContractCache
  | .contract id =>
    let (contract, cache) := cache.contract d id
    (.contract contract, cache)
  | .attributes id =>
    let (declared, cache) := cache.declared d id
    (.attributes declared, cache)

def answers (d : Declarations) : List Query → ContractCache → List Answer
  | [], _ => []
  | q :: rest, cache => (cache.answer d q).1 :: answers d rest (cache.answer d q).2

/-- The answer that follows from the declarations alone. -/
def Query.answerBy (d : Declarations) (contractOf : SymbolId → Contract) : Query → Answer
  | .contract id => .contract (contractOf id)
  | .attributes id => .attributes (d.declared id)

theorem Faithful.answer (acyclic : d.ImplementsAcyclic) (recursion : d.IsContractOf contractOf)
    (h : Faithful d contractOf cache) (q : Query) :
    (cache.answer d q).1 = q.answerBy d contractOf ∧
    Faithful d contractOf (cache.answer d q).2 := by
  cases q with
  | contract id =>
    obtain ⟨hcontract, hkept⟩ :=
      resolve_faithful acyclic recursion [] id cache (fun _ hv => absurd hv List.not_mem_nil) h
    exact ⟨congrArg Answer.contract hcontract, hkept⟩
  | attributes id =>
    obtain ⟨hdeclared, hkept⟩ := h.declared id
    exact ⟨congrArg Answer.attributes hdeclared, hkept⟩

theorem Faithful.answers (acyclic : d.ImplementsAcyclic) (recursion : d.IsContractOf contractOf)
    (h : Faithful d contractOf cache) (queries : List Query) :
    ContractCache.answers d queries cache = queries.map (Query.answerBy d contractOf) := by
  induction queries generalizing cache with
  | nil => rfl
  | cons q rest ih =>
    obtain ⟨hanswer, hkept⟩ := h.answer acyclic recursion q
    rw [ContractCache.answers, List.map_cons, hanswer, ih hkept]

end ContractCache

/-- Where no members implement each other in a circle, the recursion over what symbols
implement gives each symbol one contract, and a cache that is asked any questions in any order
answers each of them by it. -/
theorem answers_independent_of_history (d : Declarations) (acyclic : d.ImplementsAcyclic) :
    ∃ contractOf, d.IsContractOf contractOf ∧ (∀ other, d.IsContractOf other → other = contractOf) ∧
      ∀ queries : List ContractCache.Query,
        ContractCache.answers d queries .empty =
          queries.map (ContractCache.Query.answerBy d contractOf) := by
  obtain ⟨contractOf, recursion⟩ := acyclic.exists_contracts
  exact ⟨contractOf, recursion, fun _ => acyclic.unique recursion,
    ContractCache.faithful_empty.answers acyclic recursion⟩

/-- An interface member that names itself, in a type of an assembly, with attributes on all three; a
member that implements it and a symbol that is not there; and one that implements this in turn. The
type around the latter two is its own scope. -/
def shapeSymbols : List Symbol :=
  [{ id := ⟨1⟩, name := "Lib", kind := .assembly
     attributes := [{ kind := .unsupported, platform := "browser" }] },
    { id := ⟨2⟩, name := "Lib.IShape", kind := .type, containing := some ⟨1⟩
      attributes := [{ kind := .supported, platform := "windows" }] },
    { id := ⟨3⟩, name := "Draw", kind := .method, containing := some ⟨2⟩, implements := [⟨3⟩]
      attributes := [{ kind := .obsoleted, platform := "windows" }] },
    { id := ⟨4⟩, name := "Lib.Circle", kind := .type, containing := some ⟨4⟩ },
    { id := ⟨5⟩, name := "Draw", kind := .method, containing := some ⟨4⟩,
      implements := [⟨0⟩, ⟨3⟩] },
    { id := ⟨6⟩, name := "Fill", kind := .method, containing := some ⟨4⟩, implements := [⟨5⟩]
      attributes := [{ kind := .unsupported, platform := "linux" }] }]

def shapes : Declarations := ⟨.ofSymbols shapeSymbols, {}⟩

theorem shapes_implementsAcyclic : shapes.ImplementsAcyclic := by
  -- each member implements only members declared before it
  have listed : ∀ s ∈ shapeSymbols, ∀ member ∈ s.implements,
    member ≠ s.id → member.val < s.id.val := by decide
  have earlier : ∀ {member id : SymbolId}, shapes.Implements member id → member.val < id.val := by
    rintro member id ⟨s, hs, hmem, hne⟩
    rw [shapes, SymbolTable.get?_ofSymbols] at hs
    obtain rfl : s.id = id := by simpa using List.find?_some hs
    exact listed s (List.mem_reverse.1 (List.mem_of_find?_eq_some hs)) member hmem hne
  intro id hcircle
  have decreasing : ∀ {member}, TransGen shapes.Implements member id → member.val < id.val := by
    intro member h
    induction h using TransGen.head_induction_on with
    | single h => exact earlier h
    | head h _ ih => exact UInt32.lt_trans (earlier h) ih
  exact UInt32.lt_irrefl _ (decreasing hcircle)

/-- Not in a browser, by the assembly; on windows only, by the type; and obsolete there. -/
def drawContract : Contract where
  platforms.entries := [(.canonical "browser", { unsupported := some .zero }),
    (.canonical "windows", { supported := some .zero, obsoleted := some ⟨.zero, none, none⟩ })]
  platforms.sorted := by decide

/-- The same, and not on linux. -/
def fillContract : Contract where
  platforms.entries := [(.canonical "browser", { unsupported := some .zero }),
    (.canonical "linux", { unsupported := some .zero }),
    (.canonical "windows", { supported := some .zero, obsoleted := some ⟨.zero, none, none⟩ })]
  platforms.sorted := by decide

theorem shapes_get? (id : SymbolId) :
    shapes.table.get? id = shapeSymbols.reverse.find? (·.id = id) :=
  SymbolTable.get?_ofSymbols _ _

theorem shapes_climbs :
    shapes.table.Climbs [⟨3⟩] ⟨3⟩ [⟨2⟩, ⟨1⟩] ∧ shapes.table.Climbs [⟨5⟩] ⟨5⟩ [⟨4⟩] ∧
      shapes.table.Climbs [⟨6⟩] ⟨6⟩ [⟨4⟩] ∧ shapes.table.Climbs [⟨4⟩] ⟨4⟩ [] := by
  have scope : ∀ id, shapes.table.scope? id =
      (shapeSymbols.reverse.find? (·.id = id)).bind (·.containing) := fun id => by
    rw [SymbolTable.scope?, shapes_get?]
  have circle : ∀ others, shapes.table.Climbs (⟨4⟩ :: others) ⟨4⟩ [] := fun others =>
    SymbolTable.climbs_nil fun next hnext => by
      obtain rfl : ⟨4⟩ = next := Option.some.inj ((scope ⟨4⟩).symm.trans hnext)
      exact List.mem_cons_self
  have lib : shapes.table.Climbs [⟨1⟩, ⟨2⟩, ⟨3⟩] ⟨1⟩ [] :=
    SymbolTable.climbs_nil fun next hnext => by cases (scope ⟨1⟩).symm.trans hnext
  exact ⟨(lib.cons (scope ⟨2⟩) (by decide)).cons (scope ⟨3⟩) (by decide),
    (circle [⟨5⟩]).cons (scope ⟨5⟩) (by decide), (circle [⟨6⟩]).cons (scope ⟨6⟩) (by decide),
    circle []⟩

theorem shapes_layers :
    shapes.layer ⟨1⟩ = .ofEntries [⟨.unsupported, .canonical "browser", .zero, none, none⟩] ∧
    shapes.layer ⟨2⟩ = .ofEntries [⟨.supported, .canonical "windows", .zero, none, none⟩] ∧
    shapes.layer ⟨3⟩ = .ofEntries [⟨.obsoleted, .canonical "windows", .zero, none, none⟩] ∧
    shapes.layer ⟨4⟩ = .empty ∧ shapes.layer ⟨5⟩ = .empty ∧
    shapes.layer ⟨6⟩ = .ofEntries [⟨.unsupported, .canonical "linux", .zero, none, none⟩] := by
  refine ⟨?_, ?_, ?_, ?_, ?_, ?_⟩ <;>
  · rw [Declarations.layer, Declarations.declared, Declared.ofId, shapes_get?]
    rfl

theorem shapes_contracts {contractOf : SymbolId → Contract}
    (recursion : shapes.IsContractOf contractOf) :
    contractOf ⟨3⟩ = drawContract ∧ contractOf ⟨5⟩ = drawContract ∧
      contractOf ⟨6⟩ = fillContract ∧ contractOf ⟨4⟩ = .empty := by
  obtain ⟨draw, circleDraw, fill, type⟩ := shapes_climbs
  obtain ⟨lib, shape, ownDraw, circle, ownCircleDraw, ownFill⟩ := shapes_layers
  have unknown : contractOf ⟨0⟩ = .empty := recursion.eq_empty (shapes_get? _)
  have layers : shapes.layersOf [⟨2⟩, ⟨1⟩] contractOf ⟨3⟩ =
        [shapes.layer ⟨1⟩, shapes.layer ⟨2⟩, shapes.layer ⟨3⟩] ∧
      shapes.layersOf [⟨4⟩] contractOf ⟨5⟩ =
        [contractOf ⟨0⟩, contractOf ⟨3⟩, shapes.layer ⟨4⟩, shapes.layer ⟨5⟩] ∧
      shapes.layersOf [⟨4⟩] contractOf ⟨6⟩ =
        [contractOf ⟨5⟩, shapes.layer ⟨4⟩, shapes.layer ⟨6⟩] ∧
      shapes.layersOf [] contractOf ⟨4⟩ = [shapes.layer ⟨4⟩] := by
    refine ⟨?_, ?_, ?_, ?_⟩ <;>
    · rw [Declarations.layersOf, Declarations.assemblyScopes, funext shapes_get?]
      rfl
  have hdraw : contractOf ⟨3⟩ = drawContract := by
    rw [recursion.eq draw, layers.1, lib, shape, ownDraw]
    rfl
  have hcircleDraw : contractOf ⟨5⟩ = drawContract := by
    rw [recursion.eq circleDraw, layers.2.1, unknown, hdraw, circle, ownCircleDraw]
    rfl
  refine ⟨hdraw, hcircleDraw, ?_, ?_⟩
  · rw [recursion.eq fill, layers.2.2.1, hcircleDraw, circle, ownFill]
    rfl
  · rw [recursion.eq type, layers.2.2.2, circle]
    rfl

theorem answers_independent_of_history_shapes : shapes.ImplementsAcyclic ∧
    ContractCache.answers shapes
        [.contract ⟨6⟩, .attributes ⟨3⟩, .contract ⟨3⟩, .contract ⟨5⟩, .contract ⟨0⟩] .empty =
      [.contract fillContract, .attributes (shapes.declared ⟨3⟩), .contract drawContract,
        .contract drawContract, .contract .empty] := by
  obtain ⟨contractOf, recursion, -, answers⟩ :=
    answers_independent_of_history shapes shapes_implementsAcyclic
  obtain ⟨draw, circleDraw, fill, -⟩ := shapes_contracts recursion
  have unknown : contractOf ⟨0⟩ = .empty := recursion.eq_empty (shapes_get? _)
  refine ⟨shapes_implementsAcyclic, (answers _).trans ?_⟩
  simp only [List.map_cons, List.map_nil, ContractCache.Query.answerBy, draw,
    circleDraw, fill, unknown]

end PlatformGuard
