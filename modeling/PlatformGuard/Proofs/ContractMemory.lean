import PlatformGuard.Contract.Cache

/-!
# What the contract cache remembers

A contract that was built stays as it is, and one that was asked for is remembered
(`ContractCache.get?_contract`). While the contract of a symbol is being built, nothing is
remembered for it: a member met again says nothing there, and this answer is not kept.
-/

namespace PlatformGuard.ContractCache

/-- One cache came from another while the contracts of `visiting` were being built. -/
structure Grows (visiting : List SymbolId) (before after : ContractCache) : Prop where
  kept : ∀ id contract, before.get? id = some contract → after.get? id = some contract
  untouched : ∀ id ∈ visiting, after.get? id = before.get? id

variable {d : Declarations} {visiting : List SymbolId} {id : SymbolId}
    {cache cache' : ContractCache}

theorem Grows.refl : Grows visiting cache cache := ⟨fun _ _ => id, fun _ _ => rfl⟩

theorem Grows.trans {cache'' : ContractCache} (h : Grows visiting cache cache')
    (h' : Grows visiting cache' cache'') :
    Grows visiting cache cache'' :=
  ⟨fun id contract hget => h'.kept id contract (h.kept id contract hget),
    fun id hid => (h'.untouched id hid).trans (h.untouched id hid)⟩

theorem get?_remember {contract : Contract} {i : SymbolId} :
    (cache.remember id contract).get? i = if id = i then some contract else cache.get? i := by
  simp [remember, get?, Std.HashMap.getElem?_insert]

theorem attributes_rememberAttributes {declared : Declared} {i : SymbolId} :
    (cache.rememberAttributes id declared).attributes[i]? =
      if id = i then some declared else cache.attributes[i]? := by
  simp [rememberAttributes, Std.HashMap.getElem?_insert]

theorem Grows.of_get?_eq (h : ∀ i, cache'.get? i = cache.get? i) : Grows visiting cache cache' :=
  ⟨fun i _ hget => (h i).trans hget, fun i _ => h i⟩

theorem get?_declared {i : SymbolId} : (cache.declared d id).2.get? i = cache.get? i := by
  unfold declared
  split <;> rfl

/-- To read attributes builds no contract. -/
theorem get?_mergeLayers {c : Contract} {scopes : List SymbolId} {i : SymbolId} :
    (mergeLayers d c scopes cache).2.get? i = cache.get? i := by
  induction scopes generalizing c cache with
  | nil => rfl
  | cons scope rest ih => exact ih.trans get?_declared

/-- To remember what was not there, for a symbol that is not being built. -/
theorem Grows.remember {contract : Contract} (h : Grows (id :: visiting) cache cache')
    (hnone : cache.get? id = none) (hid : id ∉ visiting) :
    Grows visiting cache (cache'.remember id contract) := by
  constructor
  · intro i c hget
    have hne : id ≠ i := by
      rintro rfl
      rw [hnone] at hget
      exact absurd hget (by simp)
    rw [get?_remember, if_neg hne]
    exact h.kept i c hget
  · intro i hi
    have hne : id ≠ i := fun heq => hid (heq ▸ hi)
    rw [get?_remember, if_neg hne]
    exact h.untouched i (List.mem_cons_of_mem _ hi)

mutual
theorem resolve_grows (d : Declarations) (visiting : List SymbolId) (id : SymbolId)
    (cache : ContractCache) :
    Grows visiting cache (resolve d visiting id cache).2 ∧
      (id ∉ visiting → (resolve d visiting id cache).2.get? id =
        some (resolve d visiting id cache).1) := by
  unfold resolve
  split
  case h_1 contract hget => exact ⟨.refl, fun _ => hget⟩
  case h_2 hnone =>
    split
    case isTrue hid => exact ⟨.refl, fun h => absurd hid h⟩
    case isFalse hid =>
      split
      case h_1 => exact ⟨Grows.refl.remember hnone hid, fun _ => by simp [get?_remember]⟩
      case h_2 s hs =>
        have outer : Grows (id :: visiting) cache (mergeLayers d .empty (d.scopes id).1 cache).2 :=
          .of_get?_eq fun _ => get?_mergeLayers
        have implemented :=
          mergeResolved_grows d (id :: visiting) (s.implements.filter fun i => decide (i ≠ id))
          (mergeLayers d .empty (d.scopes id).1 cache).1
            (mergeLayers d .empty (d.scopes id).1 cache).2
        refine ⟨((outer.trans implemented).trans (.of_get?_eq fun _ => get?_mergeLayers)).remember
          hnone hid, fun _ => ?_⟩
        simp [get?_remember]
termination_by (d.table.unvisited visiting, 0)
decreasing_by exact Prod.Lex.left _ _ (SymbolTable.unvisited_cons_lt ‹_› ‹_›)

theorem mergeResolved_grows (d : Declarations) (visiting ids : List SymbolId) (outer : Contract)
    (cache : ContractCache) :
    Grows visiting cache (mergeResolved d visiting ids outer cache).2 := by
  match ids with
  | [] =>
    unfold mergeResolved
    exact .refl
  | id :: rest =>
    unfold mergeResolved
    exact (resolve_grows d visiting id cache).1.trans (mergeResolved_grows d visiting rest _ _)
termination_by (d.table.unvisited visiting, ids.length + 1)
end

/-! ## The cases of a question -/

/-- Merges all that the contract of a symbol is made of, while those of `visiting` are being
built. -/
def assemble (d : Declarations) (visiting : List SymbolId) (id : SymbolId) (s : Symbol)
    (cache : ContractCache) :
    Contract × ContractCache :=
  let (outer, cache) := mergeLayers d .empty (d.scopes id).1 cache
  let (merged, cache) := mergeResolved d visiting (s.implements.filter (· ≠ id)) outer cache
  mergeLayers d merged ((d.scopes id).2 ++ s.associated.toList ++ [id]) cache

theorem resolve_of_remembered {contract : Contract} (h : cache.get? id = some contract) :
    resolve d visiting id cache = (contract, cache) := by
  rw [resolve, h]

/-- A member met again says nothing. -/
theorem resolve_of_visiting (h : cache.get? id = none) (hid : id ∈ visiting) :
    resolve d visiting id cache = (.empty, cache) := by
  rw [resolve, h]
  exact dif_pos hid

theorem resolve_of_unknown (h : cache.get? id = none) (hid : id ∉ visiting)
    (hs : d.table.get? id = none) :
    resolve d visiting id cache = (.empty, cache.remember id .empty) := by
  rw [resolve, h]
  dsimp only
  rw [dif_neg hid]
  split
  case h_1 => rfl
  case h_2 s hs' => rw [hs] at hs'; cases hs'

theorem resolve_of_symbol {s : Symbol} (h : cache.get? id = none) (hid : id ∉ visiting)
    (hs : d.table.get? id = some s) :
    resolve d visiting id cache = ((assemble d (id :: visiting) id s cache).1,
      (assemble d (id :: visiting) id s cache).2.remember id
        (assemble d (id :: visiting) id s cache).1) := by
  rw [resolve, h]
  dsimp only
  rw [dif_neg hid]
  split
  case h_1 hs' => rw [hs] at hs'; cases hs'
  case h_2 s' hs' =>
    obtain rfl := Option.some.inj (hs.symm.trans hs')
    rfl

/-- Nothing is remembered for a symbol while its contract is put together. -/
theorem get?_assemble_self (d : Declarations) (visiting : List SymbolId) (s : Symbol)
    (h : cache.get? id = none) :
    (assemble d (id :: visiting) id s cache).2.get? id = none := by
  have members := mergeResolved_grows d (id :: visiting) (s.implements.filter (· ≠ id))
    (mergeLayers d .empty (d.scopes id).1 cache).1 (mergeLayers d .empty (d.scopes id).1 cache).2
  calc (assemble d (id :: visiting) id s cache).2.get? id
    _ = _ := get?_mergeLayers
    _ = _ := members.untouched id List.mem_cons_self
    _ = cache.get? id := get?_mergeLayers
    _ = none := h

/-! ## What is known later -/

/-- What was built stays. -/
theorem get?_contract_of_get? {i : SymbolId} {c : Contract} (h : cache.get? i = some c) :
    (cache.contract d id).2.get? i = some c :=
  (resolve_grows d [] id cache).1.kept i c h

/-- What was asked for is remembered. -/
theorem get?_contract : (cache.contract d id).2.get? id = some (cache.contract d id).1 :=
  (resolve_grows d [] id cache).2 List.not_mem_nil

/-- What is remembered is answered. -/
theorem contract_of_get? {c : Contract} (h : cache.get? id = some c) :
    (cache.contract d id).1 = c := by
  rw [contract, resolve, h]

/-- The contracts remembered are those given. -/
def Agrees (cache : ContractCache) (contractOf : SymbolId → Contract) : Prop :=
  ∀ id contract, cache.get? id = some contract → contractOf id = contract

def contractOf (cache : ContractCache) (d : Declarations) (id : SymbolId) : Contract :=
  (cache.contract d id).1

theorem agrees_contractOf (cache : ContractCache) (d : Declarations) :
    cache.Agrees (cache.contractOf d) :=
  fun _ _ h => contract_of_get? h

end PlatformGuard.ContractCache
