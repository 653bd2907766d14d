import PlatformGuard.Contract.Declared

/-!
# The contract of a symbol, remembered

The contract of a symbol merges, from outside in: the layer of its assembly, the contracts of the
interface members it implements, the layers of the other scopes around it, the layer of the property
or event it belongs to, and its own layer. Contracts are remembered by id, so that each is built
once; so is what the attributes on a symbol say.

Interface members may implement each other in a circle. A member met again while its contract is
being built counts as saying nothing there.
-/

namespace PlatformGuard

/-- Where declarations come from: the symbols and the platforms that are known. -/
structure Declarations where
  table : SymbolTable
  vocabulary : Vocabulary

namespace Declarations

def declared (d : Declarations) (id : SymbolId) : Declared :=
  .ofId d.table d.vocabulary id

def layer (d : Declarations) (id : SymbolId) : Contract :=
  (d.declared id).layer

/-- The scopes around a symbol from the outermost inwards, split into the assembly, where it is the
outermost, and the rest. -/
def scopes (d : Declarations) (id : SymbolId) : List SymbolId × List SymbolId :=
  match (d.table.scopeChain id).reverse with
  | [] => ([], [])
  | outermost :: rest =>
    if (d.table.get? outermost).map (·.kind) == some .assembly then ([outermost], rest)
    else ([], outermost :: rest)

/-- The findings about attributes, in the order of a report. -/
def attributeDiagnostics (d : Declarations) : List Diagnostic :=
  Diagnostic.sort <| (d.table.toList.filter fun s => !s.attributes.isEmpty).flatMap fun s =>
    (d.declared s.id).diagnostics

end Declarations

/-- What was read and built so far. -/
structure ContractCache where
  /-- What the attributes on each symbol say. -/
  attributes : Std.HashMap SymbolId Declared := {}
  contracts : Std.HashMap SymbolId Contract := {}

namespace ContractCache

def empty : ContractCache := {}

instance : Inhabited ContractCache := ⟨empty⟩

/-- The number of contracts built. -/
def size (c : ContractCache) : Nat := c.contracts.size

def isEmpty (c : ContractCache) : Bool := c.contracts.isEmpty

def get? (c : ContractCache) (id : SymbolId) : Option Contract := c.contracts[id]?

def remember (c : ContractCache) (id : SymbolId) (contract : Contract) : ContractCache :=
  { c with contracts := c.contracts.insert id contract }

def rememberAttributes (c : ContractCache) (id : SymbolId) (declared : Declared) : ContractCache :=
  { c with attributes := c.attributes.insert id declared }

/-- What the attributes on a symbol say. They are read once. -/
def declared (d : Declarations) (id : SymbolId) (cache : ContractCache) :
    Declared × ContractCache :=
  match cache.attributes[id]? with
  | some known => (known, cache)
  | none => (d.declared id, cache.rememberAttributes id (d.declared id))

/-- Merges the layers of scopes from outside in. -/
def mergeLayers (d : Declarations) (c : Contract) :
    List SymbolId → ContractCache → Contract × ContractCache
  | [], cache => (c, cache)
  | scope :: rest, cache =>
    let (declared, cache) := cache.declared d scope
    mergeLayers d (c.mergeChild declared.layer) rest cache

mutual
/-- The contract of a symbol while those of `visiting` are being built. -/
def resolve (d : Declarations) (visiting : List SymbolId) (id : SymbolId) (cache : ContractCache) :
    Contract × ContractCache :=
  match cache.get? id with
  | some contract => (contract, cache)
  | none =>
    if _ : id ∈ visiting then (.empty, cache)
    else
      match _ : d.table.get? id with
      | none => (.empty, cache.remember id .empty)
      | some s =>
        let scopes := d.scopes id
        let (outer, cache) := mergeLayers d .empty scopes.1 cache
        let implemented := s.implements.filter fun i => decide (i ≠ id)
        let (merged, cache) := mergeResolved d (id :: visiting) implemented outer cache
        let (inner, cache) := mergeLayers d merged (scopes.2 ++ s.associated.toList ++ [id]) cache
        (inner, cache.remember id inner)
termination_by (d.table.unvisited visiting, 0)
decreasing_by exact Prod.Lex.left _ _ (SymbolTable.unvisited_cons_lt ‹_› ‹_›)

def mergeResolved (d : Declarations) (visiting : List SymbolId) (ids : List SymbolId)
    (outer : Contract) (cache : ContractCache) : Contract × ContractCache :=
  match ids with
  | [] => (outer, cache)
  | id :: rest =>
    let (contract, cache) := resolve d visiting id cache
    mergeResolved d visiting rest (outer.mergeChild contract) cache
termination_by (d.table.unvisited visiting, ids.length + 1)
end

/-- The contract of a symbol, and the contracts built by then. -/
def contract (d : Declarations) (id : SymbolId) (cache : ContractCache) :
    Contract × ContractCache :=
  resolve d [] id cache

end ContractCache

end PlatformGuard
