import Std.Data.HashMap
import PlatformGuard.Symbol.Basic

/-!
# Symbol tables

All symbols of a compilation, in the order in which they were declared. An id may be declared more
than once; the last declaration counts. Two indices answer queries by id and by the name of a type.

* `SymbolTable.scopeChain`: the scopes around a symbol, from the nearest outwards.
* `SymbolTable.freshId`: an id that no symbol has, as long as there is one.
* `SymbolTable.get?_ofSymbols`, `SymbolTable.findType?_ofSymbols`: a lookup finds the last symbol of
  an id, and the last type of a name.
-/

namespace PlatformGuard

/-- The symbols of a compilation. -/
structure SymbolTable where
  symbols : Array Symbol := #[]
  /-- The place of the last symbol of each id. -/
  byId : Std.HashMap SymbolId Nat := {}
  /-- The id of the last type of each name. -/
  typesByName : Std.HashMap String SymbolId := {}
  /-- One more than the greatest id. -/
  nextId : Nat := 0

namespace SymbolTable

def empty : SymbolTable := {}

instance : Inhabited SymbolTable := ⟨empty⟩

def size (t : SymbolTable) : Nat := t.symbols.size

def isEmpty (t : SymbolTable) : Bool := t.symbols.isEmpty

/-- Adds a symbol at the end. -/
def insert (t : SymbolTable) (s : Symbol) : SymbolTable where
  symbols := t.symbols.push s
  byId := t.byId.insert s.id t.symbols.size
  typesByName := if s.kind = .type then t.typesByName.insert s.name s.id else t.typesByName
  nextId := max t.nextId (s.id.val.toNat + 1)

def ofSymbols (symbols : List Symbol) : SymbolTable :=
  symbols.foldl insert empty

def toList (t : SymbolTable) : List Symbol := t.symbols.toList

/-- The last symbol of an id. -/
def get? (t : SymbolTable) (id : SymbolId) : Option Symbol :=
  t.byId[id]?.bind fun index => t.symbols[index]?

/-- The next id after the greatest; once these are used up, the least that is free. With no id left
it is the greatest there is. -/
def freshId (t : SymbolTable) : SymbolId :=
  if t.nextId < UInt32.size then ⟨t.nextId.toUInt32⟩
  else
    let candidates := (List.range (min (t.byId.size + 1) UInt32.size)).map fun n =>
      SymbolId.mk n.toUInt32
    (candidates.find? fun id => !t.byId.contains id).getD ⟨4294967295⟩

/-- Adds a symbol with a fresh id. -/
def add (t : SymbolTable) (name : String) (kind : SymbolKind) (containing : Option SymbolId) :
    SymbolTable × SymbolId :=
  let id := t.freshId
  (t.insert { id, name, kind, containing }, id)

/-- Changes the last symbol of an id. The changes of this module keep its id, name and kind. -/
def modify (t : SymbolTable) (id : SymbolId) (f : Symbol → Symbol) : SymbolTable :=
  match t.byId[id]? with
  | some index => { t with symbols := t.symbols.modify index f }
  | none => t

def addAttribute (t : SymbolTable) (id : SymbolId) (a : PlatformAttribute) : SymbolTable :=
  t.modify id fun s => { s with attributes := s.attributes ++ [a] }

def setAssociated (t : SymbolTable) (id owner : SymbolId) : SymbolTable :=
  t.modify id fun s => { s with associated := some owner }

/-- Lets a member implement an interface member. -/
def addImplements (t : SymbolTable) (id member : SymbolId) : SymbolTable :=
  t.modify id fun s => { s with implements := s.implements ++ [member] }

def setFile (t : SymbolTable) (id : SymbolId) (file : String) : SymbolTable :=
  t.modify id fun s => { s with file := some file }

/-- The id of the last type of a qualified name. -/
def findType? (t : SymbolTable) (name : String) : Option SymbolId :=
  t.typesByName[name]?

def findMembers (t : SymbolTable) (type : SymbolId) (name : String) : List SymbolId :=
  (t.toList.filter fun s => s.containing = some type && s.name == name).map (·.id)

def findMember? (t : SymbolTable) (type : SymbolId) (name : String) : Option SymbolId :=
  (t.findMembers type name).head?

/-! ## Lookups -/

theorem toList_insert (t : SymbolTable) (s : Symbol) : (t.insert s).toList = t.toList ++ [s] :=
  Array.toList_push

theorem toList_foldl_insert (symbols : List Symbol) (t : SymbolTable) :
    (symbols.foldl insert t).toList = t.toList ++ symbols := by
  induction symbols generalizing t with
  | nil => exact (List.append_nil _).symm
  | cons s rest ih =>
    rw [List.foldl_cons, ih, toList_insert, List.append_assoc, List.singleton_append]

theorem toList_ofSymbols (symbols : List Symbol) : (ofSymbols symbols).toList = symbols :=
  toList_foldl_insert symbols empty

/-- Every place in the index by id is one of the table. -/
def Indexed (t : SymbolTable) : Prop :=
  ∀ (id : SymbolId) (index : Nat), t.byId[id]? = some index → index < t.symbols.size

theorem Indexed.insert {t : SymbolTable} (h : t.Indexed) (s : Symbol) : (t.insert s).Indexed := by
  intro id index hindex
  have size : (t.insert s).symbols.size = t.symbols.size + 1 := Array.size_push _
  simp only [SymbolTable.insert, Std.HashMap.getElem?_insert] at hindex
  split at hindex
  case isTrue => have := Option.some.inj hindex; omega
  case isFalse => have := h id index hindex; omega

theorem get?_insert {t : SymbolTable} (h : t.Indexed) (s : Symbol) (id : SymbolId) :
    (t.insert s).get? id = if s.id = id then some s else t.get? id := by
  simp only [get?, SymbolTable.insert, Std.HashMap.getElem?_insert, beq_iff_eq]
  split
  case isTrue => simp
  case isFalse =>
    refine Option.bind_congr fun index hindex => ?_
    rw [Array.getElem?_push, if_neg (Nat.ne_of_lt (h id index hindex))]

/-- The last declaration of an id counts. -/
theorem get?_ofSymbols (symbols : List Symbol) (id : SymbolId) :
    (ofSymbols symbols).get? id = symbols.reverse.find? (·.id = id) := by
  -- from any table, the symbols added are looked at first
  have added : ∀ t : SymbolTable, t.Indexed →
      (symbols.foldl insert t).get? id = (symbols.reverse.find? (·.id = id)).or (t.get? id) := by
    induction symbols with
    | nil => intro t _; rfl
    | cons s rest ih =>
      intro t h
      rw [List.foldl_cons, ih _ (h.insert s), get?_insert h, List.reverse_cons, List.find?_append,
        Option.or_assoc]
      congr 1
      by_cases hid : s.id = id <;> simp [hid]
  have none : empty.get? id = none := by simp [empty, get?]
  rw [ofSymbols, added empty (fun _ _ h => absurd h (by simp [empty])), none, Option.or_none]

/-- The last type of a name counts. -/
theorem findType?_ofSymbols (symbols : List Symbol) (name : String) :
    (ofSymbols symbols).findType? name =
      (symbols.reverse.find? fun s => s.kind = .type ∧ s.name = name).map (·.id) := by
  -- from any table, the types added are looked at first
  have added : ∀ t : SymbolTable, (symbols.foldl insert t).findType? name =
      ((symbols.reverse.find? fun s => s.kind = .type ∧ s.name = name).map (·.id)).or
        (t.findType? name) := by
    induction symbols with
    | nil => intro t; rfl
    | cons s rest ih =>
      intro t
      have first : (t.insert s).findType? name =
          if s.kind = .type ∧ s.name = name then some s.id else t.findType? name := by
        show (if s.kind = .type then t.typesByName.insert s.name s.id else t.typesByName)[name]? = _
        by_cases hkind : s.kind = .type
        · simp only [hkind, if_true, true_and, Std.HashMap.getElem?_insert, beq_iff_eq]
          rfl
        · simp only [hkind, if_false, false_and]
          rfl
      rw [List.foldl_cons, ih, first, List.reverse_cons, List.find?_append, Option.map_or,
        Option.or_assoc]
      congr 1
      by_cases hs : s.kind = .type ∧ s.name = name <;> simp [hs]
  have none : empty.findType? name = none := by simp [empty, findType?]
  rw [ofSymbols, added empty, none, Option.or_none]

/-! ## Scopes -/

/-- The ids of a table that are not in a list. They bound how far a walk without repetition can
go. -/
def unvisited (t : SymbolTable) (visited : List SymbolId) : Nat :=
  (t.byId.keys.filter fun id => decide (id ∉ visited)).length

theorem mem_keys_of_get? {t : SymbolTable} {id : SymbolId} {s : Symbol} (h : t.get? id = some s) :
    id ∈ t.byId.keys := by
  rw [Std.HashMap.mem_keys]
  unfold get? at h
  cases hi : t.byId[id]? with
  | none => simp [hi] at h
  | some index => exact Std.HashMap.mem_iff_isSome_getElem?.2 (by simp [hi])

/-- Visiting a symbol of the table leaves fewer to visit. -/
theorem unvisited_cons_lt {t : SymbolTable} {id : SymbolId} {s : Symbol} {visited : List SymbolId}
    (h : t.get? id = some s) (new : id ∉ visited) :
    t.unvisited (id :: visited) < t.unvisited visited := by
  unfold unvisited
  have split : (t.byId.keys.filter fun i => decide (i ∉ id :: visited)) =
      (t.byId.keys.filter fun i => decide (i ∉ visited)).filter fun i => decide (i ≠ id) := by
    rw [List.filter_filter]
    congr 1
    funext i
    by_cases hi : i = id <;> by_cases hv : i ∈ visited <;> simp [hi, hv]
  rw [split]
  refine List.length_filter_lt_length_iff_exists.2 ⟨id, ?_, by simp⟩
  exact List.mem_filter.2 ⟨mem_keys_of_get? h, by simpa using new⟩

/-- The scopes from `next` outwards, up to one that was met already. -/
def scopesFrom (t : SymbolTable) (visited : List SymbolId) (next : Option SymbolId) :
    List SymbolId :=
  match next with
  | none => []
  | some id =>
    if _ : id ∈ visited then []
    else
      match _ : t.get? id with
      | none => [id]
      | some s => id :: scopesFrom t (id :: visited) s.containing
termination_by t.unvisited visited
decreasing_by exact unvisited_cons_lt ‹_› ‹_›

/-- The scopes around a symbol, from the nearest outwards. A cycle of scopes ends the chain. -/
def scopeChain (t : SymbolTable) (id : SymbolId) : List SymbolId :=
  t.scopesFrom [id] ((t.get? id).bind (·.containing))

def containingType? (t : SymbolTable) (id : SymbolId) : Option SymbolId :=
  (t.scopeChain id).find? fun scope => (t.get? scope).map (·.kind) == some .type

/-- `Type.Member` for a member, the simple name for a type, `Type.Type` for a constructor. An
unknown id shows its number. -/
def displayName (t : SymbolTable) (id : SymbolId) : String :=
  match t.get? id with
  | none => id.text
  | some s =>
    match s.kind with
    | .assembly => s.name
    | .type => simpleName s.name
    | kind =>
      match ((t.containingType? id).bind t.get?).map fun owner => simpleName owner.name with
      | none => s.name
      | some owner => owner ++ "." ++ (if kind = .constructor then owner else s.name)

end SymbolTable

end PlatformGuard
