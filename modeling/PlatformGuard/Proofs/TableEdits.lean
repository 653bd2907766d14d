import Mathlib.Data.Finset.Card
import PlatformGuard.Symbol.Table

/-!
# Symbol tables under edits

A table is loaded from a list of symbols and then edited: symbols are added with fresh ids, and the
last symbol of an id gets attributes, an owner, interface members or a file. The list of its symbols
is all there is to a table. Every edit is one of that list (`SymbolTable.toList_edit`), and a table
is the one that loading its list gives (`SymbolTable.Reloads`), so that both indices and the next id
follow from what loading does.

* `SymbolTable.reloads_editAll`: to load the symbols of an edited table gives the table again.
* `SymbolTable.Reloads.get?_freshId`: a fresh id is not in use, as long as one is free.
* `edited_table_consistent`: the three together.
-/

namespace PlatformGuard

/-! ## Edits -/

/-- A change to a table. -/
inductive TableEdit where
  | add (name : String) (kind : SymbolKind) (containing : Option SymbolId)
  | addAttribute (id : SymbolId) (a : PlatformAttribute)
  | setAssociated (id owner : SymbolId)
  | addImplements (id member : SymbolId)
  | setFile (id : SymbolId) (file : String)

def changeFirst (id : SymbolId) (f : Symbol → Symbol) : List Symbol → List Symbol
  | [] => []
  | s :: rest => if s.id = id then f s :: rest else s :: changeFirst id f rest

def changeLast (id : SymbolId) (f : Symbol → Symbol) (symbols : List Symbol) : List Symbol :=
  (changeFirst id f symbols.reverse).reverse

/-- What an edit makes of the symbols in their order. An added symbol gets the id given. -/
def TableEdit.onList (fresh : SymbolId) (symbols : List Symbol) : TableEdit → List Symbol
  | add name kind containing => symbols ++ [{ id := fresh, name, kind, containing }]
  | addAttribute id a =>
    changeLast id (fun s => { s with attributes := s.attributes ++ [a] }) symbols
  | setAssociated id owner => changeLast id (fun s => { s with associated := some owner }) symbols
  | addImplements id member =>
    changeLast id (fun s => { s with implements := s.implements ++ [member] }) symbols
  | setFile id file => changeLast id (fun s => { s with file := some file }) symbols

namespace SymbolTable

def edit (t : SymbolTable) : TableEdit → SymbolTable
  | .add name kind containing => (t.add name kind containing).1
  | .addAttribute id a => t.addAttribute id a
  | .setAssociated id owner => t.setAssociated id owner
  | .addImplements id member => t.addImplements id member
  | .setFile id file => t.setFile id file

def editAll (t : SymbolTable) (edits : List TableEdit) : SymbolTable :=
  edits.foldl edit t

variable {t t' : SymbolTable} {symbols symbols' : List Symbol} {id : SymbolId} {f : Symbol → Symbol}

/-! ## Loading -/

theorem ofSymbols_concat (symbols : List Symbol) (s : Symbol) :
    ofSymbols (symbols ++ [s]) = (ofSymbols symbols).insert s := by
  rw [ofSymbols, List.foldl_append]
  rfl

theorem indexed_foldl_insert (h : t.Indexed) : (symbols.foldl insert t).Indexed := by
  induction symbols generalizing t with
  | nil => exact h
  | cons s rest ih => exact ih (h.insert s)

theorem indexed_ofSymbols (symbols : List Symbol) : (ofSymbols symbols).Indexed :=
  indexed_foldl_insert fun _ _ h => absurd h (by simp [empty])

/-! ## A table is the one that its symbols give -/

/-- To load the symbols of the table gives the table again, with its indices and its next id. -/
def Reloads (t : SymbolTable) : Prop := ofSymbols t.toList = t

theorem reloads_ofSymbols (symbols : List Symbol) : (ofSymbols symbols).Reloads :=
  congrArg ofSymbols (toList_ofSymbols symbols)

theorem Reloads.insert (h : t.Reloads) (s : Symbol) : (t.insert s).Reloads := by
  unfold Reloads
  rw [toList_insert, ofSymbols_concat, h]

/-- What the indices are made from. -/
def indexKey (s : Symbol) : SymbolId × String × SymbolKind := (s.id, s.name, s.kind)

/-- Tables have the same indices, for as many symbols. -/
structure SameIndices (t t' : SymbolTable) : Prop where
  size : t.symbols.size = t'.symbols.size
  byId : t.byId = t'.byId
  typesByName : t.typesByName = t'.typesByName
  nextId : t.nextId = t'.nextId

theorem SameIndices.insert (h : SameIndices t t') {s s' : Symbol} (key : indexKey s = indexKey s') :
    SameIndices (t.insert s) (t'.insert s') := by
  obtain ⟨hid, hname, hkind⟩ : s.id = s'.id ∧ s.name = s'.name ∧ s.kind = s'.kind := by
    simpa [indexKey] using key
  constructor
  · simp [SymbolTable.insert, h.size]
  · simp only [SymbolTable.insert, h.byId, h.size, hid]
  · simp only [SymbolTable.insert, h.typesByName, hid, hname, hkind]
  · simp only [SymbolTable.insert, h.nextId, hid]

theorem SameIndices.foldl_insert (h : SameIndices t t')
    (keys : symbols.map indexKey = symbols'.map indexKey) :
    SameIndices (symbols.foldl SymbolTable.insert t) (symbols'.foldl SymbolTable.insert t') := by
  induction symbols generalizing symbols' t t' with
  | nil =>
    obtain rfl := List.map_eq_nil_iff.1 keys.symm
    exact h
  | cons s rest ih =>
    obtain ⟨s', rest', rfl, key, keys⟩ := List.map_eq_cons_iff.1 keys.symm
    rw [List.foldl_cons, List.foldl_cons]
    exact ih (h.insert key.symm) keys.symm

/-- A change keeps what the indices are made from. -/
def KeepsKey (f : Symbol → Symbol) : Prop := ∀ s, indexKey (f s) = indexKey s

theorem map_indexKey_modify (hf : KeepsKey f) (symbols : List Symbol) (index : Nat) :
    (symbols.modify index f).map indexKey = symbols.map indexKey := by
  refine List.ext_getElem? fun i => ?_
  rw [List.getElem?_map, List.getElem?_map, List.getElem?_modify, Option.map_eq_map, Option.map_map]
  refine congrFun (congrArg Option.map (funext fun s => ?_)) _
  show indexKey (if index = i then f s else s) = indexKey s
  split
  · exact hf s
  · rfl

theorem Reloads.modify (h : t.Reloads) (hf : KeepsKey f) (id : SymbolId) :
    (t.modify id f).Reloads := by
  unfold SymbolTable.modify
  split
  case h_2 => exact h
  case h_1 index _ =>
    let changed := t.symbols.modify index f
    have dumped : changed.toList = t.toList.modify index f := Array.toList_modify
    have same : SameIndices (ofSymbols changed.toList) (ofSymbols t.toList) :=
      SameIndices.foldl_insert ⟨rfl, rfl, rfl, rfl⟩ (by rw [dumped, map_indexKey_modify hf])
    have symbols : (ofSymbols changed.toList).symbols = changed :=
      Array.toList_inj.1 (toList_ofSymbols changed.toList)
    rw [h] at same
    show ofSymbols changed.toList = { t with symbols := changed }
    cases hloaded : ofSymbols changed.toList with
    | mk _ _ _ _ =>
      rw [hloaded] at same symbols
      obtain ⟨-, rfl, rfl, rfl⟩ := same
      rw [← symbols]

theorem Reloads.edit (h : t.Reloads) (e : TableEdit) : (t.edit e).Reloads := by
  cases e with
  | add name kind containing => exact h.insert _
  | addAttribute id | setAssociated id | addImplements id | setFile id =>
    refine h.modify ?_ id
    exact fun _ => rfl

theorem reloads_editAll (symbols : List Symbol) (edits : List TableEdit) :
    ((ofSymbols symbols).editAll edits).Reloads :=
  List.foldlRecOn edits SymbolTable.edit (reloads_ofSymbols symbols) fun _ h e _ => h.edit e

/-! ## Edits of the list -/

theorem changeLast_concat (id : SymbolId) (f : Symbol → Symbol)
    (symbols : List Symbol) (s : Symbol) :
    changeLast id f (symbols ++ [s]) =
      if s.id = id then symbols ++ [f s] else changeLast id f symbols ++ [s] := by
  unfold changeLast
  rw [List.reverse_concat, changeFirst]
  split <;> simp

theorem modify_length_concat (f : Symbol → Symbol) (symbols : List Symbol) (s : Symbol) :
    (symbols ++ [s]).modify symbols.length f = symbols ++ [f s] := by
  induction symbols with
  | nil => rfl
  | cons first rest ih => exact congrArg (first :: ·) ih

theorem modify_concat_of_lt {index : Nat} (f : Symbol → Symbol) (symbols : List Symbol) (s : Symbol)
    (h : index < symbols.length) : (symbols ++ [s]).modify index f =
      symbols.modify index f ++ [s] := by
  induction symbols generalizing index with
  | nil => exact absurd h (Nat.not_lt_zero _)
  | cons first rest ih =>
    cases index with
    | zero => rfl
    | succ index => exact congrArg (first :: ·) (ih (Nat.lt_of_succ_lt_succ h))

/-- The index by id leads to the last symbol of each id. -/
theorem toList_modify_ofSymbols (symbols : List Symbol) (id : SymbolId) (f : Symbol → Symbol) :
    ((ofSymbols symbols).modify id f).toList = changeLast id f symbols := by
  have view : ∀ t : SymbolTable, (t.modify id f).toList =
      (t.byId[id]?.map fun index => t.toList.modify index f).getD t.toList := by
    intro t
    unfold SymbolTable.modify
    cases t.byId[id]? with
    | none => rfl
    | some index => exact Array.toList_modify
  induction symbols using List.reverseRecOn with
  | nil =>
    have unknown : (ofSymbols []).byId[id]? = none := by simp [ofSymbols, empty]
    rw [view, unknown]
    rfl
  | append_singleton symbols s ih =>
    rw [view, toList_ofSymbols] at ih
    have size : (ofSymbols symbols).symbols.size = symbols.length := by
      rw [← Array.length_toList]
      exact congrArg List.length (toList_ofSymbols symbols)
    have index : (ofSymbols (symbols ++ [s])).byId[id]? =
        if s.id = id then some symbols.length else (ofSymbols symbols).byId[id]? := by
      rw [ofSymbols_concat, ← size]
      simp only [SymbolTable.insert, Std.HashMap.getElem?_insert, beq_iff_eq]
    rw [view, toList_ofSymbols, index, changeLast_concat]
    by_cases hid : s.id = id
    · rw [if_pos hid, if_pos hid, Option.map_some, Option.getD_some, modify_length_concat]
    · rw [if_neg hid, if_neg hid, ← ih]
      cases hindex : (ofSymbols symbols).byId[id]? with
      | none => rfl
      | some i =>
        have bound : i < symbols.length := size ▸ indexed_ofSymbols symbols id i hindex
        exact modify_concat_of_lt f symbols s bound

/-- An edit of a table is one of the list of its symbols. -/
theorem toList_edit (h : t.Reloads) (e : TableEdit) :
    (t.edit e).toList = e.onList t.freshId t.toList := by
  have changed : ∀ (id : SymbolId) (f : Symbol → Symbol),
      (t.modify id f).toList = changeLast id f t.toList := by
    intro id f
    rw [← toList_modify_ofSymbols, h]
  cases e with
  | add name kind containing => exact toList_insert t _
  | addAttribute id | setAssociated id | addImplements id | setFile id => exact changed id _

/-! ## Fresh ids -/

/-- The ids of the symbols, each once. -/
def ids (t : SymbolTable) : Finset SymbolId := (t.toList.map (·.id)).toFinset

theorem Reloads.get? (h : t.Reloads) (id : SymbolId) :
    t.get? id = t.toList.reverse.find? (·.id = id) := by
  rw [← get?_ofSymbols, h]

theorem Reloads.indexed (h : t.Reloads) : t.Indexed := h ▸ indexed_ofSymbols t.toList

theorem Reloads.get?_eq_none_iff (h : t.Reloads) : t.get? id = none ↔ id ∉ t.ids := by
  rw [h.get?, List.find?_eq_none]
  simp [ids]

/-- The index by id has the ids of the symbols and no others. -/
theorem Reloads.mem_byId_iff (h : t.Reloads) : id ∈ t.byId ↔ id ∈ t.ids := by
  rw [← not_iff_not, ← h.get?_eq_none_iff, Std.HashMap.mem_iff_isSome_getElem?]
  unfold SymbolTable.get?
  cases hindex : t.byId[id]? with
  | none => simp
  | some index => simp [h.indexed id index hindex]

theorem Reloads.card_ids (h : t.Reloads) : t.ids.card = t.byId.size := by
  have keys : t.ids = t.byId.keys.toFinset := by
    ext id
    rw [← h.mem_byId_iff, List.mem_toFinset, Std.HashMap.mem_keys]
  rw [keys, List.toFinset_card_of_nodup Std.HashMap.nodup_keys, Std.HashMap.length_keys]

theorem lt_nextId_ofSymbols (symbols : List Symbol) :
    ∀ s ∈ symbols, s.id.val.toNat < (ofSymbols symbols).nextId := by
  induction symbols using List.reverseRecOn with
  | nil => exact fun _ h => absurd h List.not_mem_nil
  | append_singleton symbols s ih =>
    intro s' hs'
    rw [ofSymbols_concat]
    show _ < max (ofSymbols symbols).nextId (s.id.val.toNat + 1)
    rcases List.mem_append.1 hs' with hs' | hs'
    · have := ih s' hs'
      omega
    · rw [List.mem_singleton.1 hs']
      omega

/-- Where the ids past the greatest are used up, one of the first is free: there are more
of them than ids in use. -/
theorem Reloads.exists_candidate (h : t.Reloads) (room : t.ids.card < UInt32.size) :
    ∃ id ∈ (List.range (min (t.byId.size + 1) UInt32.size)).map fun n => SymbolId.mk n.toUInt32,
    id ∉ t.byId := by
  refine Classical.byContradiction fun none => ?_
  let count := min (t.byId.size + 1) UInt32.size
  have distinct : ((List.range count).map fun n => SymbolId.mk n.toUInt32).Nodup := by
    refine List.Nodup.map_on ?_ List.nodup_range
    intro m hm n hn same
    have small : ∀ {k}, k ∈ List.range count → k < UInt32.size := fun hk =>
      Nat.lt_of_lt_of_le (List.mem_range.1 hk) (Nat.min_le_right _ _)
    have := congrArg (fun id => id.val.toNat) same
    rwa [Nat.toUInt32_eq, Nat.toUInt32_eq, UInt32.toNat_ofNat_of_lt' (small hm),
      UInt32.toNat_ofNat_of_lt' (small hn)]
      at this
  have used : ((List.range count).map fun n => SymbolId.mk n.toUInt32) ⊆ t.byId.keys := by
    intro id hid
    exact Std.HashMap.mem_keys.2 (Classical.byContradiction fun hfree => none ⟨id, hid, hfree⟩)
  have length := (distinct.subperm used).length_le
  rw [List.length_map, List.length_range, Std.HashMap.length_keys] at length
  have := h.card_ids
  omega

/-- A fresh id is not in use, as long as one is free. -/
theorem Reloads.get?_freshId (h : t.Reloads) (room : t.ids.card < UInt32.size) :
    t.get? t.freshId = none := by
  rw [h.get?_eq_none_iff]
  by_cases below : t.nextId < UInt32.size
  · rw [freshId, if_pos below]
    intro used
    obtain ⟨s, hs, hid⟩ := List.mem_map.1 (List.mem_toFinset.1 used)
    have smaller : s.id.val.toNat < t.nextId := h ▸ lt_nextId_ofSymbols t.toList s hs
    rw [hid] at smaller
    simp [Nat.mod_eq_of_lt below] at smaller
  · obtain ⟨id, hid, hfree⟩ := h.exists_candidate room
    have found := List.find?_isSome (p := fun id => !t.byId.contains id).2
      ⟨id, hid, by simpa using hfree⟩
    obtain ⟨least, hleast⟩ := Option.isSome_iff_exists.1 found
    rw [freshId, if_neg below]
    dsimp only
    rw [hleast, Option.getD_some, ← h.mem_byId_iff]
    simpa using List.find?_some hleast

end SymbolTable

/-- However a table was loaded and edited, the last symbol of an id and the last type of a name are
found, its symbols are what the edits make of those loaded, and to load them again gives the same
table. As long as an id is free, an added symbol gets one that no symbol has, is found at it, and
leaves what is found at any other id. -/
theorem edited_table_consistent (symbols : List Symbol) (edits : List TableEdit) :
    let t := (SymbolTable.ofSymbols symbols).editAll edits
    (∀ id, t.get? id = t.toList.reverse.find? (·.id = id)) ∧
    (∀ name, t.findType? name =
      (t.toList.reverse.find? fun s => s.kind = .type ∧ s.name = name).map (·.id)) ∧
    (SymbolTable.ofSymbols symbols).toList = symbols ∧
    (∀ e, (t.edit e).toList = e.onList t.freshId t.toList) ∧
    SymbolTable.ofSymbols t.toList = t ∧
    ((t.toList.map (·.id)).toFinset.card < UInt32.size → ∀ name kind containing,
      let added := t.add name kind containing
      t.get? added.2 = none ∧
        added.1.get? added.2 = some { id := added.2, name, kind, containing } ∧
        ∀ other, other ≠ added.2 → added.1.get? other = t.get? other) := by
  intro t
  have reloads : t.Reloads := SymbolTable.reloads_editAll symbols edits
  refine ⟨reloads.get?, fun name => ?_, SymbolTable.toList_ofSymbols symbols,
    SymbolTable.toList_edit reloads, reloads,
    fun room name kind containing => ?_⟩
  · rw [← SymbolTable.findType?_ofSymbols, reloads]
  · have get?_added :=
      SymbolTable.get?_insert reloads.indexed { id := t.freshId, name, kind, containing }
    refine ⟨reloads.get?_freshId room, (get?_added _).trans (if_pos rfl), fun other hother => ?_⟩
    exact (get?_added other).trans (if_neg (Ne.symm hother))

/-- The greatest id is in use, by two symbols, and an edit names an id that no symbol has. -/
theorem edited_table_consistent_greatestId :
    let symbols : List Symbol := [{ id := ⟨4294967295⟩, name := "Lib.Shape", kind := .type },
      { id := ⟨0⟩, name := "Lib", kind := .assembly },
      { id := ⟨4294967295⟩, name := "Lib.Shape", kind := .type, containing := some ⟨0⟩ }]
    let t := (SymbolTable.ofSymbols symbols).editAll
      [.addImplements ⟨7⟩ ⟨0⟩, .add "Draw" .method (some ⟨0⟩)]
    (t.toList.map (·.id)).toFinset.card < UInt32.size ∧
      let added := t.add "Fill" .method (some ⟨0⟩)
      t.get? added.2 = none ∧
        added.1.get? added.2 =
          some { id := added.2, name := "Fill", kind := .method, containing := some ⟨0⟩ } := by
  intro symbols t
  have size : t.toList.length = 4 := by
    show ((((SymbolTable.ofSymbols symbols).modify ⟨7⟩ _).insert _).toList).length = 4
    rw [SymbolTable.toList_insert, SymbolTable.toList_modify_ofSymbols]
    rfl
  have room : (t.toList.map (·.id)).toFinset.card < UInt32.size := by
    have few := List.toFinset_card_le (t.toList.map (·.id))
    rw [List.length_map, size] at few
    exact Nat.lt_of_le_of_lt few (by decide)
  obtain ⟨-, -, -, -, -, fresh⟩ := edited_table_consistent symbols
    [.addImplements ⟨7⟩ ⟨0⟩, .add "Draw" .method (some ⟨0⟩)]
  obtain ⟨absent, found, -⟩ := fresh room "Fill" .method (some ⟨0⟩)
  exact ⟨room, absent, found⟩

end PlatformGuard
