/-!
# Maps with sorted keys

A map is a list of entries with strictly increasing keys. Its one view is `find?`; the entries are
seen in key order wherever a map is printed or walked.

* `find?_insert`, `find?_erase`: what an update does to the view.
* `mem_entries_iff`: the entries are the pairs of the view.
* `ext_find?`: two maps with the same view are equal.
-/

namespace PlatformGuard

/-- A map: entries with strictly increasing keys. -/
structure SortedMap (κ β : Type) [LT κ] where
  entries : List (κ × β)
  sorted : entries.Pairwise (·.1 < ·.1)

namespace SortedMap

variable {κ β γ : Type} [LT κ]

def empty : SortedMap κ β := ⟨[], .nil⟩

instance : Inhabited (SortedMap κ β) := ⟨empty⟩

instance [BEq κ] [BEq β] : BEq (SortedMap κ β) := ⟨fun a b => a.entries == b.entries⟩

def isEmpty (m : SortedMap κ β) : Bool := m.entries.isEmpty

def size (m : SortedMap κ β) : Nat := m.entries.length

def keys (m : SortedMap κ β) : List κ := m.entries.map (·.1)

def values (m : SortedMap κ β) : List β := m.entries.map (·.2)

def mapValues (f : β → γ) (m : SortedMap κ β) : SortedMap κ γ :=
  ⟨m.entries.map fun e => (e.1, f e.2), List.Pairwise.map _ (fun _ _ h => h) m.sorted⟩

def lookup [DecidableEq κ] (k : κ) : List (κ × β) → Option β
  | [] => none
  | e :: rest => if k = e.1 then some e.2 else lookup k rest

def find? [DecidableEq κ] (m : SortedMap κ β) (k : κ) : Option β := lookup k m.entries

def contains [DecidableEq κ] (m : SortedMap κ β) (k : κ) : Bool := (m.find? k).isSome

/-- Puts an entry where its key belongs, in place of one with the same key. -/
def insertEntry [DecidableLT κ] [DecidableEq κ] (k : κ) (b : β) : List (κ × β) → List (κ × β)
  | [] => [(k, b)]
  | e :: rest =>
    if k < e.1 then (k, b) :: e :: rest
    else if k = e.1 then (k, b) :: rest
    else e :: insertEntry k b rest

def erase [DecidableEq κ] (m : SortedMap κ β) (k : κ) : SortedMap κ β :=
  ⟨m.entries.filter fun e => decide (e.1 ≠ k), List.Pairwise.sublist List.filter_sublist m.sorted⟩

section Order

set_option linter.unusedSectionVars false

variable [LE κ] [Std.IsLinearOrder κ] [Std.LawfulOrderLT κ] [DecidableLT κ] [DecidableEq κ]

theorem key_lt_of_not_lt {a b : κ} (h : ¬ a < b) (hne : a ≠ b) : b < a := by
  have hle : b ≤ a := Std.not_lt.1 h
  exact Std.lt_of_le_of_ne hle (Ne.symm hne)

theorem mem_insertEntry {k : κ} {b : β} {e : κ × β} {es : List (κ × β)}
    (h : e ∈ insertEntry k b es) : e = (k, b) ∨ e ∈ es := by
  induction es with
  | nil => simpa [insertEntry] using h
  | cons d rest ih =>
    unfold insertEntry at h
    split at h
    · simpa using h
    · split at h
      · rcases List.mem_cons.1 h with h | h <;> simp [h]
      · rcases List.mem_cons.1 h with h | h
        · simp [h]
        · rcases ih h with h | h <;> simp [h]

theorem insertEntry_sorted {k : κ} {b : β} {es : List (κ × β)} (h : es.Pairwise (·.1 < ·.1)) :
    (insertEntry k b es).Pairwise (·.1 < ·.1) := by
  induction es with
  | nil => simp [insertEntry]
  | cons e rest ih =>
    have h' := List.pairwise_cons.1 h
    unfold insertEntry
    split
    case isTrue hlt =>
      refine List.pairwise_cons.2 ⟨fun d hd => ?_, h⟩
      rcases List.mem_cons.1 hd with rfl | hd
      · exact hlt
      · exact Std.lt_trans hlt (h'.1 d hd)
    case isFalse hge =>
      split
      case isTrue heq => exact List.pairwise_cons.2 ⟨fun d hd => heq ▸ h'.1 d hd, h'.2⟩
      case isFalse hne =>
        refine List.pairwise_cons.2 ⟨fun d hd => ?_, ih h'.2⟩
        rcases mem_insertEntry hd with rfl | hd
        · exact key_lt_of_not_lt hge hne
        · exact h'.1 d hd

def insert (m : SortedMap κ β) (k : κ) (b : β) : SortedMap κ β :=
  ⟨insertEntry k b m.entries, insertEntry_sorted m.sorted⟩

/-- The map of a list of pairs; of pairs with the same key the last counts. -/
def ofList (es : List (κ × β)) : SortedMap κ β :=
  es.foldl (fun m e => m.insert e.1 e.2) empty

/-! ## The view -/

@[simp] theorem find?_empty (k : κ) : (empty : SortedMap κ β).find? k = none := rfl

theorem lookup_insertEntry {k j : κ} {b : β} {es : List (κ × β)} (h : es.Pairwise (·.1 < ·.1)) :
    lookup j (insertEntry k b es) = if j = k then some b else lookup j es := by
  induction es with
  | nil => rfl
  | cons e rest ih =>
    have h' := List.pairwise_cons.1 h
    unfold insertEntry
    split
    · rfl
    · split
      case isTrue heq =>
        subst heq
        by_cases hj : j = e.1 <;> simp [lookup, hj]
      case isFalse hne =>
        rw [lookup, ih h'.2, lookup]
        by_cases hj : j = e.1
        · have : j ≠ k := fun hk => hne (hk ▸ hj)
          simp [hj, hj ▸ this]
        · simp [hj]

@[simp] theorem find?_insert (m : SortedMap κ β) (k j : κ) (b : β) :
    (m.insert k b).find? j = if j = k then some b else m.find? j :=
  lookup_insertEntry m.sorted

theorem lookup_filter_ne (k j : κ) (es : List (κ × β)) :
    lookup j (es.filter fun e => decide (e.1 ≠ k)) = if j = k then none else lookup j es := by
  induction es with
  | nil => simp [lookup]
  | cons e rest ih =>
    by_cases he : e.1 = k
    · simp only [he, ne_eq, not_true_eq_false, decide_false, Bool.false_eq_true, not_false_eq_true,
        List.filter_cons_of_neg, ih]
      by_cases hj : j = k <;> simp [lookup, he, hj]
    · simp only [ne_eq, he, not_false_eq_true, decide_true, List.filter_cons_of_pos, lookup]
      rw [ih]
      by_cases hj : j = e.1
      · simp [hj, he]
      · simp [hj]

@[simp] theorem find?_erase (m : SortedMap κ β) (k j : κ) :
    (m.erase k).find? j = if j = k then none else m.find? j :=
  lookup_filter_ne k j m.entries

theorem mem_of_lookup {k : κ} {b : β} {es : List (κ × β)} (h : lookup k es = some b) :
    (k, b) ∈ es := by
  induction es with
  | nil => simp [lookup] at h
  | cons e rest ih =>
    unfold lookup at h
    split at h
    case isTrue heq =>
      have : e = (k, b) := by
        rw [heq, ← Option.some.inj h]
      simp [this]
    case isFalse _ => exact List.mem_cons_of_mem _ (ih h)

theorem lookup_of_mem {k : κ} {b : β} {es : List (κ × β)} (sorted : es.Pairwise (·.1 < ·.1))
    (h : (k, b) ∈ es) : lookup k es = some b := by
  induction es with
  | nil => simp at h
  | cons e rest ih =>
    have sorted' := List.pairwise_cons.1 sorted
    rcases List.mem_cons.1 h with rfl | h
    · simp [lookup]
    · have hlt := sorted'.1 _ h
      have hne : k ≠ e.1 := fun heq => Std.lt_irrefl (heq ▸ hlt)
      simp [lookup, hne, ih sorted'.2 h]

theorem mem_entries_iff {m : SortedMap κ β} {k : κ} {b : β} :
    (k, b) ∈ m.entries ↔ m.find? k = some b :=
  ⟨lookup_of_mem m.sorted, mem_of_lookup⟩

theorem mem_keys_iff {m : SortedMap κ β} {k : κ} : k ∈ m.keys ↔ ∃ b, m.find? k = some b := by
  simp only [keys, List.mem_map, Prod.exists, exists_and_right, exists_eq_right, mem_entries_iff]

theorem entries_ext {es ds : List (κ × β)} (hes : es.Pairwise (·.1 < ·.1))
    (hds : ds.Pairwise (·.1 < ·.1)) (h : ∀ k, lookup k es = lookup k ds) : es = ds := by
  induction es generalizing ds with
  | nil =>
    cases ds with
    | nil => rfl
    | cons d ds => simpa [lookup] using h d.1
  | cons e es ih =>
    cases ds with
    | nil => simpa [lookup] using h e.1
    | cons d ds =>
      have hes' := List.pairwise_cons.1 hes
      have hds' := List.pairwise_cons.1 hds
      have below {c : κ × β} {cs : List (κ × β)} {k : κ} (hc : ∀ a ∈ cs, c.1 < a.1)
        (hk : k < c.1 ∨ k = c.1) :
          lookup k cs = none := by
        cases hl : lookup k cs with
        | none => rfl
        | some b =>
          have hlt := hc _ (mem_of_lookup hl)
          rcases hk with hk | hk
          · exact absurd (Std.lt_trans hk hlt) Std.lt_irrefl
          · exact absurd (hk ▸ hlt) Std.lt_irrefl
      have hkey : e.1 = d.1 := by
        refine Classical.byContradiction fun hne => ?_
        by_cases hlt : e.1 < d.1
        · have := h e.1
          rw [lookup, if_pos rfl, lookup, if_neg hne, below hds'.1 (.inl hlt)] at this
          simp at this
        · have hgt := key_lt_of_not_lt hlt hne
          have := h d.1
          rw [lookup, if_neg (Ne.symm hne), lookup, if_pos rfl, below hes'.1 (.inl hgt)] at this
          simp at this
      have hval : e.2 = d.2 := by
        have := h e.1
        rw [lookup, if_pos rfl, lookup, if_pos hkey] at this
        exact Option.some.inj this
      have htail : es = ds := by
        refine ih hes'.2 hds'.2 fun k => ?_
        by_cases hk : k = e.1
        · rw [below hes'.1 (.inr hk), below hds'.1 (.inr (hk.trans hkey))]
        · have := h k
          rwa [lookup, if_neg hk, lookup, if_neg (hkey ▸ hk)] at this
      rw [htail, Prod.ext hkey hval]

/-- Maps with the same view are equal. -/
theorem ext_find? {m n : SortedMap κ β} (h : ∀ k, m.find? k = n.find? k) : m = n := by
  cases m with
  | mk es hes =>
    cases n with
    | mk ds hds => simpa using entries_ext hes hds h

/-- Where only the entry at one key gives something. -/
theorem filterMap_entries {m : SortedMap κ β} {k : κ} {f : κ → β → Option γ}
    (others : ∀ j b, j ≠ k → f j b = none) :
    m.entries.filterMap (fun e => f e.1 e.2) = ((m.find? k).bind (f k)).toList := by
  obtain ⟨entries, sorted⟩ := m
  show _ = ((lookup k entries).bind (f k)).toList
  induction entries with
  | nil => rfl
  | cons e rest ih =>
    obtain ⟨above, sorted⟩ := List.pairwise_cons.1 sorted
    rw [List.filterMap_cons, ih sorted, lookup]
    by_cases hk : k = e.1
    · subst hk
      -- the keys after it are other keys
      have absent : lookup e.1 rest = none := by
        cases hlookup : lookup e.1 rest with
        | none => rfl
        | some b => exact absurd (above _ (mem_of_lookup hlookup)) Std.lt_irrefl
      rw [absent, if_pos rfl, Option.bind_none, Option.bind_some]
      cases f e.1 e.2 <;> rfl
    · rw [if_neg hk, others e.1 e.2 (Ne.symm hk)]

end Order

end SortedMap

end PlatformGuard
