import Mathlib.Data.List.Induction
import PlatformGuard.Proofs.ContractMerge

/-!
# What one layer says of a platform

A layer is folded from the entries of one scope. What it says of a platform comes from the
entries of this platform alone, in their order; only Mac Catalyst, where no entry names it, takes
over what is said of iOS.

* `Contract.get?_foldl_add`: what the entries say of a platform, before anything is taken over.
* `Contract.get?_withImplied`: what is taken over.
* `Contract.get?_ofEntries`: the two together.
* `Availability.supported_isExtreme`, `unsupported_isExtreme`: the facts of a platform are the
  extremes of its entries.
-/

namespace PlatformGuard

/-! ## Facts from the entries of one platform -/

namespace Availability

/-- What entries say together, all taken to be of one platform. -/
def ofEntries (entries : List AvailabilityEntry) : Availability :=
  entries.foldl add {}

theorem ofEntries_concat (entries : List AvailabilityEntry) (e : AvailabilityEntry) :
    ofEntries (entries ++ [e]) = (ofEntries entries).add e := by
  rw [ofEntries, List.foldl_append]
  rfl

/-- A version comes from an entry of a kind, and those of all entries of this kind are below it;
there is none where no entry is of the kind. What is below is left open: the highest version counts
for support, the lowest for its end. -/
def IsExtreme (below : Version → Version → Prop) (kind : AvailabilityKind)
    (entries : List AvailabilityEntry) (found : Option Version) : Prop :=
  (∀ v, found = some v → ∃ e ∈ entries, e.kind = kind ∧ e.version = v) ∧
    ∀ e ∈ entries, e.kind = kind → ∃ v, found = some v ∧ below e.version v

section Extremes

variable {below : Version → Version → Prop} {kind : AvailabilityKind}
    {entries : List AvailabilityEntry}
  {e : AvailabilityEntry} {found : Option Version} {v : Version}

theorem isExtreme_nil : IsExtreme below kind [] none :=
  ⟨fun _ h => absurd h (by simp), fun _ h => absurd h List.not_mem_nil⟩

theorem IsExtreme.concat_of_ne (h : IsExtreme below kind entries found) (hkind : e.kind ≠ kind) :
    IsExtreme below kind (entries ++ [e]) found := by
  refine ⟨fun v hv => ?_, fun d hd hdkind => ?_⟩
  · obtain ⟨d, hd, given⟩ := h.1 v hv
    exact ⟨d, List.mem_append_left [e] hd, given⟩
  · rcases List.mem_append.1 hd with hd | hd
    · exact h.2 d hd hdkind
    · exact absurd (List.mem_singleton.1 hd ▸ hdkind) hkind

/-- One more entry of the kind: the version is this one's or that of before,
whichever the other is below. -/
theorem IsExtreme.concat (trans : ∀ u v w, below u v → below v w → below u w)
    (h : IsExtreme below kind entries found) (hkind : e.kind = kind)
    (given : v = e.version ∨ found = some v) (new : below e.version v)
    (old : ∀ w, found = some w → below w v) : IsExtreme below kind (entries ++ [e]) (some v) := by
  refine ⟨fun v' hv' => ?_, fun d hd hdkind => ⟨v, rfl, ?_⟩⟩
  · obtain rfl := Option.some.inj hv'
    rcases given with rfl | hfound
    · exact ⟨e, List.mem_append_right entries List.mem_cons_self, hkind, rfl⟩
    · obtain ⟨d, hd, hgiven⟩ := h.1 v hfound
      exact ⟨d, List.mem_append_left [e] hd, hgiven⟩
  · rcases List.mem_append.1 hd with hd | hd
    · obtain ⟨w, hw, hbelow⟩ := h.2 d hd hdkind
      exact trans _ _ _ hbelow (old w hw)
    · rwa [List.mem_singleton.1 hd]

/-- What is inherited downwards holds of the extreme iff it holds of all entries of the kind. -/
theorem IsExtreme.forall_iff (h : IsExtreme below kind entries found) {P : Version → Prop}
    (inherited : ∀ u v, below u v → P v → P u) :
    (∀ v, found = some v → P v) ↔ ∀ e ∈ entries, e.kind = kind → P e.version := by
  constructor
  · intro hfound e he hkind
    obtain ⟨v, hv, hbelow⟩ := h.2 e he hkind
    exact inherited _ _ hbelow (hfound v hv)
  · intro hall v hv
    obtain ⟨e, he, hkind, rfl⟩ := h.1 v hv
    exact hall e he hkind

theorem IsExtreme.eq_none_iff (h : IsExtreme below kind entries found) :
    found = none ↔ ∀ e ∈ entries, e.kind ≠ kind := by
  rw [Option.eq_none_iff_forall_ne_some]
  exact h.forall_iff (P := fun _ => False) fun _ _ _ => id

end Extremes

/-- The entry is the first in the list to give the lowest version of its kind; there is none where
no entry is of the kind. -/
def IsFirstLowest (kind : AvailabilityKind) (entries : List AvailabilityEntry) :
    Option AvailabilityEntry → Prop
  | none => ∀ e ∈ entries, e.kind ≠ kind
  | some e =>
    e.kind = kind ∧ ∃ before after, entries = before ++ e :: after ∧
      (∀ d ∈ before, d.kind = kind → e.version < d.version) ∧ ∀ d ∈ after,
      d.kind = kind → e.version ≤ d.version

section FirstLowest

variable {kind : AvailabilityKind} {entries : List AvailabilityEntry} {e : AvailabilityEntry}
  {first : Option AvailabilityEntry}

/-- An entry of another kind does not count, nor does one that is not lower than the lowest before
it. -/
theorem IsFirstLowest.concat_of_not_lower (h : IsFirstLowest kind entries first)
    (not_lower : e.kind = kind → ∃ d, first = some d ∧ d.version ≤ e.version) :
    IsFirstLowest kind (entries ++ [e]) first := by
  cases first with
  | none =>
    intro d hd hkind
    rcases List.mem_append.1 hd with hd | hd
    · exact h d hd hkind
    · obtain ⟨_, hnone, -⟩ := not_lower (List.mem_singleton.1 hd ▸ hkind)
      cases hnone
  | some d =>
    obtain ⟨hkind, before, after, rfl, higher, notLower⟩ := h
    refine ⟨hkind, before, after ++ [e], by rw [List.append_assoc, List.cons_append], higher,
      fun c hc hckind => ?_⟩
    rcases List.mem_append.1 hc with hc | hc
    · exact notLower c hc hckind
    · obtain rfl := List.mem_singleton.1 hc
      obtain ⟨d', hd', hle⟩ := not_lower hckind
      obtain rfl := Option.some.inj hd'
      exact hle

/-- One more entry that is lower than all of its kind before it. -/
theorem IsFirstLowest.concat_of_lower (h : IsFirstLowest kind entries first) (hkind : e.kind = kind)
    (lower : ∀ d, first = some d → e.version < d.version) :
    IsFirstLowest kind (entries ++ [e]) (some e) := by
  refine ⟨hkind, entries, [], rfl, fun c hc hckind => ?_, fun _ hd => absurd hd List.not_mem_nil⟩
  cases first with
  | none => exact absurd hckind (h c hc)
  | some d =>
    have below : e.version < d.version := lower d rfl
    obtain ⟨-, before, after, rfl, higher, notLower⟩ := h
    rcases List.mem_append.1 hc with hc | hc
    · exact Nat.lt_trans below (higher c hc hckind)
    · rcases List.mem_cons.1 hc with rfl | hc
      · exact below
      · exact Nat.lt_of_lt_of_le below (notLower c hc hckind)

/-- One more entry of the kind takes the place of the first lowest one if it is lower. -/
theorem IsFirstLowest.concat (h : IsFirstLowest kind entries first) (hkind : e.kind = kind) :
    IsFirstLowest kind (entries ++ [e])
    (if (first.map (·.version)).all (e.version < ·) then some e else first) := by
  split
  case isTrue lower =>
    refine h.concat_of_lower hkind fun d hd => ?_
    rwa [hd, Option.map_some, Option.all_some, decide_eq_true_iff] at lower
  case isFalse notLower =>
    refine h.concat_of_not_lower fun _ => ?_
    cases first with
    | none => exact absurd rfl notLower
    | some d =>
      rw [Option.map_some, Option.all_some, decide_eq_true_iff] at notLower
      exact ⟨d, rfl, Nat.not_lt.1 notLower⟩

theorem IsFirstLowest.mem (h : IsFirstLowest kind entries (some e)) :
    e ∈ entries ∧ e.kind = kind := by
  obtain ⟨hkind, before, after, rfl, -, -⟩ := h
  exact ⟨List.mem_append_right before List.mem_cons_self, hkind⟩

theorem IsFirstLowest.isExtreme (h : IsFirstLowest kind entries first) :
    IsExtreme (fun v u => u ≤ v) kind entries (first.map (·.version)) := by
  cases first with
  | none => exact ⟨fun _ hv => absurd hv (by simp), fun d hd hkind => absurd hkind (h d hd)⟩
  | some e =>
    refine ⟨fun v hv => ?_, fun d hd hkind => ⟨e.version, rfl, ?_⟩⟩
    · obtain rfl := Option.some.inj hv
      exact ⟨e, h.mem.1, h.mem.2, rfl⟩
    · obtain ⟨-, before, after, rfl, higher, notLower⟩ := h
      rcases List.mem_append.1 hd with hd | hd
      · exact Nat.le_of_lt (higher d hd hkind)
      · rcases List.mem_cons.1 hd with rfl | hd
        · exact Nat.le_refl _
        · exact notLower d hd hkind

end FirstLowest

variable {a : Availability} {e : AvailabilityEntry}

theorem supported_add_of_ne (h : e.kind ≠ .supported) : (a.add e).supported = a.supported := by
  unfold add
  cases hkind : e.kind with
  | supported => exact absurd hkind h
  | unsupported => dsimp only; split <;> rfl
  | obsoleted => dsimp only; split <;> rfl

theorem unsupported_add_of_ne (h : e.kind ≠ .unsupported) :
    (a.add e).unsupported = a.unsupported := by
  unfold add
  cases hkind : e.kind with
  | supported => rfl
  | unsupported => exact absurd hkind h
  | obsoleted => dsimp only; split <;> rfl

theorem unsupportedMessage_add_of_ne (h : e.kind ≠ .unsupported) :
    (a.add e).unsupportedMessage = a.unsupportedMessage := by
  unfold add
  cases hkind : e.kind with
  | supported => rfl
  | unsupported => exact absurd hkind h
  | obsoleted => dsimp only; split <;> rfl

/-- The highest supported version counts. -/
theorem supported_isExtreme (entries : List AvailabilityEntry) :
    IsExtreme (· ≤ ·) .supported entries (ofEntries entries).supported := by
  have trans : ∀ u v w : Version, u ≤ v → v ≤ w → u ≤ w := fun _ _ _ => Nat.le_trans
  induction entries using List.reverseRecOn with
  | nil => exact isExtreme_nil
  | append_singleton entries e ih =>
    rw [ofEntries_concat]
    by_cases hkind : e.kind = .supported
    · unfold add
      rw [hkind]
      dsimp only
      cases hs : (ofEntries entries).supported with
      | none =>
        rw [hs] at ih
        exact ih.concat trans hkind (.inl rfl) (Nat.le_refl _) (by simp)
      | some s =>
        rw [hs] at ih
        have later : Version.later s e.version = e.version ∨ s = Version.later s e.version := by
          unfold Version.later
          split
          · exact .inr rfl
          · exact .inl rfl
        refine ih.concat trans hkind (later.imp_right (congrArg some)) ?_ ?_
        · rw [Version.le_iff, Version.rank_later]
          omega
        · rintro w ⟨⟩
          rw [Version.le_iff, Version.rank_later]
          omega
    · rw [supported_add_of_ne hkind]
      exact ih.concat_of_ne hkind

/-- The unsupported version is that of the first entry to give the lowest, and so is the message. -/
theorem unsupported_isFirstLowest (entries : List AvailabilityEntry) :
    ∃ first, IsFirstLowest .unsupported entries first ∧ (ofEntries entries).unsupported =
      first.map (·.version) ∧
      (ofEntries entries).unsupportedMessage = first.bind (·.message) := by
  induction entries using List.reverseRecOn with
  | nil => exact ⟨none, fun _ h => absurd h List.not_mem_nil, rfl, rfl⟩
  | append_singleton entries e ih =>
    obtain ⟨first, isFirst, version, message⟩ := ih
    rw [ofEntries_concat]
    by_cases hkind : e.kind = .unsupported
    · refine ⟨_, isFirst.concat hkind, ?_⟩
      unfold add
      rw [hkind]
      dsimp only
      rw [version]
      split
      · exact ⟨rfl, rfl⟩
      · exact ⟨version, message⟩
    · rw [unsupported_add_of_ne hkind, unsupportedMessage_add_of_ne hkind]
      exact ⟨first, isFirst.concat_of_not_lower fun h => absurd h hkind, version, message⟩

/-- The lowest unsupported version counts. -/
theorem unsupported_isExtreme (entries : List AvailabilityEntry) :
    IsExtreme (fun v u => u ≤ v) .unsupported entries (ofEntries entries).unsupported := by
  obtain ⟨first, isFirst, version, -⟩ := unsupported_isFirstLowest entries
  rw [version]
  exact isFirst.isExtreme

/-- What is said of support, where a version is given in which it begins or ends. -/
def impliedFacts? (a : Availability) : Option Availability :=
  if a.supported = none ∧ a.unsupported = none then none else some { a with obsoleted := none }

end Availability

/-! ## Facts of a layer -/

def entriesOn (p : PlatformName) (entries : List AvailabilityEntry) : List AvailabilityEntry :=
  entries.filter fun e => e.platform = p

theorem mem_entriesOn {p : PlatformName} {entries : List AvailabilityEntry}
    {e : AvailabilityEntry} :
    e ∈ entriesOn p entries ↔ e ∈ entries ∧ e.platform = p := by
  rw [entriesOn, List.mem_filter, decide_eq_true_iff]

theorem entriesOn_eq_nil {p : PlatformName} {entries : List AvailabilityEntry} :
    entriesOn p entries = [] ↔ ∀ e ∈ entries, e.platform ≠ p := by
  rw [entriesOn, List.filter_eq_nil_iff]
  simp only [decide_eq_true_iff, ne_eq]

namespace Contract

variable {p : PlatformName}

theorem get?_add (c : Contract) (e : AvailabilityEntry) (p : PlatformName) :
    (c.add e).get? p = if e.platform = p then some (((c.get? p).getD {}).add e) else c.get? p := by
  show (c.platforms.insert e.platform _).find? p = _
  rw [SortedMap.find?_insert]
  by_cases hp : e.platform = p
  · rw [if_pos hp, if_pos hp.symm, hp]
  · rw [if_neg hp, if_neg (Ne.symm hp)]
    rfl

/-- An entry changes what is said of its own platform only. -/
theorem get?_foldl_add (entries : List AvailabilityEntry) (c : Contract) (p : PlatformName) :
    (entries.foldl add c).get? p =
      if entriesOn p entries = [] then c.get? p
      else some ((entriesOn p entries).foldl Availability.add ((c.get? p).getD {})) := by
  induction entries generalizing c with
  | nil => rfl
  | cons e rest ih =>
    rw [List.foldl_cons, ih, get?_add]
    by_cases hp : e.platform = p
    · have head : entriesOn p (e :: rest) = e :: entriesOn p rest :=
        List.filter_cons_of_pos (decide_eq_true hp)
      rw [head, if_pos hp, if_neg (List.cons_ne_nil _ _), List.foldl_cons, Option.getD_some]
      split
      case isTrue hnil => rw [hnil, List.foldl_nil]
      case isFalse => rfl
    · have skip : entriesOn p (e :: rest) = entriesOn p rest :=
        List.filter_cons_of_neg (by simpa using hp)
      rw [skip, if_neg hp]

/-- What Mac Catalyst takes over from iOS, where it is not named itself. -/
def takenOver? (c : Contract) (a : Availability) : Option (PlatformName × Availability) :=
  if c.platforms.contains .macCatalyst then none else a.impliedFacts?.map (Prod.mk .macCatalyst)

/-- Only iOS implies a platform, so at most one entry is taken over. -/
theorem withImplied_platforms (c : Contract) : c.withImplied.platforms =
    ((c.get? .ios).bind c.takenOver?).toList.foldl (fun m e => m.insert e.1 e.2) c.platforms := by
  let given (p : PlatformName) (a : Availability) : Option (PlatformName × Availability) :=
    if p = .ios then c.takenOver? a else none
  have others : ∀ p a, p ≠ .ios → given p a = none := fun p a hp => if_neg hp
  have ios : given .ios = c.takenOver? := funext fun a => if_pos rfl
  unfold withImplied
  dsimp only
  rw [List.filterMap_congr (g := fun e => given e.1 e.2), SortedMap.filterMap_entries others, ios]
  · rfl
  · intro e _
    unfold PlatformName.implied?
    by_cases hios : e.1 = .ios
    · rw [if_pos hios]
      refine Eq.trans ?_ (if_pos hios).symm
      dsimp only
      unfold takenOver? Availability.impliedFacts? Availability.hasSupportFacts
      cases c.platforms.contains .macCatalyst <;> cases e.2.supported <;>
        cases e.2.unsupported <;> rfl
    · rw [if_neg hios]
      exact (if_neg hios).symm

/-- Mac Catalyst takes over what is said of support on iOS, where it is not named itself. -/
theorem get?_withImplied (c : Contract) (p : PlatformName) :
    c.withImplied.get? p =
      (c.get? p).or
        (if p = .macCatalyst then (c.get? .ios).bind Availability.impliedFacts? else none) := by
  have view : c.withImplied.get? p = c.withImplied.platforms.find? p := rfl
  rw [view, withImplied_platforms]
  cases hios : c.get? .ios with
  | none => simp [get?]
  | some a =>
    rw [Option.bind_some, Option.bind_some, takenOver?]
    cases hnamed : c.platforms.find? .macCatalyst with
    | some b =>
      have contained : c.platforms.contains .macCatalyst = true := congrArg Option.isSome hnamed
      by_cases hp : p = .macCatalyst
      · simp [contained, hp, hnamed, get?]
      · simp [contained, hp, get?]
    | none =>
      have absent : c.platforms.contains .macCatalyst = false := congrArg Option.isSome hnamed
      cases hfacts : a.impliedFacts? <;> by_cases hp : p = .macCatalyst <;>
        simp [absent, hp, hnamed, get?]

/-- What a layer says of a platform: what the entries of the platform say together, or for Mac
Catalyst without any, what those of iOS say of support. -/
theorem get?_ofEntries (entries : List AvailabilityEntry) (p : PlatformName) :
    (ofEntries entries).get? p =
      if entriesOn p entries ≠ [] then some (.ofEntries (entriesOn p entries))
      else if p = .macCatalyst ∧ entriesOn .ios entries ≠ [] then
        (Availability.ofEntries (entriesOn .ios entries)).impliedFacts?
      else none := by
  have none : ∀ q, empty.get? q = none := fun _ => rfl
  rw [ofEntries, get?_withImplied, get?_foldl_add, get?_foldl_add, none, none]
  by_cases hp : entriesOn p entries = []
  · by_cases hcatalyst : p = .macCatalyst
    · subst hcatalyst
      by_cases hios : entriesOn .ios entries = []
      · simp [hp, hios]
      · simp [hp, hios, Availability.ofEntries]
    · simp [hp, hcatalyst]
  · simp [hp, Availability.ofEntries]

end Contract

end PlatformGuard
