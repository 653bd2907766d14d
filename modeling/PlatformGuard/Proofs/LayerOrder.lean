import Mathlib.Data.List.Pairwise
import PlatformGuard.Proofs.ImpliedPlatform

/-!
# Layers and the order of their entries

The entries of a layer are folded one after the other, and each fact has its own rule for ties. What
comes out is said here without a fold: the highest supported version, the lowest unsupported and
obsoleted ones, and with each of these two the words of the first entry to give it
(`Availability.Summarizes`). Only the words depend on which entry stands first, so that another
order gives the same versions, and the same contract where no two entries tie.

* `Availability.ofEntries_summarizes`: what the entries of one platform say together.
* `Contract.ofEntries_isLayerOf`: what a layer says of each platform.
* `layer_order_independent`: the same for every order of the entries.
-/

namespace PlatformGuard

/-! ## The entries of one platform -/

namespace Availability

/-- What is known of a platform sums up its entries: the highest supported version, and the lowest
unsupported and obsoleted ones with the words of the first entry to give each. -/
structure Summarizes (a : Availability) (entries : List AvailabilityEntry) : Prop where
  supported : IsExtreme (· ≤ ·) .supported entries a.supported
  unsupported : ∃ first, IsFirstLowest .unsupported entries first ∧
    a.unsupported = first.map (·.version) ∧ a.unsupportedMessage = first.bind (·.message)
  obsoleted : ∃ first, IsFirstLowest .obsoleted entries first ∧
    a.obsoleted = first.map fun e => ⟨e.version, e.message, e.url⟩

variable {a b : Availability} {e : AvailabilityEntry} {entries entries' : List AvailabilityEntry}

theorem obsoleted_add_of_ne (h : e.kind ≠ .obsoleted) : (a.add e).obsoleted = a.obsoleted := by
  unfold add
  cases hkind : e.kind with
  | supported => rfl
  | unsupported => dsimp only; split <;> rfl
  | obsoleted => exact absurd hkind h

/-- The obsoletion is that of the first entry to give the lowest version. -/
theorem obsoleted_isFirstLowest (entries : List AvailabilityEntry) :
    ∃ first, IsFirstLowest .obsoleted entries first ∧
      (ofEntries entries).obsoleted = first.map fun e => ⟨e.version, e.message, e.url⟩ := by
  induction entries using List.reverseRecOn with
  | nil => exact ⟨none, fun _ h => absurd h List.not_mem_nil, rfl⟩
  | append_singleton entries e ih =>
    obtain ⟨first, isFirst, obsoletion⟩ := ih
    rw [ofEntries_concat]
    by_cases hkind : e.kind = .obsoleted
    · have lower : (ofEntries entries).obsoleted.all (e.version < ·.version) =
          (first.map (·.version)).all (e.version < ·) := by
        rw [obsoletion, Option.all_map, Option.all_map]
      refine ⟨_, isFirst.concat hkind, ?_⟩
      unfold add
      rw [hkind]
      dsimp only
      rw [lower]
      split
      · rfl
      · exact obsoletion
    · rw [obsoleted_add_of_ne hkind]
      exact ⟨first, isFirst.concat_of_not_lower fun h => absurd h hkind, obsoletion⟩

theorem ofEntries_summarizes (entries : List AvailabilityEntry) :
    (ofEntries entries).Summarizes entries :=
  ⟨supported_isExtreme entries, unsupported_isFirstLowest entries, obsoleted_isFirstLowest entries⟩

/-! ## Another order -/

/-- The versions are the same; the words may differ. -/
structure SameVersions (a b : Availability) : Prop where
  supported : (a.supported == b.supported) = true
  unsupported : (a.unsupported == b.unsupported) = true
  obsoleted : (a.obsoleted.map (·.version) == b.obsoleted.map (·.version)) = true

/-- Two entries agree in kind, platform and version. -/
def Tie (e d : AvailabilityEntry) : Prop :=
  e.kind = d.kind ∧ e.platform = d.platform ∧ (e.version == d.version) = true

instance (e d : AvailabilityEntry) : Decidable (Tie e d) := inferInstanceAs (Decidable (_ ∧ _ ∧ _))

theorem Tie.symm {d : AvailabilityEntry} (h : Tie e d) : Tie d e :=
  ⟨h.1.symm, h.2.1.symm, Version.beq_iff.2 (Version.beq_iff.1 h.2.2).symm⟩

instance : Std.Symm fun e d => ¬ Tie e d := ⟨fun _ _ h h' => h h'.symm⟩

def NoTies (entries : List AvailabilityEntry) : Prop :=
  entries.Pairwise fun e d => ¬ Tie e d

theorem NoTies.eq {d : AvailabilityEntry} (h : NoTies entries) (he : e ∈ entries) (hd : d ∈ entries)
    (kind : e.kind = d.kind) (platform : e.platform = d.platform)
    (version : e.version.rank = d.version.rank) : e = d :=
  Classical.byContradiction fun hne =>
  h.forall he hd hne ⟨kind, platform, Version.beq_iff.2 version⟩

theorem IsExtreme.perm {below : Version → Version → Prop} {kind : AvailabilityKind}
    {found : Option Version} (h : IsExtreme below kind entries found)
    (perm : entries.Perm entries') : IsExtreme below kind entries' found :=
  ⟨fun v hv => (h.1 v hv).imp fun _ given => ⟨perm.mem_iff.1 given.1, given.2⟩, fun e he =>
    h.2 e (perm.mem_iff.2 he)⟩

/-- Two extremes of the same entries have the same version. -/
theorem IsExtreme.rank_eq {below : Version → Version → Prop}
    (antisymm : ∀ u v, below u v → below v u → u.rank = v.rank) {kind : AvailabilityKind}
    {found found' : Option Version} (h : IsExtreme below kind entries found)
    (h' : IsExtreme below kind entries found') :
    found.map Version.rank = found'.map Version.rank := by
  cases found with
  | none => rw [h'.eq_none_iff.2 (h.eq_none_iff.1 rfl)]
  | some v =>
    obtain ⟨e, he, hkind, rfl⟩ := h.1 v rfl
    obtain ⟨v', rfl, hbelow⟩ := h'.2 e he hkind
    obtain ⟨e', he', hkind', rfl⟩ := h'.1 v' rfl
    obtain ⟨v, hv, hbelow'⟩ := h.2 e' he' hkind'
    obtain rfl := Option.some.inj hv
    exact congrArg some (antisymm _ _ hbelow hbelow')

theorem highest_antisymm (u v : Version) (h : u ≤ v) (h' : v ≤ u) : u.rank = v.rank :=
    Nat.le_antisymm h h'

theorem lowest_antisymm (u v : Version) (h : v ≤ u) (h' : u ≤ v) : u.rank = v.rank :=
    Nat.le_antisymm h' h

theorem IsFirstLowest.rank_eq {kind : AvailabilityKind} {first first' : Option AvailabilityEntry}
    (perm : entries.Perm entries') (h : IsFirstLowest kind entries first)
    (h' : IsFirstLowest kind entries' first') :
    first.map (·.version.rank) = first'.map (·.version.rank) := by
  have same := (h.isExtreme.perm perm).rank_eq lowest_antisymm h'.isExtreme
  rwa [Option.map_map, Option.map_map] at same

theorem Summarizes.sameVersions (perm : entries.Perm entries') (h : a.Summarizes entries)
    (h' : b.Summarizes entries') :
    SameVersions a b := by
  obtain ⟨first, isFirst, version, -⟩ := h.unsupported
  obtain ⟨first', isFirst', version', -⟩ := h'.unsupported
  obtain ⟨lowest, isLowest, obsoletion⟩ := h.obsoleted
  obtain ⟨lowest', isLowest', obsoletion'⟩ := h'.obsoleted
  constructor
  · exact Version.option_beq_iff.2 ((h.supported.perm perm).rank_eq highest_antisymm h'.supported)
  · rw [Version.option_beq_iff, version, version', Option.map_map, Option.map_map]
    exact isFirst.rank_eq perm isFirst'
  · rw [Version.option_beq_iff, obsoletion, obsoletion']
    simp only [Option.map_map]
    exact isLowest.rank_eq perm isLowest'

/-- Without ties the first entry to give the lowest version is the only one to give it. -/
theorem IsFirstLowest.eq_of_noTies {kind : AvailabilityKind} {p : PlatformName}
    {first first' : Option AvailabilityEntry} (noTies : NoTies entries)
    (perm : (entriesOn p entries).Perm (entriesOn p entries'))
    (h : IsFirstLowest kind (entriesOn p entries) first)
    (h' : IsFirstLowest kind (entriesOn p entries') first') :
    first = first' := by
  have same := h.rank_eq perm h'
  cases first with
  | none =>
    cases first' with
    | none => rfl
    | some d => cases same
  | some e =>
    cases first' with
    | none => cases same
    | some d =>
      obtain ⟨he, hep⟩ := mem_entriesOn.1 h.mem.1
      obtain ⟨hd, hdp⟩ := mem_entriesOn.1 (perm.mem_iff.2 h'.mem.1)
      rw [noTies.eq he hd (h.mem.2.trans h'.mem.2.symm) (hep.trans hdp.symm) (Option.some.inj same)]

theorem Summarizes.eq_of_noTies {p : PlatformName} (noTies : NoTies entries)
    (perm : (entriesOn p entries).Perm (entriesOn p entries'))
    (h : a.Summarizes (entriesOn p entries)) (h' : b.Summarizes (entriesOn p entries')) :
    a = b := by
  obtain ⟨first, isFirst, version, message⟩ := h.unsupported
  obtain ⟨first', isFirst', version', message'⟩ := h'.unsupported
  obtain ⟨lowest, isLowest, obsoletion⟩ := h.obsoleted
  obtain ⟨lowest', isLowest', obsoletion'⟩ := h'.obsoleted
  obtain rfl := isFirst.eq_of_noTies noTies perm isFirst'
  obtain rfl := isLowest.eq_of_noTies noTies perm isLowest'
  have supported : a.supported = b.supported := by
    have same := (h.supported.perm perm).rank_eq highest_antisymm h'.supported
    cases hs : a.supported with
    | none =>
      rw [hs] at same
      exact (Option.map_eq_none_iff.1 same.symm).symm
    | some v =>
      rw [hs] at same
      obtain ⟨v', hs', hrank⟩ := Option.map_eq_some_iff.1 same.symm
      obtain ⟨e, he, hkind, rfl⟩ := h.supported.1 v hs
      obtain ⟨d, hd, hkind', rfl⟩ := h'.supported.1 v' hs'
      obtain ⟨he, hep⟩ := mem_entriesOn.1 he
      obtain ⟨hd, hdp⟩ := mem_entriesOn.1 (perm.mem_iff.2 hd)
      rw [hs', noTies.eq he hd (hkind.trans hkind'.symm) (hep.trans hdp.symm) hrank.symm]
  cases a
  cases b
  simp only [mk.injEq]
  exact ⟨supported, version.trans version'.symm, message.trans message'.symm,
    obsoletion.trans obsoletion'.symm⟩

theorem SameVersions.impliedFacts? (h : SameVersions a b) :
    Option.Rel SameVersions a.impliedFacts? b.impliedFacts? := by
  have supported : a.supported = none ↔ b.supported = none := by
    rw [← Option.map_eq_none_iff, Version.option_beq_iff.1 h.supported, Option.map_eq_none_iff]
  have unsupported : a.unsupported = none ↔ b.unsupported = none := by
    rw [← Option.map_eq_none_iff, Version.option_beq_iff.1 h.unsupported, Option.map_eq_none_iff]
  unfold Availability.impliedFacts?
  simp only [supported, unsupported]
  split
  · exact .none
  · exact .some ⟨h.supported, h.unsupported, rfl⟩

end Availability

/-! ## Layers -/

namespace Contract

variable {c c' : Contract} {entries entries' : List AvailabilityEntry}

/-- What a contract says of each platform, as the layer of some entries: of a platform with entries
what these say together; of Mac Catalyst without any what those of iOS say of support, and nothing
where they say nothing of it; of others nothing. -/
structure IsLayerOf (c : Contract) (entries : List AvailabilityEntry) : Prop where
  named : ∀ p, entriesOn p entries ≠ [] → ∃ a, c.get? p = some a ∧
    a.Summarizes (entriesOn p entries)
  macCatalyst : entriesOn .macCatalyst entries = [] →
    ∃ ios : Availability, ios.Summarizes (entriesOn .ios entries) ∧
    c.get? .macCatalyst = ios.impliedFacts?
  others : ∀ p, entriesOn p entries = [] → p ≠ .macCatalyst → c.get? p = none

theorem ofEntries_isLayerOf (entries : List AvailabilityEntry) :
    (ofEntries entries).IsLayerOf entries where
  named p hp := by
    rw [get?_ofEntries, if_pos hp]
    exact ⟨_, rfl, Availability.ofEntries_summarizes _⟩
  macCatalyst unnamed :=
    ⟨_, Availability.ofEntries_summarizes _,
      get?_ofEntries_macCatalyst (entriesOn_eq_nil.1 unnamed)⟩
  others p hp hcatalyst := by
    rw [get?_ofEntries, if_neg (not_not.2 hp), if_neg fun h => hcatalyst h.1]

/-- What holds between summaries of the same entries, and is kept where support is taken
over, holds between layers. -/
theorem IsLayerOf.rel {R : Availability → Availability → Prop} (h : c.IsLayerOf entries)
    (h' : c'.IsLayerOf entries') (perm : entries.Perm entries')
    (same : ∀ p a b, a.Summarizes (entriesOn p entries) →
      b.Summarizes (entriesOn p entries') → R a b)
    (implied : ∀ a b, R a b → Option.Rel R a.impliedFacts? b.impliedFacts?) (p : PlatformName) :
    Option.Rel R (c.get? p) (c'.get? p) := by
  have nil_iff : entriesOn p entries = [] ↔ entriesOn p entries' = [] := by
    simp only [entriesOn_eq_nil, perm.mem_iff]
  by_cases hp : entriesOn p entries = []
  · by_cases hcatalyst : p = .macCatalyst
    · subst hcatalyst
      obtain ⟨ios, summary, taken⟩ := h.macCatalyst hp
      obtain ⟨ios', summary', taken'⟩ := h'.macCatalyst (nil_iff.1 hp)
      rw [taken, taken']
      exact implied ios ios' (same .ios ios ios' summary summary')
    · rw [h.others p hp hcatalyst, h'.others p (nil_iff.1 hp) hcatalyst]
      exact .none
  · obtain ⟨a, ha, summary⟩ := h.named p hp
    obtain ⟨b, hb, summary'⟩ := h'.named p fun hnil => hp (nil_iff.2 hnil)
    rw [ha, hb]
    exact .some (same p a b summary summary')

theorem eq_of_get? (h : ∀ p, c.get? p = c'.get? p) : c = c' := by
  cases c
  cases c'
  exact congrArg mk (SortedMap.ext_find? h)

end Contract

/-- A layer says of each platform what its entries say together. In any order the entries give the
same platforms with the same versions; and where no two of them agree in kind, platform and version,
they give the same contract, words included. -/
theorem layer_order_independent (entries entries' : List AvailabilityEntry)
    (perm : entries.Perm entries') :
    (Contract.ofEntries entries).IsLayerOf entries ∧
    (∀ p, Option.Rel Availability.SameVersions ((Contract.ofEntries entries).get? p)
      ((Contract.ofEntries entries').get? p)) ∧
    (Availability.NoTies entries → Contract.ofEntries entries = Contract.ofEntries entries') := by
  have layer := Contract.ofEntries_isLayerOf entries
  have layer' := Contract.ofEntries_isLayerOf entries'
  refine ⟨layer, layer.rel layer' perm ?_ fun _ _ => Availability.SameVersions.impliedFacts?,
    fun noTies => ?_⟩
  · intro p a b summary summary'
    exact summary.sameVersions (perm.filter _) summary'
  · have equal := layer.rel layer' perm
      (fun p a b summary summary' => summary.eq_of_noTies noTies (perm.filter _) summary') (by
        rintro a _ rfl
        cases a.impliedFacts? with
        | none => exact .none
        | some b => exact .some rfl)
    refine Contract.eq_of_get? fun p => ?_
    have said := equal p
    generalize (Contract.ofEntries entries).get? p = x,
      (Contract.ofEntries entries').get? p = y at said
    cases said with
    | some h => rw [h]
    | none => rfl

/-- Two supported versions of iOS, one of them given last, and a denial with its words. -/
theorem layer_order_independent_ios :
    let entries : List AvailabilityEntry :=
      [⟨.supported, .ios, .ofMajorMinor 14 0, none, none⟩,
        ⟨.unsupported, .ios, .ofMajorMinor 17 0, some "use scenes", none⟩,
        ⟨.supported, .ios, .ofMajorMinor 15 0, none, none⟩,
        ⟨.obsoleted, .ios, .ofMajorMinor 16 0, some "old", none⟩]
    entries.Perm entries.reverse ∧ Availability.NoTies entries ∧
      Contract.ofEntries entries = Contract.ofEntries entries.reverse := by
  intro entries
  have perm : entries.Perm entries.reverse := (List.reverse_perm entries).symm
  have noTies : Availability.NoTies entries := by
    unfold Availability.NoTies
    decide
  exact ⟨perm, noTies, (layer_order_independent entries entries.reverse perm).2.2 noTies⟩

end PlatformGuard
