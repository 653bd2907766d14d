import PlatformGuard.Check
import PlatformGuard.Proofs.WorldAlgebra

/-!
# What a check finds

The worlds that a contract allows (`Contract.mem_allowedWorlds_of_isAllowList` and its counterpart
for deny-lists), and that a use reached in a world its target does not allow is found
(`Use.exists_finding`), and no other one (`Use.exists_not_allowed`). That the code around a use
denies the same versions hides nothing: such code does not run there.
-/

namespace PlatformGuard

/-! ## Worlds of a contract -/

namespace Availability

variable {a : Availability} {v : Version}

/-- On a platform with a denied range, support is missing or comes back after it. -/
theorem allowedRange?_of_deniedRange? {r : VersionRange} (h : a.deniedRange? = some r) :
    a.allowedRange? = none ∧ ∀ s, a.supported = some s → v ∈ r → v < s := by
  unfold deniedRange? at h
  unfold allowedRange?
  split at h
  case h_1 u hu hs =>
    rw [hs]
    exact ⟨rfl, fun s hs' => absurd hs' (by simp)⟩
  case h_2 u s hu hs =>
    rw [hu, hs]
    split at h
    case isTrue hle =>
      obtain rfl := Option.some.inj h
      refine ⟨if_neg ?_, fun s' hs' hv => ?_⟩
      · rw [Version.lt_iff]
        rw [Version.le_iff] at hle
        omega
      · obtain rfl := Option.some.inj hs'
        exact (VersionRange.mem_iff.1 hv).2 s rfl
    case isFalse => exact absurd h (by simp)
  case h_3 => exact absurd h (by simp)

end Availability

namespace Contract

variable {c : Contract} {x : World}

theorem mem_allowedPlatforms {p : PlatformName} : p ∈ c.allowedPlatforms ↔
    ∃ a, c.get? p = some a ∧ (a.isAllow = true ∨ a.reintroducedAt?.isSome = true) := by
  rw [allowedPlatforms, List.mem_map]
  constructor
  · rintro ⟨⟨q, a⟩, hentry, rfl⟩
    obtain ⟨hmem, hallowed⟩ := List.mem_filter.1 hentry
    exact ⟨a, SortedMap.mem_entries_iff.1 hmem, by simpa using hallowed⟩
  · rintro ⟨a, hget, hallowed⟩
    refine ⟨(p, a), List.mem_filter.2 ⟨SortedMap.mem_entries_iff.2 hget, ?_⟩, rfl⟩
    simpa using hallowed

/-- A platform with allowed versions is an allowed one. -/
theorem mem_allowedPlatforms_of_mem {p : PlatformName} {v : Version} (h : v ∈ c.allowedVersions p) :
    p ∈ c.allowedPlatforms := by
  rw [mem_allowedPlatforms]
  unfold allowedVersions at h
  split at h
  case h_1 a hget =>
    split at h
    case h_1 r _ hrange => exact ⟨a, hget, .inl (by rw [Availability.isAllow, hrange]; rfl)⟩
    case h_2 v _ hback => exact ⟨a, hget, .inr (by rw [hback]; rfl)⟩
    case h_3 => exact absurd h VersionSet.not_mem_empty
  case h_2 => exact absurd h VersionSet.not_mem_empty

theorem mem_foldl_union {α : Type} {f : α → Worlds} {as : List α} {w : Worlds} :
    x ∈ as.foldl (fun w a => w.union (f a)) w ↔ x ∈ w ∨ ∃ a ∈ as, x ∈ f a := by
  induction as generalizing w with
  | nil => simp
  | cons a rest ih => rw [List.foldl_cons, ih, Worlds.mem_union, List.exists_mem_cons_iff, or_assoc]

/-- An allow-list allows its versions of each platform. -/
theorem mem_allowedWorlds_of_isAllowList (h : c.isAllowList = true) :
    x ∈ c.allowedWorlds ↔ x.version ∈ c.allowedVersions x.platform := by
  rw [allowedWorlds, if_pos h, mem_foldl_union]
  constructor
  · rintro (hnone | ⟨p, -, hp⟩)
    · exact absurd hnone Worlds.not_mem_none
    · obtain ⟨rfl, hversion⟩ := Worlds.mem_only.1 hp
      exact hversion
  · intro hversion
    exact .inr ⟨x.platform, mem_allowedPlatforms_of_mem hversion, Worlds.mem_only.2 ⟨rfl, hversion⟩⟩

theorem mem_foldl_except {entries : List (PlatformName × Availability)} {w : Worlds} :
    x ∈ entries.foldl (fun w e =>
        match e.2.deniedRange? with
        | some r => w.inter (.except e.1 (.ofRange r))
        | none => w) w ↔
      x ∈ w ∧ ∀ e ∈ entries, ∀ r, e.2.deniedRange? = some r → x.platform = e.1 → x.version ∉ r := by
  induction entries generalizing w with
  | nil => simp
  | cons e rest ih =>
    rw [List.foldl_cons, ih, List.forall_mem_cons, ← and_assoc]
    refine and_congr_left fun _ => ?_
    cases e.2.deniedRange? with
    | none => simp
    | some r => simp

/-- A deny-list allows what it does not deny. -/
theorem mem_allowedWorlds_of_not_isAllowList (h : c.isAllowList = false) :
    x ∈ c.allowedWorlds ↔
      ∀ a r, c.get? x.platform = some a → a.deniedRange? = some r → x.version ∉ r := by
  rw [allowedWorlds, if_neg (by simp [h])]
  refine mem_foldl_except.trans ?_
  rw [and_iff_right Worlds.mem_all]
  constructor
  · intro hall a r hget hdenied
    exact hall (x.platform, a) (SortedMap.mem_entries_iff.2 hget) r hdenied rfl
  · rintro hall ⟨p, a⟩ hentry r hdenied rfl
    exact hall a r (SortedMap.mem_entries_iff.1 hentry) hdenied

/-- Where a contract denies versions, it does not allow them, whichever list it is. -/
theorem not_mem_allowedWorlds {a : Availability} {r : VersionRange}
    (hget : c.get? x.platform = some a) (hdenied : a.deniedRange? = some r) (hx : x.version ∈ r) :
    x ∉ c.allowedWorlds := by
  cases hlist : c.isAllowList with
  | false =>
    rw [mem_allowedWorlds_of_not_isAllowList hlist]
    exact fun hall => hall a r hget hdenied hx
  | true =>
    -- support can only come back after the denied range
    obtain ⟨hrange, hback⟩ := Availability.allowedRange?_of_deniedRange? (v := x.version) hdenied
    rw [mem_allowedWorlds_of_isAllowList hlist, allowedVersions, hget]
    simp only [hrange, Availability.reintroducedAt?, hdenied, Option.bind_some]
    cases hsupported : a.supported with
    | none => exact VersionSet.not_mem_empty
    | some s =>
      intro hmem
      have hle : s ≤ x.version := (VersionRange.mem_iff.1 (VersionSet.mem_ofRange.1 hmem)).1
      have hlt := hback s hsupported hx
      rw [Version.le_iff] at hle
      rw [Version.lt_iff] at hlt
      omega

/-- A contract that says nothing allows everything. -/
theorem mem_allowedWorlds_of_isEmpty (h : c.isEmpty = true) : x ∈ c.allowedWorlds := by
  have silent : ∀ p a, c.get? p = some a → a.supported = none ∧ a.unsupported = none := by
    intro p a hget
    have hempty := List.all_eq_true.1 h a (List.mem_map_of_mem (SortedMap.mem_entries_iff.2 hget))
    rw [Availability.isEmpty, Bool.and_eq_true] at hempty
    simpa [Availability.hasSupportFacts] using hempty.1
  have hlist : c.isAllowList = false := by
    rw [Bool.eq_false_iff]
    intro hlist
    obtain ⟨a, ha, hallow⟩ := List.any_eq_true.1 hlist
    obtain ⟨⟨p, a'⟩, hentry, rfl⟩ := List.mem_map.1 ha
    obtain ⟨hs, -⟩ := silent p a' (SortedMap.mem_entries_iff.1 hentry)
    simp [Availability.isAllow, Availability.allowedRange?, hs] at hallow
  rw [mem_allowedWorlds_of_not_isAllowList hlist]
  intro a r hget hdenied
  obtain ⟨-, hu⟩ := silent x.platform a hget
  simp [Availability.deniedRange?, hu] at hdenied

end Contract

/-! ## Findings -/

theorem Use.ruleKind_of_obsoleteOn? {use : Use} {p : PlatformName} {a : Availability}
    {f : Diagnostic} (h : use.obsoleteOn? p a = some f) : f.ruleKind = .obsoleted := by
  unfold obsoleteOn? at h
  split at h
  · cases h
  · split_ifs at h
    exact (Option.some.inj h) ▸ rfl

/-- Code that runs in a world does not deny it to its own callers. -/
theorem Use.declaresDenial_eq_false {use : Use} {x : World} {denied : VersionRange}
    (around : x ∈ use.enclosing.allowedWorlds) (hx : x.version ∈ denied) :
    use.declaresDenial x.platform denied = false := by
  rw [Bool.eq_false_iff, declaresDenial]
  intro hdeclared
  split at hdeclared
  case h_1 own hown =>
    obtain ⟨a, hget, hdenied⟩ := Option.bind_eq_some_iff.1 hown
    exact Contract.not_mem_allowedWorlds hget hdenied
      (VersionRange.covers_iff.1 hdeclared _ hx) around
  case h_2 => exact absurd hdeclared Bool.false_ne_true

/-- A use reached in a world that its target does not allow is found. -/
theorem Use.exists_finding {use : Use} {x : World} (reached : x ∈ use.worlds)
    (around : x ∈ use.enclosing.allowedWorlds) (hx : x ∉ use.contract.allowedWorlds) :
    ∃ d ∈ use.check, (d.ruleKind = .unsupported ∨ d.ruleKind = .onlySupported) ∧
    d.location = use.location ∧
      d.target = use.target := by
  have hempty : use.contract.isEmpty = false := by
    rw [Bool.eq_false_iff]
    exact fun h => hx (Contract.mem_allowedWorlds_of_isEmpty h)
  have hreachable : use.worlds.isUnreachable = false := by
    rw [Bool.eq_false_iff]
    exact fun h => Worlds.isUnreachable_iff.1 h x reached
  rw [check, if_neg (by simp [hempty, hreachable])]
  dsimp only
  cases hlist : use.contract.isAllowList with
  | true =>
    have hsubset : ¬ use.worlds.isSubset use.contract.allowedWorlds = true :=
      fun h => hx (Worlds.isSubset_iff.1 h x reached)
    rw [if_pos rfl, notAllowed?, if_neg hsubset]
    exact ⟨_, List.mem_append_right _ (Option.mem_toList.2 rfl), .inr rfl, rfl, rfl⟩
  | false =>
    rw [Contract.mem_allowedWorlds_of_not_isAllowList hlist] at hx
    push Not at hx
    obtain ⟨a, r, hget, hdenied, hversion⟩ := hx
    have hon : use.isDeniedOn x.platform r = true :=
      VersionSet.intersects_iff.2 ⟨x.version, reached, VersionSet.mem_ofRange.2 hversion⟩
    -- the code around does not declare the denial itself: it runs in this world
    have hown := declaresDenial_eq_false around hversion
    have found : ∃ d, use.deniedOn? x.platform a = some d ∧ d.ruleKind = .unsupported ∧
      d.location = use.location ∧
        d.target = use.target := by
      rw [deniedOn?, hdenied]
      simp only [hon, hown]
      exact ⟨_, rfl, rfl, rfl, rfl⟩
    obtain ⟨d, hd, hrule, hrest⟩ := found
    refine ⟨d, List.mem_append_right _ ?_, .inl hrule, hrest⟩
    rw [if_neg Bool.false_ne_true, List.mem_filterMap]
    exact ⟨(x.platform, a), SortedMap.mem_entries_iff.2 hget, hd⟩

theorem Use.exists_not_allowed_of_notAllowed? {use : Use} {f : Diagnostic}
    (h : use.notAllowed? = some f) :
    (∃ x ∈ use.worlds, x ∉ use.contract.allowedWorlds) ∧ f.location = use.location ∧
    f.target = use.target := by
  unfold notAllowed? at h
  split_ifs at h with hsubset
  rw [Worlds.isSubset_iff] at hsubset
  push Not at hsubset
  obtain rfl := Option.some.inj h
  exact ⟨hsubset, rfl, rfl⟩

theorem Use.exists_not_allowed_of_deniedOn? {use : Use} {p : PlatformName} {a : Availability}
    {f : Diagnostic} (hget : use.contract.get? p = some a) (h : use.deniedOn? p a = some f) :
    (∃ x ∈ use.worlds, x ∉ use.contract.allowedWorlds) ∧ f.location = use.location ∧
    f.target = use.target := by
  unfold deniedOn? at h
  split at h
  case h_1 => cases h
  case h_2 denied hdenied =>
    split_ifs at h with hfound
    obtain ⟨v, hreached, hv⟩ := VersionSet.intersects_iff.1 (Bool.and_eq_true_iff.1 hfound).1
    obtain rfl := Option.some.inj h
    refine ⟨⟨⟨p, v⟩, hreached, ?_⟩, rfl, rfl⟩
    exact Contract.not_mem_allowedWorlds hget hdenied (VersionSet.mem_ofRange.1 hv)

/-- A finding that a symbol is not supported is about a use reached in a world that its
target does not allow. -/
theorem Use.exists_not_allowed {use : Use} {f : Diagnostic} (hf : f ∈ use.check)
    (hrule : f.ruleKind = .unsupported ∨ f.ruleKind = .onlySupported) :
    (∃ x ∈ use.worlds, x ∉ use.contract.allowedWorlds) ∧ f.location = use.location ∧
    f.target = use.target := by
  unfold check at hf
  split at hf
  · cases hf
  · rcases List.mem_append.1 hf with hobsolete | hf
    · obtain ⟨e, -, he⟩ := List.mem_filterMap.1 hobsolete
      rw [ruleKind_of_obsoleteOn? he] at hrule
      rcases hrule with hrule | hrule <;> cases hrule
    · split at hf
      · exact exists_not_allowed_of_notAllowed? (Option.mem_toList.1 hf)
      · obtain ⟨e, hentry, hf⟩ := List.mem_filterMap.1 hf
        exact exists_not_allowed_of_deniedOn? (SortedMap.mem_entries_iff.1 hentry) hf

end PlatformGuard
