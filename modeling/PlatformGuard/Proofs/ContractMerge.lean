import PlatformGuard.Proofs.CheckSound

/-!
# What a merge of contracts allows

A merge keeps one supported and one unsupported version of each platform
(`Contract.get?_mergeChild`). Two rules are meant to follow: an inner scope adds nothing to an
allow-list around it, and what an inner scope denies stays denied. Neither holds of all contracts,
and this module says of which it does.

* `inner_keeps_allow_list_iff`: an allow-list is not widened iff the merge is an allow-list still,
  and the inner scope supports no platform of which the outer scopes say only that it is obsolete.
* `inner_denial_lost_iff`: a world that the inner scope denies is allowed iff its platform was
  denied by the outer scopes and supported again before the inner denial starts.
-/

namespace PlatformGuard

/-! ## Facts about one platform -/

namespace Availability

variable {a b : Availability} {s u v : Version}

theorem allowedRange?_eq_some {r : VersionRange} : a.allowedRange? = some r ↔
    ∃ s, a.supported = some s ∧ (∀ u, a.unsupported = some u → s < u) ∧ r = ⟨s, a.unsupported⟩ := by
  unfold allowedRange?
  cases a.supported with
  | none => simp
  | some s => cases a.unsupported <;> simp [VersionRange.atLeast, eq_comm]

theorem deniedRange?_eq_some {r : VersionRange} : a.deniedRange? = some r ↔
    ∃ u, a.unsupported = some u ∧ (∀ s, a.supported = some s → u ≤ s) ∧ r = ⟨u, a.supported⟩ := by
  unfold deniedRange?
  cases a.unsupported with
  | none => simp
  | some u => cases a.supported <;> simp [VersionRange.atLeast, eq_comm]

theorem reintroducedAt?_eq_some : a.reintroducedAt? = some s ↔
    a.supported = some s ∧ ∃ u, a.unsupported = some u ∧ u ≤ s := by
  unfold reintroducedAt?
  constructor
  · intro h
    obtain ⟨r, hdenied, hsupported⟩ := Option.bind_eq_some_iff.1 h
    obtain ⟨u, hunsupported, hle, -⟩ := deniedRange?_eq_some.1 hdenied
    exact ⟨hsupported, u, hunsupported, hle s hsupported⟩
  · rintro ⟨hsupported, u, hunsupported, hle⟩
    have hdenied : a.deniedRange? = some ⟨u, a.supported⟩ :=
      deniedRange?_eq_some.2 ⟨u, hunsupported, fun s' hs' => by simp_all, rfl⟩
    rw [hdenied, Option.bind_some, hsupported]

/-! ## Refinement -/

theorem refine_supported_of_silent (ha : a.supported = none) :
    (a.refine b).supported = b.supported := by
  unfold refine
  cases b.unsupported <;> cases b.supported <;> simp [ha]

/-- Support after a refinement is no earlier than the outer support; where there was
none it is the inner one. -/
theorem exists_of_refine_supported (h : (a.refine b).supported = some s) :
    (∃ r, a.supported = some r ∧ r ≤ s) ∨ (a.supported = none ∧ b.supported = some s) := by
  cases ha : a.supported with
  | none => exact .inr ⟨rfl, (refine_supported_of_silent ha).symm.trans h⟩
  | some r =>
    refine .inl ⟨r, rfl, ?_⟩
    unfold refine at h
    dsimp only at h
    rw [ha] at h
    split_ifs at h
    cases hb : b.supported with
    | none =>
      rw [hb] at h
      exact Option.some.inj h ▸ Version.le_iff.2 (Nat.le_refl _)
    | some r' =>
      rw [hb] at h
      rw [← Option.some.inj h, Version.le_iff, Version.rank_later]
      omega

/-- Where the inner scope speaks of support, support is no earlier than it says. -/
theorem exists_refine_supported (h : b.supported = some s) :
    ∃ t, (a.refine b).supported = some t ∧ s ≤ t := by
  unfold refine
  dsimp only
  rw [h]
  cases a.supported with
  | none => cases b.unsupported <;> exact ⟨s, rfl, Nat.le_refl _⟩
  | some r =>
    refine ⟨Version.later r s, by cases b.unsupported <;> rfl, ?_⟩
    rw [Version.le_iff, Version.rank_later]
    omega

/-- An inner denial without support leaves the outer support only where this comes earlier. -/
theorem refine_supported_of_denial (hs : b.supported = none) (hu : b.unsupported = some u) :
    (a.refine b).supported = a.supported.filter fun s => decide (s < u) := by
  unfold refine
  dsimp only
  rw [hs, hu]
  cases a.supported with
  | none => rfl
  | some s =>
    show (if decide (u ≤ s) = true then none else some s) =
      if decide (s < u) = true then some s else none
    by_cases h : u ≤ s
    · have hnot : ¬ s < u := fun hlt => Nat.not_lt.2 (Version.le_iff.1 h) (Version.lt_iff.1 hlt)
      rw [decide_eq_true h, decide_eq_false hnot]
      rfl
    · have hlt : s < u := Version.lt_iff.2 (Nat.not_le.1 h)
      rw [decide_eq_false h, decide_eq_true hlt]
      rfl

/-- The lower of two denials counts. -/
theorem exists_refine_unsupported (hu : b.unsupported = some u) :
    ∃ t, (a.refine b).unsupported = some t ∧ t ≤ u ∧
      ∀ r : Version, r < u → (t ≤ r ↔ ∃ o, a.unsupported = some o ∧ o ≤ r) := by
  have field : (a.refine b).unsupported =
      if a.unsupported.all (u < ·) then some u else a.unsupported := by
    unfold refine
    rw [hu]
  cases ha : a.unsupported with
  | none =>
    refine ⟨u, ?_, Version.le_iff.2 (Nat.le_refl _), fun r hr => ?_⟩
    · rw [field, ha]
      rfl
    · rw [Version.lt_iff] at hr
      simp [Version.le_iff, hr]
  | some o =>
    rw [ha, Option.all_some] at field
    simp only [Option.some.injEq, exists_eq_left', Version.le_iff]
    by_cases h : u < o
    · refine ⟨u, field.trans (if_pos (decide_eq_true h)), Nat.le_refl _, fun r hr => ?_⟩
      rw [Version.lt_iff] at h hr
      omega
    · refine ⟨o, field.trans (if_neg (by simpa using h)), ?_, fun r _ => Iff.rfl⟩
      rw [Version.lt_iff] at h
      omega

end Availability

/-! ## What a merge says of a platform -/

/-- Setting values at the keys of some entries, where one is given: each key is set once. -/
theorem SortedMap.find?_foldl_insert {β γ : Type} (f : PlatformName → β → Option γ)
    {entries : List (PlatformName × β)} (sorted : entries.Pairwise (·.1 < ·.1))
    (m : SortedMap PlatformName γ) (p : PlatformName) :
    (entries.foldl (fun m e => (f e.1 e.2).elim m (m.insert e.1)) m).find? p =
      ((lookup p entries).bind (f p)).or (m.find? p) := by
  induction entries generalizing m with
  | nil => rfl
  | cons e rest ih =>
    obtain ⟨first, others⟩ := List.pairwise_cons.1 sorted
    rw [List.foldl_cons, ih others, lookup]
    by_cases hp : p = e.1
    · have absent : lookup p rest = none := by
        cases hlookup : lookup p rest with
        | none => rfl
        | some b =>
          have later := first _ (mem_of_lookup hlookup)
          rw [hp] at later
          exact absurd later (Std.lt_irrefl)
      rw [absent, if_pos hp, Option.bind_none, Option.none_or, Option.bind_some, hp]
      cases f e.1 e.2 <;> simp
    · rw [if_neg hp]
      cases f e.1 e.2 <;> simp [hp]

namespace Contract

/-- What a merge says of a platform that the inner scope names. -/
def mergedEntry (outer : Contract) (p : PlatformName) (inner : Availability) :
    Option Availability :=
  match outer.get? p with
  | some a => some (a.refine inner)
  | none => if (outer.newcomer inner).isEmpty then none else some (outer.newcomer inner)

variable {outer inner c : Contract} {p : PlatformName} {a b : Availability} {s u v : Version}

theorem get?_mergeChild (outer inner : Contract) (p : PlatformName) :
    (outer.mergeChild inner).get? p = ((inner.get? p).bind (outer.mergedEntry p)).or
      (outer.get? p) := by
  have steps : (fun (m : SortedMap PlatformName Availability) (e : PlatformName × Availability) =>
      match outer.get? e.1 with
      | some a => m.insert e.1 (a.refine e.2)
      | none =>
        let newcomer := outer.newcomer e.2
        if newcomer.isEmpty then m else m.insert e.1 newcomer) =
      fun m e => (outer.mergedEntry e.1 e.2).elim m (m.insert e.1) := by
    funext m e
    unfold mergedEntry
    cases outer.get? e.1 with
    | some a => rfl
    | none => cases h : (outer.newcomer e.2).isEmpty <;> simp [h]
  have folded : (outer.mergeChild inner).platforms =
      inner.platforms.entries.foldl _ outer.platforms :=
    congrArg (fun f => inner.platforms.entries.foldl f outer.platforms) steps
  rw [get?, folded]
  exact SortedMap.find?_foldl_insert outer.mergedEntry inner.platforms.sorted outer.platforms p

theorem get?_mergeChild_of_absent (h : inner.get? p = none) :
    (outer.mergeChild inner).get? p = outer.get? p := by
  rw [get?_mergeChild, h, Option.bind_none, Option.none_or]

theorem get?_mergeChild_of_both (ha : outer.get? p = some a) (hb : inner.get? p = some b) :
    (outer.mergeChild inner).get? p = some (a.refine b) := by
  rw [get?_mergeChild, hb, Option.bind_some, mergedEntry, ha]
  rfl

theorem get?_mergeChild_of_newcomer (ha : outer.get? p = none) (hb : inner.get? p = some b) :
    (outer.mergeChild inner).get? p =
      if (outer.newcomer b).isEmpty then none else some (outer.newcomer b) := by
  rw [get?_mergeChild, hb, Option.bind_some, mergedEntry, ha, Option.or_none]

/-! ## What a contract allows, by its facts -/

theorem isAllowList_iff : c.isAllowList = true ↔ ∃ p a, c.get? p = some a ∧ a.isAllow = true := by
  unfold isAllowList SortedMap.values
  rw [List.any_eq_true]
  constructor
  · rintro ⟨a, ha, hallow⟩
    obtain ⟨⟨p, a'⟩, hentry, rfl⟩ := List.mem_map.1 ha
    exact ⟨p, a', SortedMap.mem_entries_iff.1 hentry, hallow⟩
  · rintro ⟨p, a, hget, hallow⟩
    exact ⟨a, List.mem_map_of_mem (SortedMap.mem_entries_iff.2 hget), hallow⟩

/-- An allow-list allows from the support of a platform on, up to a denial that comes later. -/
theorem mem_allowedVersions : v ∈ c.allowedVersions p ↔
    ∃ a s, c.get? p = some a ∧ a.supported = some s ∧ s ≤ v ∧ ∀ u,
    a.unsupported = some u → s < u → v < u := by
  unfold allowedVersions
  cases c.get? p with
  | none => simp
  | some a =>
    dsimp only
    simp only [Option.some.injEq, exists_eq_left', exists_and_left]
    split
    case h_1 r _ hrange =>
      obtain ⟨s, hs, hlt, rfl⟩ := Availability.allowedRange?_eq_some.1 hrange
      rw [VersionSet.mem_ofRange, VersionRange.mem_iff, hs]
      simp only [Option.some.injEq, exists_eq_left']
      exact and_congr_right fun _ => ⟨fun h u hu _ => h u hu, fun h u hu => h u hu (hlt u hu)⟩
    case h_2 s _ hback =>
      obtain ⟨hs, u, hu, hle⟩ := Availability.reintroducedAt?_eq_some.1 hback
      rw [VersionSet.mem_ofRange, VersionRange.mem_iff, hs, hu]
      simp only [Option.some.injEq, exists_eq_left']
      refine and_congr_right fun _ => iff_of_true (by simp [VersionRange.atLeast]) ?_
      rintro _ rfl hlt
      rw [Version.lt_iff] at hlt
      rw [Version.le_iff] at hle
      omega
    case h_3 hrange hback =>
      refine iff_of_false VersionSet.not_mem_empty ?_
      rintro ⟨s, hs, -⟩
      -- support that comes before every denial is a range, any other comes back
      by_cases hlt : ∀ u, a.unsupported = some u → s < u
      · rw [Availability.allowedRange?_eq_some.2 ⟨s, hs, hlt, rfl⟩] at hrange
        cases hrange
      · push Not at hlt
        obtain ⟨u, hu, hle⟩ := hlt
        rw [Availability.reintroducedAt?_eq_some.2
          ⟨hs, u, hu, Version.le_iff.2 (Nat.not_lt.1 hle)⟩] at hback
        cases hback

/-- From a denial on, a platform is allowed only where support has come back. This is so
in either kind of list. -/
theorem mem_allowedWorlds_of_unsupported (hget : c.get? p = some a)
    (hu : a.unsupported = some u) (hv : u ≤ v) :
    (⟨p, v⟩ : World) ∈ c.allowedWorlds ↔ ∃ s, a.supported = some s ∧ u ≤ s ∧ s ≤ v := by
  rw [Version.le_iff] at hv
  cases hlist : c.isAllowList with
  | true =>
    rw [mem_allowedWorlds_of_isAllowList hlist, mem_allowedVersions]
    constructor
    · rintro ⟨a', s, hget', hs, hle, hbefore⟩
      obtain rfl := Option.some.inj (hget.symm.trans hget')
      refine ⟨s, hs, Version.le_iff.2 (Nat.not_lt.1 fun hlt => ?_), hle⟩
      exact Nat.not_lt.2 hv (Version.lt_iff.1 (hbefore u hu hlt))
    · rintro ⟨s, hs, hback, hle⟩
      refine ⟨a, s, hget, hs, hle, fun u' hu' hlt => ?_⟩
      obtain rfl := Option.some.inj (hu.symm.trans hu')
      exact absurd (Version.lt_iff.1 hlt) (Nat.not_lt.2 (Version.le_iff.1 hback))
  | false =>
    rw [mem_allowedWorlds_of_not_isAllowList hlist]
    constructor
    · intro hallowed
      by_cases hafter : ∀ s, a.supported = some s → u ≤ s
      · -- the platform is denied up to its support, if there is any
        have hdenied := Availability.deniedRange?_eq_some.2 ⟨u, hu, hafter, rfl⟩
        have hout := hallowed a _ hget hdenied
        rw [VersionRange.mem_iff, not_and] at hout
        have hback := hout hv
        push Not at hback
        obtain ⟨s, hs, hle⟩ := hback
        exact ⟨s, hs, hafter s hs, Version.le_iff.2 (Nat.not_lt.1 hle)⟩
      · push Not at hafter
        obtain ⟨s, hs, hlt⟩ := hafter
        have hallow : a.isAllow = true := by
          rw [Availability.isAllow,
            Availability.allowedRange?_eq_some.2 ⟨s, hs, fun u' hu' => ?_, rfl⟩]
          · rfl
          · obtain rfl := Option.some.inj (hu.symm.trans hu')
            exact Version.lt_iff.2 (Nat.not_le.1 hlt)
        rw [isAllowList_iff.2 ⟨p, a, hget, hallow⟩] at hlist
        cases hlist
    · rintro ⟨s, hs, -, hle⟩ a' r hget' hdenied hmem
      obtain rfl := Option.some.inj (hget.symm.trans hget')
      obtain ⟨u', -, -, rfl⟩ := Availability.deniedRange?_eq_some.1 hdenied
      exact Nat.not_lt.2 (Version.le_iff.1 hle)
        (Version.lt_iff.1 ((VersionRange.mem_iff.1 hmem).2 s hs))

/-! ## An allow-list around -/

/-- On the platforms that the outer contract does not deny, a contract allows no
more than the outer one. -/
def StaysWithin (c outer : Contract) : Prop :=
  ∀ p, (∀ a, outer.get? p = some a → a.unsupported = none) →
    ∀ v, (⟨p, v⟩ : World) ∈ c.allowedWorlds → (⟨p, v⟩ : World) ∈ outer.allowedWorlds

/-- The versions of a platform that an allow-list does not deny, if the inner scope does not speak
of support where the list is silent. -/
theorem mem_allowedVersions_of_merge (hlist : outer.isAllowList = true)
    (silent : ∀ a, outer.get? p = some a → a.unsupported = none)
    (unsaid : ∀ a b, outer.get? p = some a → a.hasSupportFacts = false → inner.get? p = some b →
      b.supported = none)
    (h : v ∈ (outer.mergeChild inner).allowedVersions p) : v ∈ outer.allowedVersions p := by
  obtain ⟨m, s, hget, hs, hle, hbefore⟩ := mem_allowedVersions.1 h
  rw [mem_allowedVersions]
  cases hb : inner.get? p with
  | none =>
    rw [get?_mergeChild_of_absent hb] at hget
    exact ⟨m, s, hget, hs, hle, hbefore⟩
  | some b =>
    cases ha : outer.get? p with
    | none =>
      -- a platform is not added to an allow-list around
      rw [get?_mergeChild_of_newcomer ha hb, newcomer, if_pos hlist] at hget
      split_ifs at hget
      obtain rfl := Option.some.inj hget
      cases hs
    | some a =>
      rw [get?_mergeChild_of_both ha hb] at hget
      obtain rfl := Option.some.inj hget
      have hnone := silent a ha
      rcases Availability.exists_of_refine_supported hs with ⟨r, hr, hrs⟩ | ⟨hr, hs⟩
      · exact ⟨a, r, rfl, hr, Nat.le_trans hrs hle, by simp [hnone]⟩
      · rw [unsaid a b ha (by simp [Availability.hasSupportFacts, hr, hnone]) hb] at hs
        cases hs

/-- A merge that stays within an allow-list is one: a deny-list allows the
platforms that nobody names. -/
theorem StaysWithin.isAllowList (h : c.StaysWithin outer) (hlist : outer.isAllowList = true) :
    c.isAllowList = true := by
  by_contra hdeny
  obtain ⟨p, hp⟩ := PlatformName.exists_fresh (outer.platforms.keys ++ c.platforms.keys)
  rw [List.mem_append, not_or] at hp
  have unnamed : ∀ a, outer.get? p ≠ some a :=
    fun a hget => hp.1 (SortedMap.mem_keys_iff.2 ⟨a, hget⟩)
  have added : (⟨p, .zero⟩ : World) ∈ c.allowedWorlds := by
    rw [mem_allowedWorlds_of_not_isAllowList (Bool.eq_false_iff.2 hdeny)]
    exact fun a r hget => absurd (SortedMap.mem_keys_iff.2 ⟨a, hget⟩) hp.2
  have listed := h p (fun a hget => absurd hget (unnamed a)) _ added
  rw [mem_allowedWorlds_of_isAllowList hlist] at listed
  obtain ⟨a, s, hget, -⟩ := mem_allowedVersions.1 listed
  exact unnamed a hget

/-- A platform that the allow-list names without support facts is not supported by the inner scope:
the support would enter the merge as it is. -/
theorem StaysWithin.supported_eq_none (h : (outer.mergeChild inner).StaysWithin outer)
    (hlist : outer.isAllowList = true) (ha : outer.get? p = some a)
    (hfacts : a.hasSupportFacts = false) (hb : inner.get? p = some b) : b.supported = none := by
  obtain ⟨hsupported, hunsupported⟩ : a.supported = none ∧ a.unsupported = none := by
    simpa [Availability.hasSupportFacts] using hfacts
  cases hs : b.supported with
  | none => rfl
  | some s =>
    have added : s ∈ (outer.mergeChild inner).allowedVersions p :=
      mem_allowedVersions.2 ⟨_, s, get?_mergeChild_of_both ha hb,
        (Availability.refine_supported_of_silent hsupported).trans hs,
        Version.le_iff.2 (Nat.le_refl _),
        fun _ _ hlt => hlt⟩
    have silent : ∀ a', outer.get? p = some a' → a'.unsupported = none := by
      intro a' ha'
      rw [← Option.some.inj (ha.symm.trans ha'), hunsupported]
    have listed := h p silent s ((mem_allowedWorlds_of_isAllowList (h.isAllowList hlist)).2 added)
    obtain ⟨a', s', ha', hs', -⟩ :=
      mem_allowedVersions.1 ((mem_allowedWorlds_of_isAllowList hlist).1 listed)
    rw [← Option.some.inj (ha.symm.trans ha'), hsupported] at hs'
    cases hs'

/-- An inner scope adds nothing to an allow-list around it iff two things hold. The merge has an
allowed platform left; or else it becomes a deny-list, and allows all that it does not name. And the
inner scope supports no platform that the outer scopes name without a word about support. -/
theorem inner_keeps_allow_list_iff (outer inner : Contract) (hlist : outer.isAllowList = true) :
    (outer.mergeChild inner).StaysWithin outer ↔
      (outer.mergeChild inner).isAllowList = true ∧
      ∀ p a b, outer.get? p = some a → a.hasSupportFacts = false → inner.get? p = some b →
        b.supported = none := by
  constructor
  · intro h
    exact ⟨h.isAllowList hlist, fun p a b ha hfacts hb => h.supported_eq_none hlist ha hfacts hb⟩
  · rintro ⟨stays, unsaid⟩ p silent v hv
    rw [mem_allowedWorlds_of_isAllowList stays] at hv
    rw [mem_allowedWorlds_of_isAllowList hlist]
    exact mem_allowedVersions_of_merge hlist silent (fun a b => unsaid p a b) hv

def windowsFromTen : Contract :=
    .ofEntries [⟨.supported, .canonical "windows", .ofMajorMinor 10 0, none, none⟩]

def notOnWindows : Contract := .ofEntries [⟨.unsupported, .canonical "windows", .zero, none, none⟩]

/-- Obsolete on Linux, of which nothing else is said. -/
def windowsFromTenOldOnLinux : Contract :=
  .ofEntries [⟨.supported, .canonical "windows", .ofMajorMinor 10 0, none, none⟩,
    ⟨.obsoleted, .canonical "linux", .ofMajorMinor 5 0, none, none⟩]

def onLinux : Contract := .ofEntries [⟨.supported, .canonical "linux", .zero, none, none⟩]

/-- Both conditions are needed: an inner scope that denies the last platform of the list
allows every other one, and one that supports a platform of which only an obsoletion is
known adds this platform. -/
theorem inner_keeps_allow_list_iff_windowsFromTen :
    (windowsFromTen.isAllowList = true ∧
      (windowsFromTen.mergeChild notOnWindows).isAllowList = false ∧
      ¬ (windowsFromTen.mergeChild notOnWindows).StaysWithin windowsFromTen) ∧
    (windowsFromTenOldOnLinux.isAllowList = true ∧
      (windowsFromTenOldOnLinux.mergeChild onLinux).isAllowList = true ∧
      ¬ (windowsFromTenOldOnLinux.mergeChild onLinux).StaysWithin windowsFromTenOldOnLinux) := by
  have denied : (windowsFromTen.mergeChild notOnWindows).isAllowList = false := by decide
  refine ⟨⟨by decide, denied, fun h => ?_⟩, by decide, by decide, fun h => ?_⟩
  · have kept := ((inner_keeps_allow_list_iff _ _ (by decide)).1 h).1
    rw [denied] at kept
    cases kept
  · have unsaid := ((inner_keeps_allow_list_iff _ _ (by decide)).1 h).2 (.canonical "linux")
    exact Option.some_ne_none Version.zero (unsaid _ _ rfl rfl rfl)

/-! ## A denial inside -/

/-- The denial of a platform that the outer scopes do not name is kept. -/
theorem not_mem_allowedWorlds_of_newcomer {r : VersionRange} (ha : outer.get? p = none)
    (hb : inner.get? p = some b) (hdenied : b.deniedRange? = some r) (hv : v ∈ r) :
    (⟨p, v⟩ : World) ∉ (outer.mergeChild inner).allowedWorlds := by
  obtain ⟨u, hu, hafter, rfl⟩ := Availability.deniedRange?_eq_some.1 hdenied
  obtain ⟨hle, hbefore⟩ := VersionRange.mem_iff.1 hv
  have hkept : (outer.newcomer b).unsupported = some u := by
    unfold newcomer
    split_ifs <;> exact hu
  have hnew : (outer.mergeChild inner).get? p = some (outer.newcomer b) := by
    rw [get?_mergeChild_of_newcomer ha hb, if_neg]
    simp [Availability.isEmpty, Availability.hasSupportFacts, hkept]
  rw [mem_allowedWorlds_of_unsupported hnew hkept hle]
  rintro ⟨s, hs, -, hback⟩
  unfold newcomer at hs
  split_ifs at hs
  exact absurd (Version.lt_iff.1 (hbefore s hs)) (Nat.not_lt.2 (Version.le_iff.1 hback))

/-- A world that the inner scope denies is allowed by the merge iff its platform was denied by the
outer scopes, then supported again, and the inner denial starts later and knows of no support. The
one unsupported version that the merge keeps is then that of the outer scopes, which says nothing
about the versions that the inner scope denies. -/
theorem inner_denial_lost_iff (outer inner : Contract) {p : PlatformName} {b : Availability}
    {r : VersionRange} (hb : inner.get? p = some b) (hdenied : b.deniedRange? = some r)
    {v : Version} (hv : v ∈ r) :
    (⟨p, v⟩ : World) ∈ (outer.mergeChild inner).allowedWorlds ↔
      b.supported = none ∧
      ∃ a s, outer.get? p = some a ∧ a.reintroducedAt? = some s ∧ s < r.start := by
  cases ha : outer.get? p with
  | none => exact iff_of_false (not_mem_allowedWorlds_of_newcomer ha hb hdenied hv) (by simp)
  | some a =>
    obtain ⟨u, hu, hafter, rfl⟩ := Availability.deniedRange?_eq_some.1 hdenied
    obtain ⟨hle, hbefore⟩ := VersionRange.mem_iff.1 hv
    obtain ⟨t, ht, htu, hlower⟩ := Availability.exists_refine_unsupported (a := a) hu
    rw [mem_allowedWorlds_of_unsupported (get?_mergeChild_of_both ha hb) ht (Nat.le_trans htu hle)]
    simp only [Option.some.injEq, exists_and_left, exists_eq_left',
      Availability.reintroducedAt?_eq_some]
    cases hs : b.supported with
    | some s =>
      -- support comes back only after what the inner scope denies
      refine iff_of_false ?_ (by simp)
      obtain ⟨s', hs', hss'⟩ := Availability.exists_refine_supported (a := a) hs
      rintro ⟨s'', hs'', -, hback⟩
      obtain rfl := Option.some.inj (hs'.symm.trans hs'')
      have hlt := hbefore s hs
      rw [Version.lt_iff] at hlt
      rw [Version.le_iff] at hss' hback
      omega
    | none =>
      rw [Availability.refine_supported_of_denial hs hu]
      simp only [Option.filter_eq_some_iff, decide_eq_true_eq, true_and]
      constructor
      · rintro ⟨s, ⟨hs, hlt⟩, hts, -⟩
        exact ⟨s, ⟨hs, (hlower s hlt).1 hts⟩, hlt⟩
      · rintro ⟨s, ⟨hs, hback⟩, hlt⟩
        refine ⟨s, ⟨hs, hlt⟩, (hlower s hlt).2 hback, ?_⟩
        exact Nat.le_of_lt (Nat.lt_of_lt_of_le hlt hle)

/-- Denied on Windows, and supported again from 10.0 on. -/
def windowsAgainFromTen : Contract :=
  .ofEntries [⟨.unsupported, .canonical "windows", .zero, none, none⟩,
    ⟨.supported, .canonical "windows", .ofMajorMinor 10 0, none, none⟩]

def notOnWindowsTwelve : Contract :=
  .ofEntries [⟨.unsupported, .canonical "windows", .ofMajorMinor 12 0, none, none⟩]

/-- What an inner scope denies from 12.0 on is allowed where the outer one has
support again from 10.0 on. -/
theorem inner_denial_lost_iff_windowsAgainFromTen :
    (⟨.canonical "windows", .ofMajorMinor 12 0⟩ : World) ∉ notOnWindowsTwelve.allowedWorlds ∧
    (⟨.canonical "windows", .ofMajorMinor 12 0⟩ : World) ∈
      (windowsAgainFromTen.mergeChild notOnWindowsTwelve).allowedWorlds := by
  have denied : Version.ofMajorMinor 12 0 ∈ VersionRange.atLeast (.ofMajorMinor 12 0) :=
    VersionRange.mem_iff_contains.2 (by decide)
  refine ⟨not_mem_allowedWorlds (r := .atLeast (.ofMajorMinor 12 0)) rfl rfl denied, ?_⟩
  refine (inner_denial_lost_iff windowsAgainFromTen notOnWindowsTwelve
    (p := .canonical "windows") rfl rfl denied).2 ?_
  exact ⟨rfl, _, .ofMajorMinor 10 0, rfl, rfl, by decide⟩

end Contract

end PlatformGuard
