import PlatformGuard.Contract.Declared
import PlatformGuard.Proofs.CheckSound
import PlatformGuard.Proofs.ContractLayer

/-!
# Guard attributes and availability attributes

A guard member vouches for platforms, or rules them out, with the same words in which another member
says where it is supported. The worlds in which the guard answers true are then those in which the
other member may be called. Guards go through the facts of platform checks, availability through the
layers of contracts; both take what is said of iOS to be said of Mac Catalyst.

* `Declared.mem_guardWorlds?`: the worlds of a guard, by the checks it stands for.
* `Contract.get?_ofEntries_eq_some_iff`: what a layer says of a platform, by the checks
  its entries stand for.
* `guards_denote_availability`: the two agree.
-/

namespace PlatformGuard

/-- The check that an entry stands for: that the program runs on its platform, at its version or
later. -/
def AvailabilityEntry.check (e : AvailabilityEntry) : GuardFact :=
  .atLeast e.platform e.version

theorem GuardFact.mem_atLeast_worlds {p : PlatformName} {v : Version} {x : World} :
    x ∈ (atLeast p v).worlds ↔ (atLeast p v).speaksOf x.platform = true ∧ v ≤ x.version := by
  rw [mem_worlds_of_negated_eq_false rfl]
  exact and_congr_right fun _ => decide_eq_true_iff

theorem GuardFact.mem_negate_worlds {f : GuardFact} {x : World} :
    x ∈ f.negate.worlds ↔ x ∉ f.worlds := by
  rw [mem_worlds, mem_worlds]
  show (_ ^^ !f.negated) = true ↔ _
  rw [Bool.xor_not, Bool.not_eq_true', Bool.not_eq_true]
  rfl

/-! ## The worlds of a guard -/

theorem Worlds.mem_foldl_inter {α : Type} {f : α → Worlds} {as : List α} {w : Worlds} {x : World} :
    x ∈ as.foldl (fun w a => w.inter (f a)) w ↔ x ∈ w ∧ ∀ a ∈ as, x ∈ f a := by
  induction as generalizing w with
  | nil => simp
  | cons a rest ih => rw [List.foldl_cons, ih, mem_inter, List.forall_mem_cons, and_assoc]

/-- A guard answers true where one of the checks it vouches for does, if there are any, and none
of those it rules out. -/
theorem Declared.mem_guardWorlds? {d : Declared} (h : d.isGuard = true) :
    ∃ w, d.guardWorlds? = some w ∧
    ∀ x, x ∈ w ↔
      (d.supportedGuards = [] ∨ ∃ g ∈ d.supportedGuards, x ∈ (GuardFact.atLeast g.1 g.2).worlds) ∧
        ∀ g ∈ d.unsupportedGuards, x ∉ (GuardFact.atLeast g.1 g.2).worlds := by
  unfold guardWorlds?
  rw [h]
  refine ⟨_, rfl, fun x => ?_⟩
  rw [Worlds.mem_foldl_inter]
  refine and_congr ?_ (forall₂_congr fun _ _ => GuardFact.mem_negate_worlds)
  cases hs : d.supportedGuards with
  | nil => simp
  | cons g rest =>
    rw [List.isEmpty_cons, if_neg Bool.false_ne_true, Contract.mem_foldl_union]
    exact or_congr (iff_of_false Worlds.not_mem_none (List.cons_ne_nil g rest)) Iff.rfl

/-! ## The worlds of a layer -/

/-- Entries of one kind on platforms that are all different. With an entry for iOS there is
none for Mac Catalyst. -/
structure AvailabilityEntry.Spread (kind : AvailabilityKind) (entries : List AvailabilityEntry) :
    Prop where
  kind_eq : ∀ e ∈ entries, e.kind = kind
  distinct : (entries.map (·.platform)).Nodup
  alone : ∀ e ∈ entries, e.platform = .ios → ∀ d ∈ entries, d.platform ≠ .macCatalyst

theorem AvailabilityEntry.speaksOf_check {e : AvailabilityEntry} {p : PlatformName} :
    e.check.speaksOf p = true ↔ p = e.platform ∨ e.platform = .ios ∧ p = .macCatalyst := by
  unfold check GuardFact.speaksOf GuardFact.atLeast
  rw [Bool.or_eq_true, Bool.and_eq_true, decide_eq_true_iff, decide_eq_true_iff, decide_eq_true_iff]

theorem AvailabilityEntry.Spread.eq_of_platform_eq {kind : AvailabilityKind}
    {entries : List AvailabilityEntry} (spread : Spread kind entries) {d e : AvailabilityEntry}
    (hd : d ∈ entries) (he : e ∈ entries) (same : d.platform = e.platform) : d = e :=
  List.inj_on_of_nodup_map spread.distinct hd he same

theorem entriesOn_eq_singleton {entries : List AvailabilityEntry}
    (distinct : (entries.map (·.platform)).Nodup) {e : AvailabilityEntry} (he : e ∈ entries) :
    entriesOn e.platform entries = [e] := by
  induction entries with
  | nil => cases he
  | cons d rest ih =>
    obtain ⟨first, others⟩ := List.nodup_cons.1 distinct
    rcases List.mem_cons.1 he with rfl | he
    · have absent : entriesOn e.platform rest = [] :=
        entriesOn_eq_nil.2 fun d hd same => first (List.mem_map.2 ⟨d, hd, same⟩)
      rw [entriesOn, List.filter_cons_of_pos (by simp)]
      exact congrArg (List.cons e) absent
    · have apart : ¬ d.platform = e.platform :=
        fun same => first (List.mem_map.2 ⟨e, he, same.symm⟩)
      rw [entriesOn, List.filter_cons_of_neg (by simpa using apart)]
      exact ih others he

namespace Contract

variable {kind : AvailabilityKind} {entries : List AvailabilityEntry} {x : World}

/-- A layer says of a platform what the entry says whose check speaks of it. -/
theorem get?_ofEntries_eq_some_iff (spread : AvailabilityEntry.Spread kind entries)
    (hkind : kind ≠ .obsoleted) {p : PlatformName} {a : Availability} :
    (ofEntries entries).get? p = some a ↔
      ∃ e ∈ entries, e.check.speaksOf p = true ∧ a = ({} : Availability).add e := by
  have single : ∀ e ∈ entries, Availability.ofEntries (entriesOn e.platform entries) =
      ({} : Availability).add e := by
    intro e he
    rw [entriesOn_eq_singleton spread.distinct he]
    rfl
  have implied : ∀ e ∈ entries, (({} : Availability).add e).impliedFacts? =
      some (({} : Availability).add e) := by
    intro e he
    unfold Availability.add
    cases hk : e.kind with
    | supported => rfl
    | unsupported => rfl
    | obsoleted => exact absurd ((spread.kind_eq e he).symm.trans hk) hkind
  simp only [AvailabilityEntry.speaksOf_check]
  rw [get?_ofEntries]
  by_cases hp : entriesOn p entries = []
  · have unnamed := entriesOn_eq_nil.1 hp
    rw [if_neg (not_not.2 hp)]
    by_cases hios : p = .macCatalyst ∧ entriesOn .ios entries ≠ []
    · obtain ⟨e, hon⟩ := List.exists_mem_of_ne_nil _ hios.2
      obtain ⟨he, hplatform⟩ := mem_entriesOn.1 hon
      have facts : Availability.ofEntries (entriesOn .ios entries) = ({} : Availability).add e :=
        hplatform ▸ single e he
      rw [if_pos hios, facts, implied e he]
      constructor
      · rintro ⟨⟩
        exact ⟨e, he, .inr ⟨hplatform, hios.1⟩, rfl⟩
      · rintro ⟨d, hd, rfl | ⟨hdios, -⟩, rfl⟩
        · exact absurd rfl (unnamed d hd)
        · rw [spread.eq_of_platform_eq he hd (hplatform.trans hdios.symm)]
    · rw [if_neg hios]
      refine iff_of_false (by simp) ?_
      rintro ⟨e, he, rfl | ⟨heios, hcatalyst⟩, -⟩
      · exact unnamed e he rfl
      · exact hios ⟨hcatalyst, List.ne_nil_of_mem (mem_entriesOn.2 ⟨he, heios⟩)⟩
  · obtain ⟨e, hon⟩ := List.exists_mem_of_ne_nil _ hp
    obtain ⟨he, rfl⟩ := mem_entriesOn.1 hon
    rw [if_pos hp, single e he]
    constructor
    · rintro ⟨⟩
      exact ⟨e, he, .inl rfl, rfl⟩
    · rintro ⟨d, hd, hsame | ⟨hdios, hcatalyst⟩, rfl⟩
      · rw [spread.eq_of_platform_eq he hd hsame]
      · exact absurd hcatalyst (spread.alone d hd hdios e he)

/-- Support at distinct platforms allows the worlds of all the checks. -/
theorem mem_allowedWorlds_of_spread_supported (spread : AvailabilityEntry.Spread .supported entries)
    (named : entries ≠ []) : x ∈ (ofEntries entries).allowedWorlds ↔ ∃ e ∈ entries,
    x ∈ e.check.worlds := by
  have facts : ∀ e ∈ entries, ({} : Availability).add e = { supported := some e.version } := by
    intro e he
    unfold Availability.add
    rw [spread.kind_eq e he]
  have said := fun {p a} => get?_ofEntries_eq_some_iff (p := p) (a := a) spread (by decide)
  have hlist : (ofEntries entries).isAllowList = true := by
    obtain ⟨e, he⟩ := List.exists_mem_of_ne_nil _ named
    refine isAllowList_iff.2
      ⟨e.platform, _, said.2 ⟨e, he, AvailabilityEntry.speaksOf_check.2 (.inl rfl), rfl⟩, ?_⟩
    rw [facts e he]
    rfl
  rw [mem_allowedWorlds_of_isAllowList hlist, mem_allowedVersions]
  constructor
  · rintro ⟨a, s, hget, hs, hle, -⟩
    obtain ⟨e, he, hspeaks, rfl⟩ := said.1 hget
    rw [facts e he] at hs
    obtain rfl := Option.some.inj hs
    exact ⟨e, he, GuardFact.mem_atLeast_worlds.2 ⟨hspeaks, hle⟩⟩
  · rintro ⟨e, he, hx⟩
    obtain ⟨hspeaks, hle⟩ := GuardFact.mem_atLeast_worlds.1 hx
    refine ⟨_, e.version, said.2 ⟨e, he, hspeaks, rfl⟩, ?_⟩
    rw [facts e he]
    exact ⟨rfl, hle, fun u hu => absurd hu (by simp)⟩

/-- Denials at distinct platforms allow the worlds of none of the checks. -/
theorem mem_allowedWorlds_of_spread_unsupported
    (spread : AvailabilityEntry.Spread .unsupported entries) :
    x ∈ (ofEntries entries).allowedWorlds ↔ ∀ e ∈ entries, x ∉ e.check.worlds := by
  have facts : ∀ e ∈ entries,
      ({} : Availability).add e =
        { unsupported := some e.version, unsupportedMessage := e.message } := by
    intro e he
    unfold Availability.add
    rw [spread.kind_eq e he]
    rfl
  have said := fun {p a} => get?_ofEntries_eq_some_iff (p := p) (a := a) spread (by decide)
  have hlist : (ofEntries entries).isAllowList = false := by
    rw [← Bool.not_eq_true, isAllowList_iff]
    rintro ⟨p, a, hget, hallow⟩
    obtain ⟨e, he, -, rfl⟩ := said.1 hget
    rw [facts e he] at hallow
    cases hallow
  rw [mem_allowedWorlds_of_not_isAllowList hlist]
  constructor
  · intro hall e he hx
    obtain ⟨hspeaks, hle⟩ := GuardFact.mem_atLeast_worlds.1 hx
    refine hall _ (.atLeast e.version) (said.2 ⟨e, he, hspeaks, rfl⟩) ?_ ?_
    · rw [facts e he]
      rfl
    · exact VersionRange.mem_iff.2 ⟨hle, fun u hu => absurd hu (by simp [VersionRange.atLeast])⟩
  · rintro hall a r hget hdenied hx
    obtain ⟨e, he, hspeaks, rfl⟩ := said.1 hget
    rw [facts e he] at hdenied
    obtain rfl := Option.some.inj hdenied
    exact hall e he (GuardFact.mem_atLeast_worlds.2 ⟨hspeaks, (VersionRange.mem_iff.1 hx).1⟩)

/-- A check of a platform is enough for support on this platform iff it is for a
version no earlier. -/
theorem atLeast_isSubset_iff {e : AvailabilityEntry} (hkind : e.kind = .supported) (g : Version) :
    (GuardFact.atLeast e.platform g).worlds.isSubset (ofEntries [e]).allowedWorlds = true ↔
      e.version ≤ g := by
  have spread : AvailabilityEntry.Spread .supported [e] := by
    refine ⟨by simpa using hkind, by simp, ?_⟩
    simpa using fun hios => hios ▸ (by decide : PlatformName.ios ≠ .macCatalyst)
  have allowed : ∀ x, x ∈ (ofEntries [e]).allowedWorlds ↔ x ∈ e.check.worlds := by
    intro x
    rw [mem_allowedWorlds_of_spread_supported spread (List.cons_ne_nil e [])]
    simp
  rw [Worlds.isSubset_iff]
  constructor
  · intro hall
    have own : (⟨e.platform, g⟩ : World) ∈ (GuardFact.atLeast e.platform g).worlds :=
      GuardFact.mem_atLeast_worlds.2 ⟨AvailabilityEntry.speaksOf_check.2 (.inl rfl), Nat.le_refl _⟩
    exact (GuardFact.mem_atLeast_worlds.1 ((allowed _).1 (hall _ own))).2
  · intro hle x hx
    obtain ⟨hspeaks, hx⟩ := GuardFact.mem_atLeast_worlds.1 hx
    exact (allowed x).2 (GuardFact.mem_atLeast_worlds.2 ⟨hspeaks, Nat.le_trans hle hx⟩)

end Contract

/-- A guard that vouches for platforms answers true in the worlds in which a member
supported on them may be called; one that rules them out, in those of a member not supported
on them. In particular a check of a platform is enough for a member supported on it iff its
version is no earlier. -/
theorem guards_denote_availability {entries : List AvailabilityEntry} (named : entries ≠ [])
    (distinct : (entries.map (·.platform)).Nodup)
    (noCatalyst : ∀ e ∈ entries, e.platform ≠ .macCatalyst) (d : Declared) :
    let pairs := entries.map fun e => (e.platform, e.version)
    ((∀ e ∈ entries, e.kind = .supported) → d.supportedGuards = pairs → d.unsupportedGuards = [] →
      ∃ w, d.guardWorlds? = some w ∧ (w == (Contract.ofEntries entries).allowedWorlds) = true) ∧
    ((∀ e ∈ entries, e.kind = .unsupported) → d.supportedGuards = [] → d.unsupportedGuards = pairs →
      ∃ w, d.guardWorlds? = some w ∧ (w == (Contract.ofEntries entries).allowedWorlds) = true) ∧
    ∀ e : AvailabilityEntry, e.kind = .supported → ∀ g,
      (GuardFact.atLeast e.platform g).worlds.isSubset
        (Contract.ofEntries [e]).allowedWorlds = true ↔
        e.version ≤ g := by
  intro pairs
  have spread : ∀ kind, (∀ e ∈ entries, e.kind = kind) → AvailabilityEntry.Spread kind entries :=
    fun kind hkind => ⟨hkind, distinct, fun _ _ _ => noCatalyst⟩
  have hpairs : pairs ≠ [] := fun h => named (List.map_eq_nil_iff.1 h)
  refine ⟨fun hkind hs hu => ?_, fun hkind hs hu => ?_, fun e hkind g =>
    Contract.atLeast_isSubset_iff hkind g⟩
  · obtain ⟨w, hw, hmem⟩ :=
      Declared.mem_guardWorlds? (d := d) (by simp [Declared.isGuard, hs, hpairs])
    refine ⟨w, hw, Worlds.beq_iff_same_worlds.2 fun x => ?_⟩
    rw [hmem, hs, hu, Contract.mem_allowedWorlds_of_spread_supported (spread _ hkind) named]
    simp [pairs, named, AvailabilityEntry.check]
  · obtain ⟨w, hw, hmem⟩ :=
      Declared.mem_guardWorlds? (d := d) (by simp [Declared.isGuard, hu, hpairs])
    refine ⟨w, hw, Worlds.beq_iff_same_worlds.2 fun x => ?_⟩
    rw [hmem, hs, hu, Contract.mem_allowedWorlds_of_spread_unsupported (spread _ hkind)]
    simp [pairs, AvailabilityEntry.check]

/-- Guards that vouch for iOS from 14 and Windows, and that rule them out. What they say of iOS they
say of Mac Catalyst, as the attributes of a member do. -/
theorem guards_denote_availability_iosAndWindows :
    let pairs := [(PlatformName.ios, Version.ofMajorMinor 14 0), (.canonical "windows", .zero)]
    let entries := fun kind : AvailabilityKind =>
      [(⟨kind, .ios, .ofMajorMinor 14 0, none, none⟩ : AvailabilityEntry),
        ⟨kind, .canonical "windows", .zero, none, none⟩]
    (∃ w, ({ supportedGuards := pairs } : Declared).guardWorlds? = some w ∧
      (w == (Contract.ofEntries (entries .supported)).allowedWorlds) = true) ∧
    ∃ w, ({ unsupportedGuards := pairs } : Declared).guardWorlds? = some w ∧
      (w == (Contract.ofEntries (entries .unsupported)).allowedWorlds) = true := by
  intro pairs entries
  have named : ∀ kind, entries kind ≠ [] := fun kind => List.cons_ne_nil _ _
  have distinct : ∀ kind, ((entries kind).map (·.platform)).Nodup := fun kind =>
    (by decide +kernel : [PlatformName.ios, .canonical "windows"].Nodup)
  have noCatalyst : ∀ kind, ∀ e ∈ entries kind, e.platform ≠ .macCatalyst := by
    have : PlatformName.ios ≠ .macCatalyst ∧ PlatformName.canonical "windows" ≠
      .macCatalyst := by decide +kernel
    simpa [entries] using this
  constructor
  · refine (guards_denote_availability (named .supported) (distinct _)
      (noCatalyst _) _).1 ?_ rfl rfl
    simp [entries]
  · refine (guards_denote_availability (named .unsupported) (distinct _)
      (noCatalyst _) _).2.1 ?_ rfl rfl
    simp [entries]

end PlatformGuard
