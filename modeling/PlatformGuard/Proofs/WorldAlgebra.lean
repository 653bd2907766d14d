import Mathlib.Data.Fintype.EquivFin
import Mathlib.Data.List.Basic
import PlatformGuard.Guard.Fact
import PlatformGuard.Proofs.VersionAlgebra

/-!
# The algebra of worlds

What the operations on sets of worlds do to membership, and what the questions about them ask. A set
mentions finitely many platforms and there is no end of platform names, so a set in which
unmentioned platforms are possible has a world on one of them: `PlatformName.exists_fresh` is what
ties `others` to membership.

* `mem_inter`, `mem_union`, `mem_compl`, `mem_sdiff`, `mem_only`, `mem_except`:
  membership after an operation.
* `mem_mentionedPlatforms`: the platforms mentioned are those that do not go without saying.
* `isUnreachable_iff`, `isAll_iff`, `isSubset_iff`: what the questions ask.
* `beq_iff_same_worlds`: two sets are equal iff they have the same worlds.
* `GuardFact.mem_worlds`: where a guard fact holds.
* `worlds_canonical_algebra`: all of it together.
-/

namespace PlatformGuard

/-! ## Names without end -/

/-- A name of `n` equal letters. -/
def PlatformName.row (n : Nat) : PlatformName where
  text := String.ofList (List.replicate n 'x')
  canonical_text := by
    have kept : Text.dropBlanks (List.replicate n 'x') = List.replicate n 'x' := by
      cases n with
      | zero => rfl
      | succ n =>
        have start : (List.replicate (n + 1) 'x').dropWhile Text.isBlank =
            List.replicate (n + 1) 'x' :=
          Text.dropWhile_eq_self fun c hc => by
            obtain rfl : 'x' = c := by simpa [List.replicate_succ] using hc
            decide
        rw [Text.dropBlanks, start, Text.dropBlankEnd, List.reverse_replicate, start,
          List.reverse_replicate]
    have folded : Text.lower (Text.trim (String.ofList (List.replicate n 'x'))) =
        String.ofList (List.replicate n 'x') := by
      rw [Text.trim, String.toList_ofList, kept, Text.lower, String.toList_ofList,
        List.map_replicate]
      rfl
    have plain : String.ofList (List.replicate n 'x') ≠ "osx" := by
      intro h
      have first : 'o' ∈ List.replicate n 'x' := by
        rw [← String.toList_ofList (l := List.replicate n 'x'), h]
        decide
      exact absurd (List.eq_of_mem_replicate first) (by decide)
    simp [canonicalText, platformAliases, folded, plain]

theorem PlatformName.row_injective : Function.Injective PlatformName.row := by
  intro m n h
  have texts : String.ofList (List.replicate m 'x') = String.ofList (List.replicate n 'x') :=
    congrArg PlatformName.text h
  simpa using congrArg String.length texts

instance : Infinite PlatformName := Infinite.of_injective _ PlatformName.row_injective

/-- No list has all platform names. -/
theorem PlatformName.exists_fresh (ps : List PlatformName) : ∃ p, p ∉ ps := by
  obtain ⟨p, hp⟩ := Infinite.exists_notMem_finset ps.toFinset
  exact ⟨p, by simpa using hp⟩

/-! ## Maps up to the meaning of their values -/

theorem beq_iff_map_eq {α γ : Type} [BEq α] {f : α → γ} (hf : ∀ a b, (a == b) = true ↔ f a = f b)
    (xs ys : List α) : (xs == ys) = true ↔ xs.map f = ys.map f := by
  induction xs generalizing ys with
  | nil => cases ys <;> simp
  | cons x xs ih =>
    cases ys with
    | nil => simp
    | cons y ys =>
      rw [List.cons_beq_cons, Bool.and_eq_true, hf, ih, List.map_cons, List.map_cons,
        List.cons.injEq]

namespace SortedMap

variable {κ β γ : Type} [LT κ] [DecidableEq κ]

theorem find?_mapValues (f : β → γ) (m : SortedMap κ β) (k : κ) :
    (m.mapValues f).find? k = (m.find? k).map f := by
  show lookup k (m.entries.map fun e => (e.1, f e.2)) = (lookup k m.entries).map f
  induction m.entries with
  | nil => rfl
  | cons e rest ih =>
    rw [List.map_cons, lookup, lookup, ih]
    split <;> rfl

/-- Where equality of values is equality of what they mean, so is equality of maps. -/
theorem beq_iff_mapValues_eq [BEq β] {f : β → γ} (hf : ∀ a b : β, (a == b) = true ↔ f a = f b)
    {m n : SortedMap κ β} :
    (m == n) = true ↔ m.mapValues f = n.mapValues f := by
  have pair_iff : ∀ a b : κ × β, (a == b) = true ↔ (a.1, f a.2) = (b.1, f b.2) := by
    rintro ⟨k, a⟩ ⟨j, b⟩
    rw [Prod.mk.injEq, ← hf, ← beq_iff_eq (a := k), ← Bool.and_eq_true]
    exact Iff.rfl
  have entries_iff := beq_iff_map_eq pair_iff m.entries n.entries
  have beq_entries : (m == n) = (m.entries == n.entries) := rfl
  rw [beq_entries, entries_iff, mapValues, mapValues, SortedMap.mk.injEq]

end SortedMap

def VersionSet.members (s : VersionSet) : Set Version := fun v => v ∈ s

theorem VersionSet.beq_iff_members_eq {s t : VersionSet} :
    (s == t) = true ↔ s.members = t.members := by
  rw [beq_iff_same_members, Set.ext_iff]
  exact Iff.rfl

namespace Worlds

/-! ## Membership after setting versions -/

theorem mem_defaultVersions {others : Bool} {v : Version} :
    v ∈ defaultVersions others ↔ others = true := by
  cases others <;> simp [defaultVersions]

theorem mem_versionsOf_withVersions {w : Worlds} {p q : PlatformName} {versions : VersionSet}
    {v : Version} :
    v ∈ (w.withVersions p versions).versionsOf q ↔
      if q = p then v ∈ versions else v ∈ w.versionsOf q := by
  rw [versionsOf_withVersions]
  by_cases hq : q = p
  · rw [if_pos hq, if_pos hq]
    split
    case isTrue same => exact (VersionSet.beq_iff_same_members.1 same v).symm
    case isFalse _ => exact Iff.rfl
  · rw [if_neg hq, if_neg hq]

/-- Setting the versions of one platform after another: what was set for a platform counts, and what
nothing was set for is as before. -/
theorem mem_versionsOf_foldl {f : PlatformName → VersionSet} {ps : List PlatformName} {w : Worlds}
    {q : PlatformName} {v : Version} :
    v ∈ (ps.foldl (fun w p => w.withVersions p (f p)) w).versionsOf q ↔
      if q ∈ ps then v ∈ f q else v ∈ w.versionsOf q := by
  induction ps generalizing w with
  | nil => simp
  | cons p rest ih =>
    rw [List.foldl_cons, ih, mem_versionsOf_withVersions]
    by_cases hrest : q ∈ rest
    · simp [hrest]
    · by_cases hq : q = p <;> simp [hrest, hq]

/-- A platform that is not mentioned has the versions that go without saying. -/
theorem versionsOf_of_not_mem {w : Worlds} {p : PlatformName} (h : p ∉ w.platforms.keys) :
    w.versionsOf p = defaultVersions w.others := by
  have absent : w.platforms.find? p = Option.none := by
    cases hp : w.platforms.find? p with
    | none => rfl
    | some versions => exact absurd (SortedMap.mem_keys_iff.2 ⟨versions, hp⟩) h
  rw [versionsOf, absent, Option.getD_none]

theorem mem_versionsOf_combine {op : VersionSet → VersionSet → VersionSet}
    {others : Bool} {a b : Worlds} {q : PlatformName} {v : Version} :
    v ∈ (combine op others a b).versionsOf q ↔
      if q ∈ a.platforms.keys ++ b.platforms.keys then v ∈ op (a.versionsOf q) (b.versionsOf q)
      else others = true := by
  rw [combine, mem_versionsOf_foldl (f := fun p => op (a.versionsOf p) (b.versionsOf p)),
    versionsOf_base, mem_defaultVersions]

/-! ## Operations -/

@[simp] theorem mem_base {others : Bool} {x : World} : x ∈ base others ↔ others = true := by
  rw [mem_iff, versionsOf_base, mem_defaultVersions]

@[simp] theorem mem_all {x : World} : x ∈ all :=
  mem_base.2 rfl

@[simp] theorem not_mem_none {x : World} : x ∉ none :=
  fun h => Bool.false_ne_true (mem_base.1 h)

@[simp] theorem mem_inter {a b : Worlds} {x : World} : x ∈ a.inter b ↔ x ∈ a ∧ x ∈ b := by
  rw [mem_iff, inter, mem_versionsOf_combine]
  split
  case isTrue _ => rw [VersionSet.mem_inter, mem_iff, mem_iff]
  case isFalse h =>
    rw [List.mem_append, not_or] at h
    rw [mem_iff, mem_iff, versionsOf_of_not_mem h.1, versionsOf_of_not_mem h.2, mem_defaultVersions,
      mem_defaultVersions, Bool.and_eq_true]

@[simp] theorem mem_union {a b : Worlds} {x : World} : x ∈ a.union b ↔ x ∈ a ∨ x ∈ b := by
  rw [mem_iff, union, mem_versionsOf_combine]
  split
  case isTrue _ => rw [VersionSet.mem_union, mem_iff, mem_iff]
  case isFalse h =>
    rw [List.mem_append, not_or] at h
    rw [mem_iff, mem_iff, versionsOf_of_not_mem h.1, versionsOf_of_not_mem h.2, mem_defaultVersions,
      mem_defaultVersions, Bool.or_eq_true]

/-- The complement goes through the mentioned platforms in turn. -/
theorem compl_eq_foldl (w : Worlds) :
    w.compl = w.platforms.keys.foldl (fun acc p => acc.withVersions p (w.versionsOf p).compl)
    (base !w.others) := by
  rw [compl, SortedMap.keys, List.foldl_map]
  refine List.foldl_ext _ _ _ fun acc e he => ?_
  have found : w.platforms.find? e.1 = some e.2 := SortedMap.mem_entries_iff.1 he
  rw [versionsOf, found, Option.getD_some]

@[simp] theorem mem_compl {w : Worlds} {x : World} : x ∈ w.compl ↔ x ∉ w := by
  rw [mem_iff, compl_eq_foldl, mem_versionsOf_foldl (f := fun p => (w.versionsOf p).compl)]
  split
  case isTrue _ => rw [VersionSet.mem_compl, mem_iff]
  case isFalse h =>
    rw [versionsOf_base, mem_defaultVersions, mem_iff, versionsOf_of_not_mem h, mem_defaultVersions,
      Bool.not_eq_true', Bool.not_eq_true]

@[simp] theorem mem_sdiff {a b : Worlds} {x : World} : x ∈ a.sdiff b ↔ x ∈ a ∧ x ∉ b := by
  rw [sdiff, mem_inter, mem_compl]

@[simp] theorem mem_only {p : PlatformName} {versions : VersionSet} {x : World} :
    x ∈ only p versions ↔ x.platform = p ∧ x.version ∈ versions := by
  rw [mem_iff, only, mem_versionsOf_withVersions]
  by_cases hp : x.platform = p
  · rw [if_pos hp]
    exact ⟨fun h => ⟨hp, h⟩, fun h => h.2⟩
  · rw [if_neg hp]
    exact ⟨fun h => absurd h (not_mem_none (x := x)), fun h => absurd h.1 hp⟩

@[simp] theorem mem_except {p : PlatformName} {versions : VersionSet} {x : World} :
    x ∈ except p versions ↔ ¬ (x.platform = p ∧ x.version ∈ versions) := by
  rw [except, mem_compl, mem_only]

/-! ## Questions -/

/-- Platforms that are not mentioned are possible iff there is a world on one of them. -/
theorem others_iff (w : Worlds) {p : PlatformName} (h : p ∉ w.platforms.keys) {v : Version} :
    w.others = true ↔ (⟨p, v⟩ : World) ∈ w := by
  rw [mem_iff, versionsOf_of_not_mem h, mem_defaultVersions]

theorem mem_mentionedPlatforms {w : Worlds} {p : PlatformName} :
    p ∈ w.mentionedPlatforms ↔ (w.versionsOf p == defaultVersions w.others) = false := by
  unfold mentionedPlatforms
  constructor
  · intro h
    obtain ⟨versions, hfind⟩ := SortedMap.mem_keys_iff.1 h
    rw [versionsOf, hfind]
    exact w.mentioned p versions hfind
  · intro h
    refine Classical.byContradiction fun absent => ?_
    rw [versionsOf_of_not_mem absent, VersionSet.beq_iff_same_members.2 fun _ => Iff.rfl] at h
    cases h

theorem isUnreachable_iff {w : Worlds} : w.isUnreachable = true ↔ ∀ x, x ∉ w := by
  rw [isUnreachable, Bool.and_eq_true, Bool.not_eq_true', List.all_eq_true]
  constructor
  · rintro ⟨hothers, hempty⟩ x hx
    rw [mem_iff] at hx
    cases hp : w.platforms.find? x.platform with
    | none => simp [versionsOf, hp, mem_defaultVersions, hothers] at hx
    | some versions =>
      rw [versionsOf, hp, Option.getD_some] at hx
      exact VersionSet.isEmpty_iff.1 (hempty _ (SortedMap.mem_entries_iff.2 hp)) _ hx
  · intro h
    constructor
    · obtain ⟨p, hp⟩ := PlatformName.exists_fresh w.platforms.keys
      have absent := mt (others_iff w hp (v := .zero)).1 (h _)
      simpa using absent
    · intro e he
      refine VersionSet.isEmpty_iff.2 fun v hv => h ⟨e.1, v⟩ ?_
      rw [mem_iff, versionsOf, SortedMap.mem_entries_iff.1 he]
      exact hv

theorem isSubset_iff {a b : Worlds} : a.isSubset b = true ↔ ∀ x, x ∈ a → x ∈ b := by
  rw [isSubset, Bool.and_eq_true, Bool.not_eq_true', List.all_eq_true]
  constructor
  · rintro ⟨hothers, hall⟩ x hx
    by_cases hp : x.platform ∈ a.platforms.keys ++ b.platforms.keys
    · exact VersionSet.isSubset_iff.1 (hall _ hp) _ hx
    · rw [List.mem_append, not_or] at hp
      have ha : a.others = true := (others_iff a hp.1 (v := x.version)).2 hx
      have hb : b.others = true := by simpa [ha] using hothers
      exact (others_iff b hp.2).1 hb
  · intro h
    constructor
    · obtain ⟨p, hp⟩ := PlatformName.exists_fresh (a.platforms.keys ++ b.platforms.keys)
      rw [List.mem_append, not_or] at hp
      cases ha : a.others with
      | false => rfl
      | true =>
        have hb := (others_iff b hp.2 (v := .zero)).2 (h _ ((others_iff a hp.1).1 ha))
        simp [hb]
    · intro p _
      exact VersionSet.isSubset_iff.2 fun v hv => h ⟨p, v⟩ hv

/-- Equality of sets of worlds is having the same worlds: nothing is mentioned that goes without
saying, so the same worlds on a platform are mentioned alike. -/
theorem beq_iff_same_worlds {a b : Worlds} : (a == b) = true ↔ ∀ x, x ∈ a ↔ x ∈ b := by
  have unfolded : (a == b) = (a.platforms == b.platforms && a.others == b.others) := rfl
  rw [unfolded, Bool.and_eq_true, beq_iff_eq (a := a.others),
    SortedMap.beq_iff_mapValues_eq fun s t => VersionSet.beq_iff_members_eq]
  constructor
  · rintro ⟨hplatforms, hothers⟩ x
    have views := congrArg (fun m => m.find? x.platform) hplatforms
    simp only [SortedMap.find?_mapValues] at views
    rw [mem_iff, mem_iff, versionsOf, versionsOf, hothers]
    cases ha : a.platforms.find? x.platform with
    | none =>
      cases hb : b.platforms.find? x.platform with
      | none => exact Iff.rfl
      | some t => simp [ha, hb] at views
    | some s =>
      cases hb : b.platforms.find? x.platform with
      | none => simp [ha, hb] at views
      | some t =>
        simp only [ha, hb, Option.map_some, Option.some.injEq] at views
        exact Set.ext_iff.1 views x.version
  · intro h
    -- a platform that neither mentions tells how the others stand
    have hothers : a.others = b.others := by
      obtain ⟨p, hp⟩ := PlatformName.exists_fresh (a.platforms.keys ++ b.platforms.keys)
      rw [List.mem_append, not_or] at hp
      rw [Bool.eq_iff_iff, others_iff a hp.1 (v := .zero), others_iff b hp.2 (v := .zero), h]
    refine ⟨SortedMap.ext_find? fun p => ?_, hothers⟩
    have same : ∀ v, v ∈ a.versionsOf p ↔ v ∈ b.versionsOf p := fun v => h ⟨p, v⟩
    rw [SortedMap.find?_mapValues, SortedMap.find?_mapValues]
    cases ha : a.platforms.find? p with
    | none =>
      cases hb : b.platforms.find? p with
      | none => rfl
      | some t =>
        rw [versionsOf, versionsOf, ha, hb, Option.getD_none, Option.getD_some, hothers] at same
        have default_t := VersionSet.beq_iff_same_members.2 fun v => (same v).symm
        rw [b.mentioned p t hb] at default_t
        cases default_t
    | some s =>
      cases hb : b.platforms.find? p with
      | none =>
        rw [versionsOf, versionsOf, ha, hb, Option.getD_none, Option.getD_some, ← hothers] at same
        have default_s := VersionSet.beq_iff_same_members.2 same
        rw [a.mentioned p s ha] at default_s
        cases default_s
      | some t =>
        rw [versionsOf, versionsOf, ha, hb, Option.getD_some, Option.getD_some] at same
        exact congrArg some (Set.ext same)

theorem isAll_iff {w : Worlds} : w.isAll = true ↔ ∀ x, x ∈ w := by
  unfold isAll
  rw [Bool.and_eq_true]
  constructor
  · rintro ⟨hothers, hempty⟩ x
    have unmentioned : x.platform ∉ w.platforms.keys := by
      rw [SortedMap.keys, List.isEmpty_iff.1 hempty]
      exact List.not_mem_nil
    exact (others_iff w unmentioned).1 hothers
  · intro h
    obtain ⟨p, hp⟩ := PlatformName.exists_fresh w.platforms.keys
    have hothers : w.others = true := (others_iff w hp (v := .zero)).2 (h _)
    refine ⟨hothers, List.isEmpty_iff.2 (List.eq_nil_iff_forall_not_mem.2 fun e he => ?_)⟩
    -- a mentioned platform would lack a version
    have lacking := mem_mentionedPlatforms.1 (List.mem_map_of_mem he)
    rw [VersionSet.beq_iff_same_members.2 fun v =>
      iff_of_true (h ⟨e.1, v⟩) (mem_defaultVersions.2 hothers)] at lacking
    cases lacking

end Worlds

/-! ## Guard facts -/

/-- Whether a version stands to the version of a check as the relation says. -/
def GuardRelation.holds (relation : GuardRelation) (bound v : Version) : Bool :=
  match relation with
  | .atLeast => decide (bound ≤ v)
  | .earlierThan => decide (v < bound)

namespace GuardFact

/-- Whether a fact speaks of a platform. What it says of iOS it says of Mac Catalyst. -/
def speaksOf (f : GuardFact) (p : PlatformName) : Bool :=
  decide (p = f.platform) || (decide (f.platform = .ios) && decide (p = .macCatalyst))

theorem mem_versions {f : GuardFact} {v : Version} :
    v ∈ f.versions ↔ f.relation.holds f.version v = true := by
  unfold versions GuardRelation.holds
  rw [VersionSet.mem_ofRange, VersionRange.mem_iff_contains]
  cases f.relation with
  | atLeast =>
    show (decide (f.version ≤ v) && true) = true ↔ _
    rw [Bool.and_true]
  | earlierThan =>
    have first : Version.zero ≤ v := Nat.zero_le _
    show (decide (Version.zero ≤ v) && decide (v < f.version)) = true ↔ _
    rw [decide_eq_true first, Bool.true_and]

/-- The worlds of a fact before it is negated. -/
theorem mem_worlds_of_negated_eq_false {f : GuardFact} (h : f.negated = false) {x : World} :
    x ∈ f.worlds ↔ f.speaksOf x.platform = true ∧ f.relation.holds f.version x.version = true := by
  unfold worlds speaksOf PlatformName.implied?
  rw [h, ← mem_versions]
  by_cases hios : f.platform = .ios
  · simp [hios, or_and_right]
  · simp [hios]

theorem mem_worlds {f : GuardFact} {x : World} :
    x ∈ f.worlds ↔
      (f.speaksOf x.platform && f.relation.holds f.version x.version ^^ f.negated) = true := by
  cases hnegated : f.negated with
  | false => rw [mem_worlds_of_negated_eq_false hnegated, Bool.xor_false, Bool.and_eq_true]
  | true =>
    have plain : f.worlds = (f.negate.worlds).compl := by
      unfold worlds negate
      rw [hnegated]
      rfl
    rw [plain, Worlds.mem_compl,
      mem_worlds_of_negated_eq_false (by simp [negate, hnegated]), Bool.xor_true, Bool.not_eq_true',
      ← Bool.not_eq_true, Bool.and_eq_true]
    rfl

end GuardFact

/-! ## The algebra -/

namespace Worlds

theorem contains_versionsOf {w : Worlds} {p : PlatformName} {v : Version}
    [Decidable ((⟨p, v⟩ : World) ∈ w)] :
    (w.versionsOf p).contains v = decide ((⟨p, v⟩ : World) ∈ w) := by
  rw [Bool.eq_iff_iff, decide_eq_true_iff, mem_iff, VersionSet.mem_iff_contains]

/-- The sets of worlds are a Boolean algebra with one way to write each of its elements. A set
mentions just the platforms whose versions are not those of the platforms it does not mention; the
operations are the Boolean ones on what `versionsOf` answers; being a subset, unreachable,
everything and equal are decided by the worlds alone; and a guard fact holds where its platform, or
one that this implies, stands at a version as it says, or else where it does not. -/
theorem worlds_canonical_algebra :
    (∀ (w : Worlds) (p : PlatformName),
      p ∈ w.mentionedPlatforms ↔ (w.versionsOf p == defaultVersions w.others) = false) ∧
    (∀ (a b : Worlds) (p : PlatformName) (v : Version),
      ((a.union b).versionsOf p).contains v =
        ((a.versionsOf p).contains v || (b.versionsOf p).contains v) ∧
      ((a.inter b).versionsOf p).contains v =
        ((a.versionsOf p).contains v && (b.versionsOf p).contains v) ∧
      (a.compl.versionsOf p).contains v = !(a.versionsOf p).contains v ∧
      ((a.sdiff b).versionsOf p).contains v =
        ((a.versionsOf p).contains v && !(b.versionsOf p).contains v)) ∧
    (∀ (p q : PlatformName) (versions : VersionSet) (v : Version),
      (all.versionsOf q).contains v = true ∧
      (none.versionsOf q).contains v = false ∧
      ((only p versions).versionsOf q).contains v = (decide (q = p) && versions.contains v) ∧
      ((except p versions).versionsOf q).contains v = !(decide (q = p) && versions.contains v)) ∧
    (∀ a b : Worlds,
      (a.isSubset b = true ↔ ∀ p v, (a.versionsOf p).contains v = true →
        (b.versionsOf p).contains v = true) ∧
      (a.isUnreachable = true ↔ ∀ p v, (a.versionsOf p).contains v = false) ∧
      (a.isAll = true ↔ ∀ p v, (a.versionsOf p).contains v = true) ∧
      ((a == b) = true ↔ ∀ p v, (a.versionsOf p).contains v = (b.versionsOf p).contains v)) ∧
    (∀ (f : GuardFact) (p : PlatformName) (v : Version),
      (f.worlds.versionsOf p).contains v =
        ((f.speaksOf p && f.relation.holds f.version v) ^^ f.negated)) := by
  classical
  refine ⟨fun w p => mem_mentionedPlatforms, fun a b p v => ?_,
    fun p q versions v => ?_, fun a b => ?_,
    fun f p v => ?_⟩
  · simp only [contains_versionsOf, mem_union, mem_inter, mem_compl, mem_sdiff]
    exact ⟨Bool.decide_or .., Bool.decide_and .., decide_not,
      (Bool.decide_and ..).trans (by rw [decide_not])⟩
  · rw [contains_versionsOf, contains_versionsOf, contains_versionsOf, contains_versionsOf,
      VersionSet.contains_eq_decide, ← Bool.decide_and, ← decide_not]
    exact ⟨decide_eq_true mem_all, decide_eq_false not_mem_none, decide_eq_decide.2 mem_only,
      decide_eq_decide.2 mem_except⟩
  · have each : ∀ P : World → Prop, (∀ x, P x) ↔ ∀ p v, P ⟨p, v⟩ :=
      fun P => ⟨fun h p v => h ⟨p, v⟩, fun h x => h _ _⟩
    simp only [contains_versionsOf, decide_eq_true_eq, decide_eq_false_iff_not, decide_eq_decide]
    exact ⟨isSubset_iff.trans (each _), isUnreachable_iff.trans (each _), isAll_iff.trans (each _),
      beq_iff_same_worlds.trans (each _)⟩
  · rw [contains_versionsOf, Bool.eq_iff_iff, decide_eq_true_iff, GuardFact.mem_worlds]

end Worlds

end PlatformGuard
