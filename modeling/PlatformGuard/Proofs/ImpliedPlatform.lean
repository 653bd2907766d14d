import PlatformGuard.Proofs.ContractLayer

/-!
# Mac Catalyst between layers

Within a layer, an entry that names Mac Catalyst keeps out what is said of iOS. Between layers it
does not. A layer takes over for Mac Catalyst what it says of iOS before it is merged, and a merge
cannot tell what was taken over from what was said. This module says when what the outer scopes say
of Mac Catalyst is the same after a layer that names only iOS.

* `Availability.refine_beq_iff`: when a refinement changes nothing.
* `Contract.get?_ofEntries_macCatalyst`: what a layer takes over.
* `Contract.catalyst_kept_iff`: when the outer scopes keep what they say of Mac Catalyst.
-/

namespace PlatformGuard

namespace Availability

variable {a b : Availability} {s u : Version}

theorem beq_iff : (a == b) = true ↔
    (a.supported == b.supported) = true ∧ (a.unsupported == b.unsupported) = true ∧
      a.unsupportedMessage = b.unsupportedMessage ∧ (a.obsoleted == b.obsoleted) = true := by
  show (a.supported == b.supported && a.unsupported == b.unsupported &&
    a.unsupportedMessage == b.unsupportedMessage && a.obsoleted == b.obsoleted) = true ↔ _
  simp only [Bool.and_eq_true, beq_iff_eq, and_assoc]

theorem obsoleted_beq_refl (o : Option Obsoletion) : (o == o) = true := by
  cases o with
  | none => rfl
  | some o =>
    have unfolded : (o == o) =
      (o.version == o.version && o.message == o.message && o.url == o.url) := rfl
    rw [Option.some_beq_some, unfolded, Bool.and_eq_true, Bool.and_eq_true, Version.beq_iff,
      beq_iff_eq, beq_iff_eq]
    exact ⟨⟨rfl, rfl⟩, rfl⟩

theorem beq_refl (a : Availability) : (a == a) = true :=
  beq_iff.2 ⟨Version.option_beq_iff.2 rfl, Version.option_beq_iff.2 rfl, rfl, obsoleted_beq_refl _⟩

/-! ## When a refinement changes nothing -/

theorem refine_supported_of_supported (h : b.supported = some s) :
    (a.refine b).supported = some (a.supported.elim s (Version.later · s)) := by
  unfold refine
  dsimp only
  rw [h]
  cases a.supported with
  | none => cases b.unsupported <;> rfl
  | some r =>
    rw [Option.elim_some]
    cases b.unsupported <;> rfl

theorem refine_supported_of_no_facts (hs : b.supported = none) (hu : b.unsupported = none) :
    (a.refine b).supported = a.supported := by
  unfold refine
  dsimp only
  rw [hs, hu]
  cases a.supported <;> rfl

/-- Support stays the same iff the inner support is no later than the outer one, and no inner denial
without support takes the outer one away. -/
theorem refine_supported_beq_iff : ((a.refine b).supported == a.supported) = true ↔
    (∀ s, b.supported = some s → ∃ r, a.supported = some r ∧ s ≤ r) ∧
    (b.supported = none → ∀ u, b.unsupported = some u → ∀ r, a.supported = some r → r < u) := by
  rw [Version.option_beq_iff]
  cases hs : b.supported with
  | some s =>
    rw [refine_supported_of_supported hs]
    cases a.supported with
    | none => simp
    | some r =>
      rw [Option.elim_some, Option.map_some, Option.map_some, Option.some.injEq, Version.rank_later]
      simp only [Option.some.injEq, forall_eq', exists_eq_left', reduceCtorEq, false_imp_iff,
        and_true, Version.le_iff]
      omega
  | none =>
    cases hu : b.unsupported with
    | none => simp [refine_supported_of_no_facts hs hu]
    | some u =>
      rw [refine_supported_of_denial hs hu]
      cases a.supported with
      | none => simp
      | some r =>
        rw [Option.filter_some]
        by_cases h : r < u <;> simp [h]

/-- Whether an inner denial replaces the outer one. -/
def lowers (b a : Availability) : Bool :=
  match b.unsupported with
  | some u => a.unsupported.all (u < ·)
  | none => false

theorem lowers_eq_false_iff : b.lowers a = false ↔
    ∀ u, b.unsupported = some u → ∃ o, a.unsupported = some o ∧ o ≤ u := by
  unfold lowers
  cases b.unsupported with
  | none => simp
  | some u =>
    dsimp only
    cases a.unsupported with
    | none => simp
    | some o =>
      rw [Option.all_some, decide_eq_false_iff_not]
      simp only [Option.some.injEq, forall_eq', exists_eq_left', Version.lt_iff,
        Version.le_iff, Nat.not_lt]

/-- The denial stays the same iff the inner one does not replace it. -/
theorem refine_unsupported_beq_iff : ((a.refine b).unsupported == a.unsupported) = true ↔
    b.lowers a = false := by
  have field : (a.refine b).unsupported = if b.lowers a then b.unsupported else a.unsupported := rfl
  rw [field, Version.option_beq_iff]
  cases hlowers : b.lowers a with
  | false => simp
  | true =>
    refine iff_of_false (fun same => ?_) (by simp)
    rw [if_pos rfl] at same
    have kept : b.lowers a = false := by
      refine lowers_eq_false_iff.2 fun u hu => ?_
      rw [hu, Option.map_some] at same
      obtain ⟨o, ho, hrank⟩ := Option.map_eq_some_iff.1 same.symm
      exact ⟨o, ho, Version.le_iff.2 (Nat.le_of_eq hrank)⟩
    rw [kept] at hlowers
    cases hlowers

/-- A refinement that says nothing of obsolescence changes nothing iff support and denial stay the
same: the words go with the denial. -/
theorem refine_beq_iff (h : b.obsoleted = none) : (a.refine b == a) = true ↔
    ((∀ s, b.supported = some s → ∃ r, a.supported = some r ∧ s ≤ r) ∧
      (b.supported = none → ∀ u, b.unsupported = some u → ∀ r, a.supported = some r → r < u)) ∧
    ∀ u, b.unsupported = some u → ∃ o, a.unsupported = some o ∧ o ≤ u := by
  have words : (a.refine b).unsupportedMessage =
      if b.lowers a then b.unsupportedMessage else a.unsupportedMessage := rfl
  have obsoleted : (a.refine b).obsoleted = a.obsoleted := by
    show b.obsoleted.or a.obsoleted = a.obsoleted
    rw [h, Option.none_or]
  rw [beq_iff, refine_supported_beq_iff, refine_unsupported_beq_iff, words, obsoleted,
    obsoleted_beq_refl, ← lowers_eq_false_iff]
  refine and_congr_right fun _ => ⟨fun h => h.1, fun kept => ⟨kept, ?_, rfl⟩⟩
  rw [kept]
  rfl

/-! ## When entries change nothing -/

/-- Entries say nothing that is not said already: no later support, no earlier denial, and no denial
by itself at or below the support. -/
structure Absorbs (a : Availability) (entries : List AvailabilityEntry) : Prop where
  supported : ∀ e ∈ entries, e.kind = .supported → ∃ s, a.supported = some s ∧ e.version ≤ s
  unsupported : ∀ e ∈ entries, e.kind = .unsupported → ∃ u, a.unsupported = some u ∧ u ≤ e.version
  not_withdrawn : (∀ e ∈ entries, e.kind ≠ .supported) →
    ∀ e ∈ entries, e.kind = .unsupported → ∀ s, a.supported = some s → s < e.version

/-- Facts that come from entries refine nothing iff the entries are absorbed: the extremes
stand for all of them. -/
theorem absorbs_iff (entries : List AvailabilityEntry) : a.Absorbs entries ↔
    ((∀ s, (ofEntries entries).supported = some s → ∃ r, a.supported = some r ∧ s ≤ r) ∧
      ((ofEntries entries).supported = none →
        ∀ u, (ofEntries entries).unsupported = some u → ∀ r, a.supported = some r → r < u)) ∧
    ∀ u, (ofEntries entries).unsupported = some u → ∃ o, a.unsupported = some o ∧ o ≤ u := by
  have highest := supported_isExtreme entries
  have lowest := unsupported_isExtreme entries
  rw [highest.forall_iff (P := fun s => ∃ r, a.supported = some r ∧ s ≤ r), highest.eq_none_iff,
    lowest.forall_iff (P := fun u => ∀ r, a.supported = some r → r < u),
    lowest.forall_iff (P := fun u => ∃ o, a.unsupported = some o ∧ o ≤ u)]
  · exact ⟨fun h => ⟨⟨h.supported, h.not_withdrawn⟩, h.unsupported⟩, fun h => ⟨h.1.1, h.2, h.1.2⟩⟩
  · rintro v u hle ⟨o, ho, hou⟩
    exact ⟨o, ho, Nat.le_trans hou hle⟩
  · intro v u hle hbefore r hr
    exact Nat.lt_of_lt_of_le (hbefore r hr) hle
  · rintro v s hle ⟨r, hr, hsr⟩
    exact ⟨r, hr, Nat.le_trans hle hsr⟩

theorem impliedFacts?_eq_none_iff : a.impliedFacts? = none ↔
    a.supported = none ∧ a.unsupported = none := by
  unfold impliedFacts?
  simp

theorem impliedFacts?_eq_some (h : a.impliedFacts? = some b) :
    b = { a with obsoleted := none } := by
  unfold impliedFacts? at h
  split_ifs at h
  exact (Option.some.inj h).symm

end Availability

namespace Contract

variable {entries : List AvailabilityEntry}

/-- A layer that does not name Mac Catalyst says of it what it says of support on iOS. -/
theorem get?_ofEntries_macCatalyst (unnamed : ∀ e ∈ entries, e.platform ≠ .macCatalyst) :
    (ofEntries entries).get? .macCatalyst =
      (Availability.ofEntries (entriesOn .ios entries)).impliedFacts? := by
  rw [get?_ofEntries, if_neg (not_not.2 (entriesOn_eq_nil.2 unnamed))]
  by_cases hios : entriesOn .ios entries = []
  · rw [hios, if_neg (fun h => h.2 rfl)]
    rfl
  · rw [if_pos ⟨rfl, hios⟩]

/-- A platform that the outer scopes do not name stays so iff nothing is left of what the inner
scope says of it: a denial always stays, support is left out within an allow-list. -/
theorem newcomer_isEmpty_iff (outer : Contract) {b : Availability} (h : b.obsoleted = none) :
    (outer.newcomer b).isEmpty = true ↔ b.unsupported = none ∧
    (outer.isAllowList = true ∨ b.supported = none) := by
  unfold newcomer Availability.isEmpty Availability.hasSupportFacts
  cases outer.isAllowList <;> cases hs : b.supported <;> cases hu : b.unsupported <;>
    simp [h, hs, hu]

/-- A layer that names iOS and not Mac Catalyst leaves what the outer scopes say of Mac Catalyst iff
its iOS entries say no more: it is not enough that the outer scopes name Mac Catalyst. -/
theorem catalyst_kept_iff (outer : Contract) (unnamed : ∀ e ∈ entries, e.platform ≠ .macCatalyst) :
    ((outer.mergeChild (ofEntries entries)).get? .macCatalyst == outer.get? .macCatalyst) = true ↔
      match outer.get? .macCatalyst with
      | some a => a.Absorbs (entriesOn .ios entries)
      | none =>
        (∀ e ∈ entriesOn .ios entries, e.kind ≠ .unsupported) ∧
          (outer.isAllowList = true ∨ ∀ e ∈ entriesOn .ios entries, e.kind ≠ .supported) := by
  have inner := get?_ofEntries_macCatalyst unnamed
  generalize entriesOn .ios entries = named at inner ⊢
  rw [← (Availability.supported_isExtreme named).eq_none_iff,
    ← (Availability.unsupported_isExtreme named).eq_none_iff]
  cases ha : outer.get? .macCatalyst with
  | some a =>
    dsimp only
    rw [Availability.absorbs_iff]
    cases hb : (Availability.ofEntries named).impliedFacts? with
    | none =>
      obtain ⟨hs, hu⟩ := Availability.impliedFacts?_eq_none_iff.1 hb
      rw [get?_mergeChild_of_absent (inner.trans hb), ha, hs, hu, Option.some_beq_some, a.beq_refl]
      simp
    | some b =>
      obtain rfl := Availability.impliedFacts?_eq_some hb
      rw [get?_mergeChild_of_both ha (inner.trans hb), Option.some_beq_some,
        Availability.refine_beq_iff rfl]
  | none =>
    dsimp only
    cases hb : (Availability.ofEntries named).impliedFacts? with
    | none =>
      obtain ⟨hs, hu⟩ := Availability.impliedFacts?_eq_none_iff.1 hb
      rw [get?_mergeChild_of_absent (inner.trans hb), ha, hs, hu]
      simp
    | some b =>
      obtain rfl := Availability.impliedFacts?_eq_some hb
      rw [get?_mergeChild_of_newcomer ha (inner.trans hb)]
      refine Iff.trans ?_
        (newcomer_isEmpty_iff outer
          (b := { Availability.ofEntries named with obsoleted := none }) rfl)
      cases (outer.newcomer _).isEmpty <;> simp

/-- Around a layer that supports iOS from 14, support of Mac Catalyst from 15 stays as it is; a
denial of Mac Catalyst does not, it ends where iOS is supported. -/
theorem catalyst_kept_iff_named :
    let ios : AvailabilityEntry := ⟨.supported, .ios, .ofMajorMinor 14 0, none, none⟩
    let supported := ofEntries [⟨.supported, .macCatalyst, .ofMajorMinor 15 0, none, none⟩]
    let denied := ofEntries [⟨.unsupported, .macCatalyst, .zero, none, none⟩]
    ((supported.mergeChild (ofEntries [ios])).get? .macCatalyst == supported.get? .macCatalyst) =
      true ∧
      ¬ ((denied.mergeChild (ofEntries [ios])).get? .macCatalyst == denied.get? .macCatalyst) =
        true := by
  intro ios supported denied
  have unnamed : ∀ e ∈ [ios], e.platform ≠ .macCatalyst :=
    fun e he => List.mem_singleton.1 he ▸ (by decide : PlatformName.ios ≠ .macCatalyst)
  have only : ∀ e ∈ entriesOn .ios [ios], e = ios :=
    fun e he => List.mem_singleton.1 (mem_entriesOn.1 he).1
  have hsupported : supported.get? .macCatalyst = some { supported := some (.ofMajorMinor 15 0) } :=
    rfl
  have hdenied : denied.get? .macCatalyst = some { unsupported := some .zero } := rfl
  constructor
  · rw [catalyst_kept_iff supported unnamed, hsupported]
    have noDenial : ∀ e ∈ entriesOn .ios [ios], e.kind ≠ .unsupported :=
      fun e he => only e he ▸ by decide
    exact ⟨fun e he _ => ⟨_, rfl, only e he ▸ by decide⟩, fun e he h => absurd h (noDenial e he),
      fun _ e he h => absurd h (noDenial e he)⟩
  · rw [catalyst_kept_iff denied unnamed, hdenied]
    intro absorbed
    obtain ⟨s, hs, -⟩ := absorbed.supported ios (mem_entriesOn.2 ⟨List.mem_cons_self, rfl⟩) rfl
    cases hs

end Contract

end PlatformGuard
