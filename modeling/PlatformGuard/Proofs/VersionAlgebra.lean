import PlatformGuard.Version.Set

/-!
# The algebra of version sets

Membership decides everything about a set of versions: each operation is the Boolean operation on
memberships, each question about sets is a question about members, and two sets with the same
members are written alike.

* `VersionRange.covers_iff`: one range covers another iff it has all its versions.
* `mem_union`, `mem_inter`, `mem_compl`, `mem_sdiff`: what the operations do to membership.
* `isEmpty_iff`, `isAll_iff`, `intersects_iff`, `isSubset_iff`: what the questions ask.
* `beq_iff_same_members`: a normal form is the only one with its members.
* `versionSet_canonical_algebra`: all of it together.
-/

namespace PlatformGuard

theorem Version.option_beq_iff {x y : Option Version} :
    (x == y) = true ↔ x.map rank = y.map rank := by
  cases x with
  | none => cases y <;> simp
  | some u =>
    cases y with
    | none => simp
    | some v =>
      rw [Option.some_beq_some, beq_iff, Option.map_some, Option.map_some, Option.some.injEq]

namespace VersionRange

/-! ## Ranges -/

theorem start_mem {r : VersionRange} (filled : r.isEmpty = false) : r.start ∈ r :=
  ⟨Nat.le_refl _, isEmpty_eq_false_iff.1 filled⟩

/-- A range covers another iff it has all its versions. What the other has from the upper bound of
the first on is the later of that bound and its own start. -/
theorem covers_iff {r o : VersionRange} : r.covers o = true ↔ ∀ v, v ∈ o → v ∈ r := by
  constructor
  · intro h v hv
    simp only [covers, Bool.or_eq_true, Bool.and_eq_true, decide_eq_true_eq] at h
    rcases h with hempty | ⟨hstart, hstop⟩
    · exact absurd hv (isEmpty_iff.1 hempty v)
    · refine ⟨Nat.le_trans hstart hv.1, fun e he => ?_⟩
      cases ho : o.stop with
      | none => simp [boundLe, ho, Option.mem_def.1 he] at hstop
      | some f =>
        simp only [boundLe, ho, Option.mem_def.1 he, decide_eq_true_eq] at hstop
        exact Nat.lt_of_lt_of_le (hv.2 f ho) hstop
  · intro h
    cases hfilled : o.isEmpty with
    | true => simp [covers, hfilled]
    | false =>
      have hstart := (h o.start (start_mem hfilled)).1
      have hbound : boundLe o.stop r.stop = true := by
        cases hr : r.stop with
        | none => cases o.stop <;> rfl
        | some e =>
          -- the first version of `o` that is too late for `r`, if there is one
          have late : Version.later o.start e ∉ r := by
            intro hmem
            have := hmem.2 e hr
            rw [Version.lt_iff, Version.rank_later] at this
            omega
          have outside : Version.later o.start e ∉ o := fun hmem => late (h _ hmem)
          have first : o.start ≤ Version.later o.start e := by
            rw [Version.le_iff, Version.rank_later]
            omega
          cases ho : o.stop with
          | none => exact absurd ⟨first, by simp [ho]⟩ outside
          | some f =>
            refine Classical.byContradiction fun hfar => outside ⟨first, fun g hg => ?_⟩
            have below := isEmpty_eq_false_iff.1 hfilled f ho
            obtain rfl : f = g := by simpa [ho] using hg
            simp only [boundLe, decide_eq_true_eq, Version.le_iff] at hfar
            rw [Version.lt_iff] at below ⊢
            rw [Version.rank_later]
            omega
      simp only [covers, Bool.or_eq_true, Bool.and_eq_true, decide_eq_true_eq]
      exact .inr ⟨hstart, hbound⟩

theorem beq_iff {a b : VersionRange} :
    (a == b) = true ↔ a.start.rank = b.start.rank ∧ a.stop.map Version.rank =
      b.stop.map Version.rank := by
  have unfolded : (a == b) = (a.start == b.start && a.stop == b.stop) := rfl
  rw [unfolded, Bool.and_eq_true, Version.beq_iff, Version.option_beq_iff]

theorem mem_congr {a b : VersionRange} (h : (a == b) = true) (v : Version) : v ∈ a ↔ v ∈ b := by
  obtain ⟨hstart, hstop⟩ := beq_iff.1 h
  simp only [mem_iff, Version.le_iff, Version.lt_iff, hstart]
  cases ha : a.stop <;> cases hb : b.stop <;> simp_all

/-! ## Normal lists -/

/-- Of two ranges of a normal list one ends strictly before the other begins,
unless they are the same. -/
theorem eq_or_apart {rs : List VersionRange} (h : rs.Pairwise Apart) {q r : VersionRange}
    (hq : q ∈ rs) (hr : r ∈ rs) : q = r ∨ Apart q r ∨ Apart r q := by
  induction h with
  | nil => cases hq
  | @cons s rest hs _ ih =>
    rcases List.mem_cons.1 hq with hqs | hq' <;> rcases List.mem_cons.1 hr with hrs | hr'
    · exact .inl (hqs.trans hrs.symm)
    · exact .inr (.inl (hqs ▸ hs r hr'))
    · exact .inr (.inr (hrs ▸ hs q hq'))
    · exact ih hq' hr'

/-- A range has no version of one that it ends before. -/
theorem Apart.not_mem {q r : VersionRange} (h : Apart q r) {v : Version} (hv : v ∈ r) : v ∉ q := by
  obtain ⟨e, he, hlt⟩ := h
  intro hq
  have low := hv.1
  have high := hq.2 e he
  rw [Version.le_iff] at low
  rw [Version.lt_iff] at high hlt
  omega

/-- The end of a range of a normal list is a gap: no range of the list has that version. -/
theorem stop_not_mem {rs : List VersionRange} (h : Normal rs) {r q : VersionRange} {e : Version}
    (hr : r ∈ rs) (he : r.stop = some e) (hq : q ∈ rs) : e ∉ q := by
  rcases eq_or_apart h.2 hq hr with rfl | ⟨f, hf, hlt⟩ | ⟨f, hf, hlt⟩
  · intro hmem
    exact Nat.lt_irrefl _ (hmem.2 e he)
  · intro hmem
    have high := hmem.2 f hf
    have filled := isEmpty_eq_false_iff.1 (h.1 r hr) e he
    rw [Version.lt_iff] at high hlt filled
    omega
  · intro hmem
    obtain rfl : e = f := by simpa [he] using hf
    have low := hmem.1
    rw [Version.le_iff] at low
    rw [Version.lt_iff] at hlt
    omega

theorem Normal.tail {r : VersionRange} {rs : List VersionRange} (h : Normal (r :: rs)) :
    Normal rs :=
  ⟨fun q hq => h.1 q (List.mem_cons_of_mem _ hq), (List.pairwise_cons.1 h.2).2⟩

/-- The first range of a normal list starts first. -/
theorem start_le_of_mem {r q : VersionRange} {rs : List VersionRange} (h : Normal (r :: rs))
    (hq : q ∈ r :: rs) :
    r.start ≤ q.start := by
  rcases List.mem_cons.1 hq with rfl | hq
  · exact Nat.le_refl _
  · obtain ⟨e, he, hlt⟩ := (List.pairwise_cons.1 h.2).1 q hq
    have filled := isEmpty_eq_false_iff.1 (h.1 r (List.mem_cons_self ..)) e he
    rw [Version.lt_iff] at hlt filled
    rw [Version.le_iff]
    omega

/-- The versions of the later ranges are those that the first range leaves. -/
theorem exists_mem_tail_iff {r : VersionRange} {rs : List VersionRange} {v : Version}
    (h : Normal (r :: rs)) :
    (∃ q ∈ rs, v ∈ q) ↔ (∃ q ∈ r :: rs, v ∈ q) ∧ v ∉ r := by
  constructor
  · rintro ⟨q, hq, hv⟩
    exact ⟨⟨q, List.mem_cons_of_mem _ hq, hv⟩, ((List.pairwise_cons.1 h.2).1 q hq).not_mem hv⟩
  · rintro ⟨⟨q, hq, hv⟩, hr⟩
    rcases List.mem_cons.1 hq with rfl | hq
    · exact absurd hv hr
    · exact ⟨q, hq, hv⟩

/-! ## One normal form for each set of versions -/

/-- Of two normal lists with the same versions, the first starts no earlier than the second. -/
theorem start_le_start {r s : VersionRange} {rs ss : List VersionRange} (hr : Normal (r :: rs))
    (hs : Normal (s :: ss)) (same : ∀ v, (∃ q ∈ r :: rs, v ∈ q) → ∃ q ∈ s :: ss, v ∈ q) :
    s.start ≤ r.start := by
  have hmem : r.start ∈ r := start_mem (hr.1 r (List.mem_cons_self ..))
  obtain ⟨q, hq, hv⟩ := same r.start ⟨r, List.mem_cons_self .., hmem⟩
  exact Nat.le_trans (start_le_of_mem hs hq) hv.1

/-- Of two normal lists with the same versions and the same first start, where the first range of
one ends, that of the other has ended too. -/
theorem stop_le_stop {r s : VersionRange} {rs ss : List VersionRange} (hr : Normal (r :: rs))
    (same : ∀ v, (∃ q ∈ s :: ss, v ∈ q) → ∃ q ∈ r :: rs, v ∈ q)
    (hstart : s.start ≤ r.start) {e : Version} (he : r.stop = some e) :
    ∃ f, s.stop = some f ∧ f ≤ e := by
  have gap : e ∉ s := by
    intro hmem
    obtain ⟨q, hq, hv⟩ := same e ⟨s, List.mem_cons_self .., hmem⟩
    exact stop_not_mem hr (List.mem_cons_self ..) he hq hv
  have filled := isEmpty_eq_false_iff.1 (hr.1 r (List.mem_cons_self ..)) e he
  have low : s.start ≤ e := Nat.le_trans hstart (Nat.le_of_lt filled)
  cases hs : s.stop with
  | none => exact absurd ⟨low, by simp [hs]⟩ gap
  | some f =>
    refine ⟨f, rfl, Classical.byContradiction fun hfar => gap ⟨low, fun g hg => ?_⟩⟩
    obtain rfl : f = g := by simpa [hs] using hg
    rw [Version.le_iff] at hfar
    rw [Version.lt_iff]
    omega

/-- Normal lists with the same versions are the same lists. -/
theorem beq_of_same_members {rs ss : List VersionRange} (hr : Normal rs) (hs : Normal ss)
    (same : ∀ v, (∃ r ∈ rs, v ∈ r) ↔ ∃ s ∈ ss, v ∈ s) : (rs == ss) = true := by
  induction rs generalizing ss with
  | nil =>
    cases ss with
    | nil => rfl
    | cons s ss =>
      obtain ⟨q, hq, _⟩ :=
        (same s.start).2 ⟨s, List.mem_cons_self .., start_mem (hs.1 s (List.mem_cons_self ..))⟩
      cases hq
  | cons r rs ih =>
    cases ss with
    | nil =>
      obtain ⟨q, hq, _⟩ :=
        (same r.start).1 ⟨r, List.mem_cons_self .., start_mem (hr.1 r (List.mem_cons_self ..))⟩
      cases hq
    | cons s ss =>
      have hsr := start_le_start hr hs fun v => (same v).1
      have hrs := start_le_start hs hr fun v => (same v).2
      have hstart : r.start.rank = s.start.rank := Nat.le_antisymm hrs hsr
      have hstop : r.stop.map Version.rank = s.stop.map Version.rank := by
        have from_r := fun e => stop_le_stop (e := e) hr (fun v => (same v).2) hsr
        have from_s := fun e => stop_le_stop (e := e) hs (fun v => (same v).1) hrs
        cases her : r.stop with
        | none =>
          cases hes : s.stop with
          | none => rfl
          | some f =>
            obtain ⟨e, he, _⟩ := from_s f hes
            simp [her] at he
        | some e =>
          obtain ⟨f, hf, hfe⟩ := from_r e her
          obtain ⟨e', he', hef⟩ := from_s f hf
          obtain rfl : e = e' := by simpa [her] using he'
          rw [hf]
          exact congrArg some (Nat.le_antisymm hef hfe)
      have hhead : (r == s) = true := beq_iff.2 ⟨hstart, hstop⟩
      have htail : (rs == ss) = true := by
        refine ih hr.tail hs.tail fun v => ?_
        rw [exists_mem_tail_iff hr, exists_mem_tail_iff hs, same v, mem_congr hhead]
      rw [List.cons_beq_cons, hhead, htail]
      rfl

theorem exists_mem_congr {rs ss : List VersionRange} (h : (rs == ss) = true) {v : Version} :
    (∃ r ∈ rs, v ∈ r) ↔ ∃ s ∈ ss, v ∈ s := by
  induction rs generalizing ss with
  | nil =>
    cases ss with
    | nil => exact Iff.rfl
    | cons s ss => simp at h
  | cons r rs ih =>
    cases ss with
    | nil => simp at h
    | cons s ss =>
      rw [List.cons_beq_cons, Bool.and_eq_true] at h
      simp only [List.mem_cons, exists_eq_or_imp, mem_congr h.1 v, ih h.2]

/-- What the normal form of a list of ranges looks like: each range has a version, and of two
ranges the first starts first, shares no version with the second, and ends strictly before it, so
that the two do not touch. -/
structure Canonical (rs : List VersionRange) : Prop where
  filled : ∀ r ∈ rs, ∃ v, r.contains v = true
  sorted : rs.Pairwise fun r s => r.start < s.start
  disjoint : rs.Pairwise fun r s => ∀ v, ¬ (r.contains v = true ∧ s.contains v = true)
  separated : rs.Pairwise fun r s => ∃ e, r.stop = some e ∧ e < s.start

theorem Normal.canonical {rs : List VersionRange} (h : Normal rs) : Canonical rs := by
  have starts : ∀ r ∈ rs, r.contains r.start = true :=
    fun r hr => mem_iff_contains.1 (start_mem (h.1 r hr))
  refine ⟨fun r hr => ⟨r.start, starts r hr⟩, ?_, ?_, h.2⟩
  · refine h.2.imp_of_mem fun {r s} hr _ apart => ?_
    obtain ⟨e, he, hlt⟩ := apart
    exact Nat.lt_trans (isEmpty_eq_false_iff.1 (h.1 r hr) e he) hlt
  · refine h.2.imp fun {r s} apart v hv => ?_
    exact apart.not_mem (mem_iff_contains.2 hv.2) (mem_iff_contains.2 hv.1)

end VersionRange

namespace VersionSet

open VersionRange

/-! ## Operations -/

@[simp] theorem mem_union {a b : VersionSet} {v : Version} : v ∈ a.union b ↔ v ∈ a ∨ v ∈ b := by
  rw [union, mem_ofRanges]
  simp only [mem_iff, List.mem_append, or_and_right, exists_or]

@[simp] theorem mem_inter {a b : VersionSet} {v : Version} : v ∈ a.inter b ↔ v ∈ a ∧ v ∈ b := by
  rw [inter, mem_ofRanges]
  constructor
  · rintro ⟨c, hc, hv⟩
    obtain ⟨r, hr, hc⟩ := List.mem_flatMap.1 hc
    obtain ⟨s, hs, rfl⟩ := List.mem_map.1 (List.mem_filter.1 hc).1
    obtain ⟨hvr, hvs⟩ := VersionRange.mem_inter.1 hv
    exact ⟨⟨r, hr, hvr⟩, s, hs, hvs⟩
  · rintro ⟨⟨r, hr, hvr⟩, s, hs, hvs⟩
    have hv : v ∈ r.inter s := VersionRange.mem_inter.2 ⟨hvr, hvs⟩
    refine ⟨r.inter s,
      List.mem_flatMap.2 ⟨r, hr, List.mem_filter.2 ⟨List.mem_map_of_mem hs, ?_⟩⟩, hv⟩
    cases hempty : (r.inter s).isEmpty with
    | false => rfl
    | true => exact absurd hv (VersionRange.isEmpty_iff.1 hempty v)

/-- The gaps of a normal list from a cursor on, where no range starts before the cursor, hold
what the ranges leave. -/
theorem exists_mem_gaps {cursor v : Version} {rs : List VersionRange} (h : Normal rs)
    (ahead : ∀ r ∈ rs, cursor ≤ r.start) :
    (∃ g ∈ gaps (some cursor) rs, v ∈ g) ↔ cursor ≤ v ∧ ¬ ∃ r ∈ rs, v ∈ r := by
  induction rs generalizing cursor with
  | nil => simp [gaps, VersionRange.mem_iff, VersionRange.atLeast]
  | cons r rest ih =>
    have hahead := ahead r (List.mem_cons_self ..)
    -- one gap before the first range, and those from its end on
    have hgap :
        (∃ g ∈ (if cursor < r.start then [(⟨cursor, some r.start⟩ : VersionRange)] else []),
          v ∈ g) ↔ cursor ≤ v ∧ v < r.start := by
      split
      case isTrue _ => simp [VersionRange.mem_iff]
      case isFalse hlt =>
        simp only [List.not_mem_nil, false_and, exists_false, false_iff]
        rintro ⟨low, high⟩
        exact hlt (Nat.lt_of_le_of_lt low high)
    have hafter : (∃ g ∈ gaps r.stop rest, v ∈ g) ↔ (∃ e, r.stop = some e ∧ e ≤ v) ∧
        ¬ ∃ q ∈ rest, v ∈ q := by
      cases hstop : r.stop with
      | none => simp [gaps]
      | some e =>
        rw [ih h.tail fun q hq => ?_]
        · simp
        · obtain ⟨f, hf, hlt⟩ := (List.pairwise_cons.1 h.2).1 q hq
          obtain rfl : e = f := by simpa [hstop] using hf
          exact Nat.le_of_lt hlt
    rw [gaps]
    simp only [List.mem_append, or_and_right, exists_or, hgap, hafter]
    constructor
    · rintro (⟨low, high⟩ | ⟨⟨e, he, hev⟩, hrest⟩)
      · refine ⟨low, ?_⟩
        rintro ⟨q, hq, hv⟩
        have := Nat.le_trans (start_le_of_mem h hq) hv.1
        rw [Version.lt_iff] at high
        omega
      · have filled := isEmpty_eq_false_iff.1 (h.1 r (List.mem_cons_self ..)) e he
        refine ⟨Nat.le_trans hahead (Nat.le_trans (Nat.le_of_lt filled) hev), ?_⟩
        rintro ⟨q, hq, hv⟩
        rcases List.mem_cons.1 hq with rfl | hq
        · exact absurd (hv.2 e he) (Nat.not_lt.2 hev)
        · exact hrest ⟨q, hq, hv⟩
    · rintro ⟨low, hnone⟩
      by_cases high : v < r.start
      · exact .inl ⟨low, high⟩
      · have hr : v ∉ r := fun hv => hnone ⟨r, List.mem_cons_self .., hv⟩
        refine .inr ⟨?_, fun ⟨q, hq, hv⟩ => hnone ⟨q, List.mem_cons_of_mem _ hq, hv⟩⟩
        have from_start : r.start ≤ v := Nat.not_lt.1 high
        cases hstop : r.stop with
        | none => exact absurd ⟨from_start, by simp [hstop]⟩ hr
        | some e =>
          refine ⟨e, rfl, Classical.byContradiction fun hev => hr ⟨from_start, fun f hf => ?_⟩⟩
          obtain rfl : e = f := by simpa [hstop] using hf
          exact Nat.not_le.1 hev

@[simp] theorem mem_compl {s : VersionSet} {v : Version} : v ∈ s.compl ↔ v ∉ s := by
  have first : ∀ u : Version, Version.zero ≤ u := fun u => Nat.zero_le _
  rw [compl, mem_ofRanges, exists_mem_gaps s.normal fun r _ => first r.start, mem_iff]
  exact ⟨fun h => h.2, fun h => ⟨first v, h⟩⟩

@[simp] theorem mem_sdiff {a b : VersionSet} {v : Version} : v ∈ a.sdiff b ↔ v ∈ a ∧ v ∉ b := by
  rw [sdiff, mem_inter, mem_compl]

@[simp] theorem mem_ofRange {r : VersionRange} {v : Version} : v ∈ ofRange r ↔ v ∈ r := by
  simp [ofRange, mem_ofRanges]

@[simp] theorem mem_all {v : Version} : v ∈ all :=
  ⟨VersionRange.all, List.mem_cons_self .., Nat.zero_le _, by simp [VersionRange.all]⟩

@[simp] theorem not_mem_empty {v : Version} : v ∉ empty := by
  rintro ⟨r, hr, _⟩
  cases hr

/-! ## Questions -/

theorem isEmpty_iff {s : VersionSet} : s.isEmpty = true ↔ ∀ v, v ∉ s := by
  rw [isEmpty, List.isEmpty_iff]
  constructor
  · rintro h v ⟨r, hr, _⟩
    rw [h] at hr
    cases hr
  · intro h
    cases hranges : s.ranges with
    | nil => rfl
    | cons r rest =>
      have hr : r ∈ s.ranges := by simp [hranges]
      exact absurd ⟨r, hr, start_mem (s.normal.1 r hr)⟩ (h r.start)

theorem intersects_iff {a b : VersionSet} : a.intersects b = true ↔ ∃ v, v ∈ a ∧ v ∈ b := by
  rw [intersects, Bool.not_eq_true', ← Bool.not_eq_true, isEmpty_iff]
  constructor
  · intro h
    refine Classical.byContradiction fun hnone => h fun v hv => ?_
    exact hnone ⟨v, mem_inter.1 hv⟩
  · rintro ⟨v, hv⟩ h
    exact h v (mem_inter.2 hv)

/-- A range whose versions are all in the set lies within one range of the set: where a range of the
set ends there is a gap, which the first range cannot reach across. -/
theorem exists_covers {s : VersionSet} {r : VersionRange} (filled : r.isEmpty = false)
    (h : ∀ v, v ∈ r → v ∈ s) :
    ∃ o ∈ s.ranges, o.covers r = true := by
  obtain ⟨o, ho, hstart⟩ := h r.start (start_mem filled)
  refine ⟨o, ho, covers_iff.2 fun v hv => ⟨Nat.le_trans hstart.1 hv.1, fun e he => ?_⟩⟩
  refine Classical.byContradiction fun hev => ?_
  have gap : e ∉ s := by
    rintro ⟨q, hq, hmem⟩
    exact stop_not_mem s.normal ho he hq hmem
  have reached : e ∈ r :=
    ⟨Nat.le_of_lt (hstart.2 e he), fun f hf => Nat.lt_of_le_of_lt (Nat.not_lt.1 hev) (hv.2 f hf)⟩
  exact gap (h e reached)

theorem isSubset_iff {a b : VersionSet} : a.isSubset b = true ↔ ∀ v, v ∈ a → v ∈ b := by
  simp only [isSubset, List.all_eq_true, List.any_eq_true]
  constructor
  · rintro h v ⟨r, hr, hv⟩
    obtain ⟨o, ho, hcovers⟩ := h r hr
    exact ⟨o, ho, covers_iff.1 hcovers v hv⟩
  · intro h r hr
    exact exists_covers (a.normal.1 r hr) fun v hv => h v ⟨r, hr, hv⟩

theorem beq_iff_same_members {a b : VersionSet} : (a == b) = true ↔ ∀ v, v ∈ a ↔ v ∈ b :=
  ⟨fun h _ => exists_mem_congr h, beq_of_same_members a.normal b.normal⟩

theorem isAll_iff {s : VersionSet} : s.isAll = true ↔ ∀ v, v ∈ s := by
  constructor
  · intro h v
    unfold isAll at h
    split at h
    case h_1 r hranges =>
      simp only [VersionRange.isAll, Bool.and_eq_true, Version.isZero_iff,
        Option.isNone_iff_eq_none] at h
      refine ⟨r, by simp [hranges], ?_, by simp [h.2]⟩
      rw [Version.le_iff, h.1]
      exact Nat.zero_le _
    case h_2 => simp at h
  · intro h
    have same : (s == all) = true := beq_iff_same_members.2 fun v => by simp [h v]
    have listed : (s.ranges == [VersionRange.all]) = true := same
    unfold isAll
    cases hranges : s.ranges with
    | nil => simp [hranges] at listed
    | cons r rest =>
      rw [hranges, List.cons_beq_cons, Bool.and_eq_true, VersionRange.beq_iff] at listed
      obtain ⟨⟨hstart, hstop⟩, hrest⟩ := listed
      obtain rfl : rest = [] := by
        cases rest with
        | nil => rfl
        | cons _ _ => simp at hrest
      have unbounded : r.stop = none := by
        cases he : r.stop with
        | none => rfl
        | some e => simp [he, VersionRange.all] at hstop
      simp only [VersionRange.isAll, Bool.and_eq_true, Version.isZero_iff,
        Option.isNone_iff_eq_none]
      exact ⟨hstart, unbounded⟩

/-! ## The algebra -/

theorem contains_eq_decide {s : VersionSet} {v : Version} [Decidable (v ∈ s)] :
    s.contains v = decide (v ∈ s) := by
  rw [Bool.eq_iff_iff, decide_eq_true_iff, mem_iff_contains]

/-- The sets of versions are a Boolean algebra with one way to write each of its elements. The
normal form of a list of ranges is canonical and holds what the ranges hold; the operations are the
Boolean ones on what `contains` answers; and intersecting, being a subset, being empty, being
everything and being equal are decided by the members alone. -/
theorem versionSet_canonical_algebra :
    (∀ rs : List VersionRange, Canonical (ofRanges rs).ranges ∧
      ∀ v, (ofRanges rs).contains v = rs.any fun r => r.contains v) ∧
    (∀ (a b : VersionSet) (v : Version),
      (a.union b).contains v = (a.contains v || b.contains v) ∧
      (a.inter b).contains v = (a.contains v && b.contains v) ∧
      a.compl.contains v = !a.contains v ∧
      (a.sdiff b).contains v = (a.contains v && !b.contains v)) ∧
    (∀ a b : VersionSet,
      (a.intersects b = true ↔ ∃ v, a.contains v = true ∧ b.contains v = true) ∧
      (a.isSubset b = true ↔ ∀ v, a.contains v = true → b.contains v = true) ∧
      (a.isEmpty = true ↔ ∀ v, a.contains v = false) ∧
      (a.isAll = true ↔ ∀ v, a.contains v = true) ∧
      ((a == b) = true ↔ ∀ v, a.contains v = b.contains v)) := by
  classical
  refine ⟨fun rs => ⟨(normalise_normal rs).canonical, fun v => ?_⟩, fun a b v => ?_, fun a b => ?_⟩
  · rw [Bool.eq_iff_iff, ← mem_iff_contains, mem_ofRanges, List.any_eq_true]
    simp only [VersionRange.mem_iff_contains]
  · refine ⟨?_, ?_, ?_, ?_⟩
    · simp only [contains_eq_decide, mem_union, Bool.decide_or]
    · simp only [contains_eq_decide, mem_inter, Bool.decide_and]
    · simp only [contains_eq_decide, mem_compl, decide_not]
    · simp only [contains_eq_decide, mem_sdiff, Bool.decide_and, decide_not]
  · simp only [contains_eq_decide, decide_eq_true_eq, decide_eq_false_iff_not, decide_eq_decide]
    exact ⟨intersects_iff, isSubset_iff, isEmpty_iff, isAll_iff, beq_iff_same_members⟩

end VersionSet

end PlatformGuard
