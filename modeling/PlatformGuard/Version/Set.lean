import PlatformGuard.Version.Range

/-!
# Version sets

A set of versions is a list of ranges in normal form: none is empty, and each one ends strictly
before the next begins. Every list of ranges has a normal form (`VersionSet.ofRanges`), found by
sorting on the start and letting each range absorb those it overlaps or touches.

* `normalise_normal`: the result of normalising is in normal form.
* `mem_ofRanges`: the normal form holds the versions that some range of the list holds.
-/

namespace PlatformGuard

namespace VersionRange

/-- Sorted insertion; a range goes before those that start at the same version. -/
def insertByStart (r : VersionRange) : List VersionRange → List VersionRange
  | [] => [r]
  | s :: rest => if r.start ≤ s.start then r :: s :: rest else s :: insertByStart r rest

/-- Ranges by their start; those with the same start keep their order. -/
def sortByStart (rs : List VersionRange) : List VersionRange :=
  rs.foldr insertByStart []

/-- Whether a range that starts no earlier than `a` overlaps it or begins where it ends. -/
def touches (a b : VersionRange) : Bool :=
  match a.stop with
  | none => true
  | some e => decide (b.start ≤ e)

/-- `last` takes in the ranges of a sorted list as long as they touch it; the first that does
not goes on in its place. -/
def absorb (last : VersionRange) : List VersionRange → List VersionRange
  | [] => [last]
  | r :: rest =>
    if last.touches r then absorb ⟨last.start, greaterBound last.stop r.stop⟩ rest
    else last :: absorb r rest

/-- Unites touching neighbours of a sorted list. -/
def coalesce : List VersionRange → List VersionRange
  | [] => []
  | r :: rest => absorb r rest

def normalise (rs : List VersionRange) : List VersionRange :=
  coalesce (sortByStart (rs.filter fun r => !r.isEmpty))

/-- `a` ends strictly before `b` begins. -/
def Apart (a b : VersionRange) : Prop :=
  ∃ e, a.stop = some e ∧ e < b.start

/-- Normal form: no range is empty, and each one ends strictly before the next begins. -/
def Normal (rs : List VersionRange) : Prop :=
  (∀ r ∈ rs, r.isEmpty = false) ∧ rs.Pairwise Apart

/-! ## Sorting -/

theorem mem_insertByStart {r s : VersionRange} {rs : List VersionRange} :
    s ∈ insertByStart r rs ↔ s = r ∨ s ∈ rs := by
  induction rs with
  | nil => simp [insertByStart]
  | cons t rest ih =>
    unfold insertByStart
    split
    · simp
    · simp only [List.mem_cons, ih]
      constructor
      · rintro (h | h | h) <;> simp [h]
      · rintro (h | h | h) <;> simp [h]

theorem mem_sortByStart {s : VersionRange} {rs : List VersionRange} :
    s ∈ sortByStart rs ↔ s ∈ rs := by
  induction rs with
  | nil => simp [sortByStart]
  | cons r rest ih =>
    show s ∈ insertByStart r (sortByStart rest) ↔ _
    simp [mem_insertByStart, ih]

theorem insertByStart_sorted {r : VersionRange} {rs : List VersionRange}
    (h : rs.Pairwise (·.start ≤ ·.start)) : (insertByStart r rs).Pairwise (·.start ≤ ·.start) := by
  induction rs with
  | nil => simp [insertByStart]
  | cons s rest ih =>
    rw [List.pairwise_cons] at h
    unfold insertByStart
    split
    case isTrue hle =>
      refine List.pairwise_cons.2 ⟨fun t ht => ?_, List.pairwise_cons.2 h⟩
      rcases List.mem_cons.1 ht with rfl | ht
      · exact hle
      · exact Nat.le_trans hle (h.1 t ht)
    case isFalse hgt =>
      refine List.pairwise_cons.2 ⟨fun t ht => ?_, ih h.2⟩
      rcases mem_insertByStart.1 ht with rfl | ht
      · rw [Version.le_iff] at hgt ⊢
        omega
      · exact h.1 t ht

theorem sortByStart_sorted (rs : List VersionRange) :
    (sortByStart rs).Pairwise (·.start ≤ ·.start) := by
  induction rs with
  | nil => exact List.Pairwise.nil
  | cons r rest ih => exact insertByStart_sorted ih

/-! ## Coalescing -/

/-- What `absorb` returns starts no earlier than the range it began with. -/
theorem start_le_of_mem_absorb {last r : VersionRange} {rs : List VersionRange}
    (sorted : (last :: rs).Pairwise (·.start ≤ ·.start)) (h : r ∈ absorb last rs) :
    last.start ≤ r.start := by
  induction rs generalizing last with
  | nil =>
    have : r = last := by simpa [absorb] using h
    exact this ▸ Nat.le_refl _
  | cons s rest ih =>
    rw [List.pairwise_cons, List.pairwise_cons] at sorted
    unfold absorb at h
    split at h
    · have sorted' : ((⟨last.start, greaterBound last.stop s.stop⟩ : VersionRange) :: rest).Pairwise
          (·.start ≤ ·.start) :=
        List.pairwise_cons.2 ⟨fun t ht => sorted.1 t (by simp [ht]), sorted.2.2⟩
      have step := ih sorted' h
      exact step
    · rcases List.mem_cons.1 h with rfl | h
      · exact Nat.le_refl _
      · exact Nat.le_trans (sorted.1 s (by simp)) (ih (List.pairwise_cons.2 sorted.2) h)

theorem absorb_normal {last : VersionRange} {rs : List VersionRange}
    (sorted : (last :: rs).Pairwise (·.start ≤ ·.start))
    (filled : ∀ r ∈ last :: rs, r.isEmpty = false) : Normal (absorb last rs) := by
  induction rs generalizing last with
  | nil => exact ⟨fun r hr => filled r (by simpa [absorb] using hr), by simp [absorb]⟩
  | cons s rest ih =>
    have sorted' := List.pairwise_cons.1 sorted
    have sorted'' := List.pairwise_cons.1 sorted'.2
    unfold absorb
    split
    case isTrue htouch =>
      refine ih (List.pairwise_cons.2 ⟨fun t ht => sorted'.1 t (by simp [ht]), sorted''.2⟩) ?_
      intro r hr
      rcases List.mem_cons.1 hr with rfl | hr
      · rw [isEmpty_eq_false_iff]
        exact forall_mem_greaterBound.2 (.inl (isEmpty_eq_false_iff.1 (filled last (by simp))))
      · exact filled r (by simp [hr])
    case isFalse hfar =>
      have rest_normal := ih sorted'.2 fun r hr => filled r (by simp at hr ⊢; exact .inr hr)
      refine ⟨fun r hr => ?_, List.pairwise_cons.2 ⟨fun r hr => ?_, rest_normal.2⟩⟩
      · rcases List.mem_cons.1 hr with rfl | hr
        · exact filled r (by simp)
        · exact rest_normal.1 r hr
      · cases hstop : last.stop with
        | none => simp [touches, hstop] at hfar
        | some e =>
          refine ⟨e, hstop, ?_⟩
          have hs := start_le_of_mem_absorb sorted'.2 hr
          simp only [touches, hstop, decide_eq_true_eq, Version.le_iff] at hfar
          rw [Version.le_iff] at hs
          rw [Version.lt_iff]
          omega

theorem normalise_normal (rs : List VersionRange) : Normal (normalise rs) := by
  have sorted := sortByStart_sorted (rs.filter fun r => !r.isEmpty)
  have filled : ∀ r ∈ sortByStart (rs.filter fun r => !r.isEmpty), r.isEmpty = false := by
    intro r hr
    simpa using (List.mem_filter.1 (mem_sortByStart.1 hr)).2
  unfold normalise
  cases h : sortByStart (rs.filter fun r => !r.isEmpty) with
  | nil => exact ⟨by simp [coalesce], by simp [coalesce]⟩
  | cons r rest => exact absorb_normal (h ▸ sorted) (h ▸ filled)

/-- A version is in what `absorb` returns iff it was in one of the ranges. -/
theorem exists_mem_absorb {last : VersionRange} {rs : List VersionRange} {v : Version}
    (sorted : (last :: rs).Pairwise (·.start ≤ ·.start)) :
    (∃ r ∈ absorb last rs, v ∈ r) ↔ ∃ r ∈ last :: rs, v ∈ r := by
  induction rs generalizing last with
  | nil => simp [absorb]
  | cons s rest ih =>
    have sorted' := List.pairwise_cons.1 sorted
    have sorted'' := List.pairwise_cons.1 sorted'.2
    unfold absorb
    split
    case isTrue htouch =>
      have sortedJoin :
        ((⟨last.start, greaterBound last.stop s.stop⟩ : VersionRange) :: rest).Pairwise
          (·.start ≤ ·.start) :=
        List.pairwise_cons.2 ⟨fun t ht => sorted'.1 t (by simp [ht]), sorted''.2⟩
      have join : v ∈ (⟨last.start, greaterBound last.stop s.stop⟩ : VersionRange) ↔
          v ∈ last ∨ v ∈ s := by
        have hle := sorted'.1 s (by simp)
        simp only [mem_iff, forall_mem_greaterBound]
        constructor
        · rintro ⟨low, high⟩
          rcases high with high | high
          · exact .inl ⟨low, high⟩
          · by_cases hv : s.start ≤ v
            · exact .inr ⟨hv, high⟩
            · refine .inl ⟨low, fun e he => ?_⟩
              simp only [touches, Option.mem_def.1 he, decide_eq_true_eq, Version.le_iff] at htouch
              rw [Version.le_iff] at hv
              rw [Version.lt_iff]
              omega
        · rintro (⟨low, high⟩ | ⟨low, high⟩)
          · exact ⟨low, .inl high⟩
          · exact ⟨Nat.le_trans hle low, .inr high⟩
      rw [ih sortedJoin]
      simp only [List.mem_cons, exists_eq_or_imp, join, or_assoc]
    case isFalse _ =>
      have tail := ih sorted'.2
      simp only [List.mem_cons, exists_eq_or_imp] at tail ⊢
      rw [tail]

theorem exists_mem_normalise {rs : List VersionRange} {v : Version} :
    (∃ r ∈ normalise rs, v ∈ r) ↔ ∃ r ∈ rs, v ∈ r := by
  have kept : (∃ r ∈ sortByStart (rs.filter fun r => !r.isEmpty), v ∈ r) ↔ ∃ r ∈ rs, v ∈ r := by
    constructor
    · rintro ⟨r, hr, hv⟩
      exact ⟨r, (List.mem_filter.1 (mem_sortByStart.1 hr)).1, hv⟩
    · rintro ⟨r, hr, hv⟩
      refine ⟨r, mem_sortByStart.2 (List.mem_filter.2 ⟨hr, ?_⟩), hv⟩
      cases he : r.isEmpty with
      | false => rfl
      | true => exact absurd hv (isEmpty_iff.1 he v)
  rw [← kept]
  have sorted := sortByStart_sorted (rs.filter fun r => !r.isEmpty)
  unfold normalise
  cases h : sortByStart (rs.filter fun r => !r.isEmpty) with
  | nil => simp [coalesce]
  | cons r rest => exact exists_mem_absorb (h ▸ sorted)

end VersionRange

/-- A set of versions: ranges in normal form. -/
structure VersionSet where
  ranges : List VersionRange
  normal : VersionRange.Normal ranges

namespace VersionSet

open VersionRange

instance : Membership Version VersionSet :=
  ⟨fun s v => ∃ r ∈ s.ranges, v ∈ r⟩

instance : BEq VersionSet :=
  ⟨fun a b => a.ranges == b.ranges⟩

def ofRanges (rs : List VersionRange) : VersionSet :=
  ⟨normalise rs, normalise_normal rs⟩

def ofRange (r : VersionRange) : VersionSet :=
  ofRanges [r]

def empty : VersionSet :=
  ⟨[], by simp [VersionRange.Normal]⟩

def all : VersionSet :=
  ⟨[VersionRange.all], by simp [VersionRange.Normal, VersionRange.all, VersionRange.isEmpty]⟩

instance : Inhabited VersionSet := ⟨empty⟩

def isEmpty (s : VersionSet) : Bool :=
  s.ranges.isEmpty

def isAll (s : VersionSet) : Bool :=
  match s.ranges with
  | [r] => r.isAll
  | _ => false

def contains (s : VersionSet) (v : Version) : Bool :=
  s.ranges.any fun r => r.contains v

def union (a b : VersionSet) : VersionSet :=
  ofRanges (a.ranges ++ b.ranges)

/-- The versions in both sets: the non-empty intersections of their ranges. -/
def inter (a b : VersionSet) : VersionSet :=
  ofRanges (a.ranges.flatMap fun r => (b.ranges.map r.inter).filter fun c => !c.isEmpty)

/-- The gaps of a normal list, from `cursor` on. The cursor is where the range before ended; without
an end there is no gap left. -/
def gaps : Option Version → List VersionRange → List VersionRange
  | none, _ => []
  | some v, [] => [VersionRange.atLeast v]
  | some v, r :: rest => (if v < r.start then [⟨v, some r.start⟩] else []) ++ gaps r.stop rest

def compl (s : VersionSet) : VersionSet :=
  ofRanges (gaps (some .zero) s.ranges)

def sdiff (a b : VersionSet) : VersionSet :=
  a.inter b.compl

def intersects (a b : VersionSet) : Bool :=
  !(a.inter b).isEmpty

/-- Whether all versions of the first set are in the second: each range lies inside one range,
because the ranges of a normal list are apart. -/
def isSubset (a b : VersionSet) : Bool :=
  a.ranges.all fun r => b.ranges.any fun o => o.covers r

/-- The ranges with bars between; empty braces for no version. -/
def text (s : VersionSet) : String :=
  if s.ranges.isEmpty then "\x7b\x7d" else " | ".intercalate (s.ranges.map VersionRange.text)

theorem mem_iff {s : VersionSet} {v : Version} : v ∈ s ↔ ∃ r ∈ s.ranges, v ∈ r := Iff.rfl

theorem mem_ofRanges {rs : List VersionRange} {v : Version} : v ∈ ofRanges rs ↔ ∃ r ∈ rs, v ∈ r :=
  exists_mem_normalise

theorem mem_iff_contains {s : VersionSet} {v : Version} : v ∈ s ↔ s.contains v = true := by
  simp only [contains, List.any_eq_true, mem_iff, VersionRange.mem_iff_contains]

end VersionSet

end PlatformGuard
