import PlatformGuard.Version.Basic

/-!
# Version ranges

A range holds the versions from `start` on, and before `stop` where there is one.

* `mem_iff_contains`: membership is decided by `contains`.
* `isEmpty_iff`: a range is empty iff no version is in it.
-/

namespace PlatformGuard

/-- The versions from `start` on and before `stop`; without a `stop` there is no upper bound. -/
structure VersionRange where
  start : Version
  stop : Option Version
deriving Repr, Inhabited

/-! ## Upper bounds -/

/-- Order of upper bounds; no bound is the greatest. -/
def boundLe : Option Version → Option Version → Bool
  | _, none => true
  | none, some _ => false
  | some a, some b => decide (a ≤ b)

/-- The lesser of two upper bounds; of the same two the first. -/
def lesserBound (a b : Option Version) : Option Version :=
  if boundLe a b then a else b

/-- The greater of two upper bounds; of the same two the second. -/
def greaterBound (a b : Option Version) : Option Version :=
  if boundLe a b then b else a

namespace VersionRange

def all : VersionRange := ⟨.zero, none⟩

def atLeast (start : Version) : VersionRange := ⟨start, none⟩

def before (stop : Version) : VersionRange := ⟨.zero, some stop⟩

instance : Membership Version VersionRange :=
  ⟨fun r v => r.start ≤ v ∧ ∀ e ∈ r.stop, v < e⟩

instance : BEq VersionRange :=
  ⟨fun a b => a.start == b.start && a.stop == b.stop⟩

/-- True when the upper bound leaves nothing. -/
def isEmpty (r : VersionRange) : Bool :=
  match r.stop with
  | some e => decide (e ≤ r.start)
  | none => false

/-- True when neither bound excludes a version. -/
def isAll (r : VersionRange) : Bool :=
  r.start.isZero && r.stop.isNone

def contains (r : VersionRange) (v : Version) : Bool :=
  decide (r.start ≤ v) &&
    match r.stop with
    | some e => decide (v < e)
    | none => true

/-- Whether all of `other` is in the range. -/
def covers (r other : VersionRange) : Bool :=
  other.isEmpty || (decide (r.start ≤ other.start) && boundLe other.stop r.stop)

def inter (a b : VersionRange) : VersionRange :=
  ⟨Version.later a.start b.start, lesserBound a.stop b.stop⟩

/-- `*` for every version, else the bounds as `[start, stop)`, where `*` stands for no upper
bound. -/
def text (r : VersionRange) : String :=
  match r.start.isZero, r.stop with
  | true, none => "*"
  | false, none => "[" ++ r.start.text ++ ", *)"
  | _, some e => "[" ++ r.start.text ++ ", " ++ e.text ++ ")"

/-! ## Membership -/

theorem mem_iff {r : VersionRange} {v : Version} :
    v ∈ r ↔ r.start ≤ v ∧ ∀ e ∈ r.stop, v < e := Iff.rfl

theorem mem_iff_contains {r : VersionRange} {v : Version} : v ∈ r ↔ r.contains v = true := by
  unfold contains
  cases h : r.stop <;> simp [mem_iff, h]

theorem isEmpty_eq_false_iff {r : VersionRange} :
    r.isEmpty = false ↔ ∀ e ∈ r.stop, r.start < e := by
  unfold isEmpty
  cases h : r.stop <;> simp [Version.le_iff, Version.lt_iff]

/-- A range is empty iff no version is in it: the only candidate to look at is its start. -/
theorem isEmpty_iff {r : VersionRange} : r.isEmpty = true ↔ ∀ v, v ∉ r := by
  constructor
  · intro h v hv
    unfold isEmpty at h
    cases hs : r.stop with
    | none => simp [hs] at h
    | some e =>
      simp only [hs, decide_eq_true_eq, Version.le_iff] at h
      have low := hv.1
      have high := hv.2 e hs
      simp only [Version.le_iff, Version.lt_iff] at low high
      omega
  · intro h
    cases he : r.isEmpty with
    | true => rfl
    | false =>
      exact absurd ⟨Nat.le_refl _, isEmpty_eq_false_iff.1 he⟩ (h r.start)

end VersionRange

/-- A version is below the lesser of two bounds iff it is below both. -/
theorem forall_mem_lesserBound {a b : Option Version} {v : Version} :
    (∀ e ∈ lesserBound a b, v < e) ↔ (∀ e ∈ a, v < e) ∧ ∀ e ∈ b, v < e := by
  unfold lesserBound
  cases a <;> cases b <;> simp [boundLe]
  split <;> simp_all [Version.le_iff, Version.lt_iff] <;> omega

/-- A version is below the greater of two bounds iff it is below one of them. -/
theorem forall_mem_greaterBound {a b : Option Version} {v : Version} :
    (∀ e ∈ greaterBound a b, v < e) ↔ (∀ e ∈ a, v < e) ∨ ∀ e ∈ b, v < e := by
  unfold greaterBound
  cases a <;> cases b <;> simp [boundLe]
  split <;> simp_all [Version.le_iff, Version.lt_iff] <;> omega

theorem VersionRange.mem_inter {a b : VersionRange} {v : Version} :
    v ∈ a.inter b ↔ v ∈ a ∧ v ∈ b := by
  simp only [mem_iff, inter, forall_mem_lesserBound, Version.le_iff, Version.rank_later]
  constructor
  · rintro ⟨h, h₁, h₂⟩
    exact ⟨⟨by omega, h₁⟩, by omega, h₂⟩
  · rintro ⟨⟨h₁, h₂⟩, h₃, h₄⟩
    exact ⟨by omega, h₂, h₄⟩

end PlatformGuard
