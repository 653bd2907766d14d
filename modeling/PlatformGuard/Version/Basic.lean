import PlatformGuard.Text.Decimal

/-!
# Versions

A version has up to four components, each a 32-bit number. Missing components count as zero, so
`10.0` and `10.0.0.0` are the same version; how many were written is kept, because a version
prints as it was written.

Versions are ordered by their components, the first one deciding. Four 32-bit components are the
digits of one number in base `2^32`, the `rank`, and comparing ranks is comparing component by
component (`rank_lt_iff`). Two versions are the same iff their ranks are equal (`rank_eq_iff`).
-/

namespace PlatformGuard

/-- A version and the number of components it was written with. -/
structure Version where
  major : UInt32 := 0
  minor : UInt32 := 0
  build : UInt32 := 0
  revision : UInt32 := 0
  /-- How many components were written; none for "any version". -/
  written : Nat := 0
deriving Repr, Inhabited

namespace Version

def maxComponents : Nat := 4

/-- The least version, which no component was written for. It stands for "any
version" as a lower bound. -/
def zero : Version := {}

def ofMajorMinor (major minor : UInt32) : Version :=
  { major, minor, written := 2 }

/-- The version with the given components; none for more than four. -/
def ofComponents? : List UInt32 → Option Version
  | [] => some zero
  | [a] => some { major := a, written := 1 }
  | [a, b] => some { major := a, minor := b, written := 2 }
  | [a, b, c] => some { major := a, minor := b, build := c, written := 3 }
  | [a, b, c, d] => some { major := a, minor := b, build := c, revision := d, written := 4 }
  | _ => none

/-- All four components, those not written included. -/
def allComponents (v : Version) : List UInt32 :=
  [v.major, v.minor, v.build, v.revision]

def components (v : Version) : List UInt32 :=
  v.allComponents.take v.written

/-- The four components read as the digits of a number in base `2^32`. -/
def rank (v : Version) : Nat :=
  ((v.major.toNat * 4294967296 + v.minor.toNat) * 4294967296 + v.build.toNat) * 4294967296 +
    v.revision.toNat

instance : LE Version := ⟨fun a b => a.rank ≤ b.rank⟩

instance : LT Version := ⟨fun a b => a.rank < b.rank⟩

instance : DecidableLE Version := fun a b => inferInstanceAs (Decidable (a.rank ≤ b.rank))

instance : DecidableLT Version := fun a b => inferInstanceAs (Decidable (a.rank < b.rank))

/-- Sameness of versions ignores how many components were written. -/
instance : BEq Version := ⟨fun a b => a.rank == b.rank⟩

def cmp (a b : Version) : Ordering :=
  compare a.rank b.rank

/-- True when every component is zero: as a lower bound the version excludes nothing. -/
def isZero (v : Version) : Bool :=
  v.rank == 0

/-- A single written component is padded to `major.0`. -/
def normalized (v : Version) : Version :=
  if v.written = 1 then { v with written := 2 } else v

/-- The later of two versions; of the same two the second. -/
def later (a b : Version) : Version :=
  if b < a then a else b

/-- The earlier of two versions; of the same two the first. -/
def earlier (a b : Version) : Version :=
  if b < a then b else a

/-- The components as written, at least two of them, with points between. -/
def chars (v : Version) : List Char :=
  Text.joinWith '.' ((v.allComponents.take (max v.written 2)).map fun c => Text.decimal c.toNat)

def text (v : Version) : String :=
  String.ofList v.chars

/-! ## Order -/

theorem le_iff {a b : Version} : a ≤ b ↔ a.rank ≤ b.rank := Iff.rfl

theorem lt_iff {a b : Version} : a < b ↔ a.rank < b.rank := Iff.rfl

theorem beq_iff {a b : Version} : (a == b) = true ↔ a.rank = b.rank := by
  show (a.rank == b.rank) = true ↔ _
  simp

@[simp] theorem rank_zero : zero.rank = 0 := rfl

@[simp] theorem rank_normalized (v : Version) : v.normalized.rank = v.rank := by
  unfold normalized
  split <;> rfl

@[simp] theorem rank_later (a b : Version) : (later a b).rank = max a.rank b.rank := by
  unfold later
  split <;> rename_i h <;> rw [lt_iff] at h <;> omega

@[simp] theorem rank_earlier (a b : Version) : (earlier a b).rank = min a.rank b.rank := by
  unfold earlier
  split <;> rename_i h <;> rw [lt_iff] at h <;> omega

theorem isZero_iff {v : Version} : v.isZero = true ↔ v.rank = 0 := by
  simp [isZero]

/-- Versions of equal rank have the same four components. -/
theorem rank_eq_iff {a b : Version} : a.rank = b.rank ↔ a.allComponents = b.allComponents := by
  have ha := a.major.toNat_lt
  have ha' := a.minor.toNat_lt
  have ha'' := a.build.toNat_lt
  have ha''' := a.revision.toNat_lt
  have hb := b.major.toNat_lt
  have hb' := b.minor.toNat_lt
  have hb'' := b.build.toNat_lt
  have hb''' := b.revision.toNat_lt
  simp only [rank, allComponents, List.cons.injEq, and_true, ← UInt32.toNat_inj]
  omega

/-- The first component in which two versions differ decides their order. -/
theorem rank_lt_iff {a b : Version} :
    a.rank < b.rank ↔
      a.major < b.major ∨ (a.major = b.major ∧ (a.minor < b.minor ∨ (a.minor = b.minor ∧
        (a.build < b.build ∨ (a.build = b.build ∧ a.revision < b.revision))))) := by
  have ha' := a.minor.toNat_lt
  have ha'' := a.build.toNat_lt
  have ha''' := a.revision.toNat_lt
  have hb' := b.minor.toNat_lt
  have hb'' := b.build.toNat_lt
  have hb''' := b.revision.toNat_lt
  simp only [rank, UInt32.lt_iff_toNat_lt, ← UInt32.toNat_inj]
  omega

end Version

end PlatformGuard
