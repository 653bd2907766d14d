import PlatformGuard.Platform.Name
import PlatformGuard.SortedMap
import PlatformGuard.Version.Set

/-!
# Worlds

A world is a platform at a version: what a program may find itself running on. A set of worlds
gives, for each platform it mentions, the versions still possible there; every platform it does not
mention is possible at all versions (`others`) or at none. A platform whose versions are those of
the platforms not mentioned is never mentioned, so each set of worlds is written in one way only.

* `versionsOf_withVersions`: what setting the versions of one platform does.
* `mem_iff`: a world is in the set iff its version is among those of its platform.
-/

namespace PlatformGuard

/-- A platform at a version. -/
structure World where
  platform : PlatformName
  version : Version

/-- The versions of a platform that a set of worlds does not mention. -/
def defaultVersions (others : Bool) : VersionSet :=
  if others then .all else .empty

/-- A set of worlds. -/
structure Worlds where
  platforms : SortedMap PlatformName VersionSet
  /-- Whether the platforms not mentioned are possible. -/
  others : Bool
  /-- Nothing is mentioned that goes without saying. -/
  mentioned : ∀ p versions, platforms.find? p = some versions →
    (versions == defaultVersions others) = false

namespace Worlds

/-- All platforms alike: every world, or none. -/
def base (others : Bool) : Worlds :=
  ⟨.empty, others, fun _ _ h => by simp at h⟩

/-- Every world: nothing is known. -/
def all : Worlds := base true

/-- No world: the code is dead. -/
def none : Worlds := base false

instance : Inhabited Worlds := ⟨all⟩

instance : BEq Worlds :=
  ⟨fun a b => a.platforms == b.platforms && a.others == b.others⟩

def versionsOf (w : Worlds) (p : PlatformName) : VersionSet :=
  (w.platforms.find? p).getD (defaultVersions w.others)

instance : Membership World Worlds :=
  ⟨fun w x => x.version ∈ w.versionsOf x.platform⟩

/-- Sets the possible versions of one platform; what goes without saying is not mentioned. -/
def withVersions (w : Worlds) (p : PlatformName) (versions : VersionSet) : Worlds :=
  if h : (versions == defaultVersions w.others) = true then
    ⟨w.platforms.erase p, w.others, fun q vs hq => by
      rw [SortedMap.find?_erase] at hq
      split at hq
      · simp at hq
      · exact w.mentioned q vs hq⟩
  else
    ⟨w.platforms.insert p versions, w.others, fun q vs hq => by
      rw [SortedMap.find?_insert] at hq
      split at hq
      · rw [← Option.some.inj hq]
        simpa using h
      · exact w.mentioned q vs hq⟩

/-- One platform at some versions and nothing else. -/
def only (p : PlatformName) (versions : VersionSet) : Worlds :=
  none.withVersions p versions

def mentionedPlatforms (w : Worlds) : List PlatformName :=
  w.platforms.keys

/-- The platforms mentioned that have a possible version. -/
def reachablePlatforms (w : Worlds) : List (PlatformName × VersionSet) :=
  w.platforms.entries.filter fun e => !e.2.isEmpty

def isUnreachable (w : Worlds) : Bool :=
  !w.others && w.platforms.entries.all fun e => e.2.isEmpty

def isAll (w : Worlds) : Bool :=
  w.others && w.platforms.isEmpty

/-- Combines two sets platform by platform; the platforms that neither mentions are
possible as `others` says. -/
def combine (op : VersionSet → VersionSet → VersionSet) (others : Bool) (a b : Worlds) : Worlds :=
  (a.platforms.keys ++ b.platforms.keys).foldl
    (fun w p => w.withVersions p (op (a.versionsOf p) (b.versionsOf p))) (base others)

def inter (a b : Worlds) : Worlds :=
  combine VersionSet.inter (a.others && b.others) a b

def union (a b : Worlds) : Worlds :=
  combine VersionSet.union (a.others || b.others) a b

def compl (w : Worlds) : Worlds :=
  w.platforms.entries.foldl (fun acc e => acc.withVersions e.1 e.2.compl) (base !w.others)

def sdiff (a b : Worlds) : Worlds :=
  a.inter b.compl

/-- Every world but one platform at some versions. -/
def except (p : PlatformName) (versions : VersionSet) : Worlds :=
  (only p versions).compl

def isSubset (a b : Worlds) : Bool :=
  !(a.others && !b.others) &&
    (a.platforms.keys ++ b.platforms.keys).all fun p => (a.versionsOf p).isSubset (b.versionsOf p)

/-- The mentioned platforms with their versions, then what holds of the others, in braces. -/
def text (w : Worlds) : String :=
  let parts := w.platforms.entries.map fun e => e.1.text ++ ": " ++ e.2.text
  let rest := if w.others then "others: *" else "others: \x7b\x7d"
  "\x7b" ++ ", ".intercalate (parts ++ [rest]) ++ "\x7d"

/-! ## Membership -/

theorem mem_iff {w : Worlds} {x : World} : x ∈ w ↔ x.version ∈ w.versionsOf x.platform := Iff.rfl

@[simp] theorem versionsOf_base (others : Bool) (p : PlatformName) :
    (base others).versionsOf p = defaultVersions others := rfl

@[simp] theorem others_withVersions (w : Worlds) (p : PlatformName) (versions : VersionSet) :
    (w.withVersions p versions).others = w.others := by
  unfold withVersions
  split <;> rfl

/-- Setting the versions of one platform changes no other. What is set may come back as
the default it equals. -/
theorem versionsOf_withVersions (w : Worlds) (p q : PlatformName) (versions : VersionSet) :
    (w.withVersions p versions).versionsOf q =
      if q = p then
        if (versions == defaultVersions w.others) = true then defaultVersions w.others else versions
      else w.versionsOf q := by
  unfold withVersions
  split
  case isTrue h =>
    by_cases hq : q = p <;> simp [versionsOf, hq]
  case isFalse h =>
    by_cases hq : q = p
    · simp only [versionsOf, hq, SortedMap.find?_insert, if_true, Option.getD_some]
    · simp [versionsOf, hq]

end Worlds

end PlatformGuard
