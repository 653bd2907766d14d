import PlatformGuard.Worlds

/-!
# Guard facts

A guard fact is what one platform check says when it answers true: that the program runs on a
platform, at a version no earlier than, or earlier than, a given one; or, negated, that it does not.
-/

namespace PlatformGuard

/-- How the version of the running platform stands to the version of a check. -/
inductive GuardRelation where
  | atLeast
  | earlierThan
deriving Repr, DecidableEq

def GuardRelation.names : List (String × GuardRelation) :=
  [("at_least", atLeast), ("earlier_than", earlierThan)]

def GuardRelation.name : GuardRelation → String
  | atLeast => "at_least"
  | earlierThan => "earlier_than"

/-- What a platform check says when it answers true. A bare platform check has the least version. -/
structure GuardFact where
  platform : PlatformName
  relation : GuardRelation
  version : Version
  negated : Bool := false

namespace GuardFact

/-- On a platform, at a version or later. -/
def atLeast (platform : PlatformName) (version : Version) : GuardFact :=
  { platform, relation := .atLeast, version }

/-- On a platform, before a version. -/
def earlierThan (platform : PlatformName) (version : Version) : GuardFact :=
  { platform, relation := .earlierThan, version }

def negate (f : GuardFact) : GuardFact :=
  { f with negated := !f.negated }

/-- The versions the fact speaks of, its negation aside. -/
def versions (f : GuardFact) : VersionSet :=
  .ofRange <| match f.relation with
    | .atLeast => .atLeast f.version
    | .earlierThan => .before f.version

/-- The worlds in which the fact holds. What is said of a platform is also said of the one it
implies. -/
def worlds (f : GuardFact) : Worlds :=
  let own := Worlds.only f.platform f.versions
  let both := match f.platform.implied? with
    | some implied => own.union (.only implied f.versions)
    | none => own
  if f.negated then both.compl else both

end GuardFact

end PlatformGuard
