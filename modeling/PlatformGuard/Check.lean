import PlatformGuard.Contract.Basic
import PlatformGuard.Diagnostic.Basic
import PlatformGuard.Diagnostic.Message

/-!
# Checking one use

Whether a use of a symbol keeps the contract of the symbol, given the worlds in which
the use can be reached.

1. Obsoletion: on some platform every reachable version is obsolete. 2. For a deny-list: some
reachable version is denied. 3. For an allow-list: some reachable world is not allowed.

The contract of the code around the use already bounds the worlds. It is asked again only
whether it declares the same obsoletion, or the same denied versions, to its own callers;
the use is then in order.
-/

namespace PlatformGuard

structure Use where
  /-- The name of the symbol as shown. -/
  target : String
  /-- The contract of the symbol. -/
  contract : Contract
  /-- Where the use can be reached. -/
  worlds : Worlds
  /-- The contract of the code around the use. -/
  enclosing : Contract
  location : Location

namespace Use

/-- Whether on some platform, at some version, the use is reached, and only where
the target is obsolete. -/
def isObsoleteOn (use : Use) (platform : PlatformName) (obsoletion : Obsoletion) : Bool :=
  let reachable := use.worlds.versionsOf platform
  !reachable.isEmpty && reachable.isSubset (.ofRange (.atLeast obsoletion.version))

/-- Whether the code around the use is obsolete itself from no later a version on. -/
def declaresObsoletion (use : Use) (platform : PlatformName) (obsoletion : Obsoletion) : Bool :=
  match (use.enclosing.get? platform).bind (·.obsoleted) with
  | some own => decide (own.version ≤ obsoletion.version)
  | none => false

/-- Whether the use is reached on denied versions of a platform. -/
def isDeniedOn (use : Use) (platform : PlatformName) (denied : VersionRange) : Bool :=
  (use.worlds.versionsOf platform).intersects (.ofRange denied)

/-- Whether the code around the use denies the same versions itself. -/
def declaresDenial (use : Use) (platform : PlatformName) (denied : VersionRange) : Bool :=
  match (use.enclosing.get? platform).bind (·.deniedRange?) with
  | some own => own.covers denied
  | none => false

def diagnostic (use : Use) (rule : RuleKind) (platform description text : String) : Diagnostic :=
  { Diagnostic.ofRule rule use.location text with
    target := use.target
    platform
    versionDescription := description
    reachabilityDescription := Message.describeWorlds use.worlds }

/-- The finding that the target is obsolete on a platform. -/
def obsoleteOn? (use : Use) (platform : PlatformName) (a : Availability) : Option Diagnostic :=
  match a.obsoleted with
  | none => none
  | some o =>
    if use.isObsoleteOn platform o && !use.declaresObsoletion platform o then
      let description := Message.describeRange platform (.atLeast o.version)
      let text := Message.obsoleted
        (Message.describeWorlds use.worlds) use.target description o.message o.url
      some { use.diagnostic .obsoleted platform.text description text with
        message := o.message, url := o.url }
    else none

/-- The finding that the target is unsupported on a platform. -/
def deniedOn? (use : Use) (platform : PlatformName) (a : Availability) : Option Diagnostic :=
  match a.deniedRange? with
  | none => none
  | some denied =>
    if use.isDeniedOn platform denied && !use.declaresDenial platform denied then
      let description := Message.describeRange platform denied
      let text := Message.unsupported (Message.describeWorlds use.worlds) use.target description
      some { use.diagnostic .unsupported platform.text description text with
        message := a.unsupportedMessage }
    else none

/-- The finding that the use is reached where an allow-list does not allow it. -/
def notAllowed? (use : Use) : Option Diagnostic :=
  if use.worlds.isSubset use.contract.allowedWorlds then none
  else
    let platforms := use.contract.allowedPlatforms
    let description := ", ".intercalate <| platforms.map fun p =>
      Message.describeSet p (use.contract.allowedVersions p)
    let text := Message.onlySupported (Message.describeWorlds use.worlds) use.target description
    some (use.diagnostic .onlySupported
      (", ".intercalate (platforms.map (·.text))) description text)

/-- The findings about a use: obsoletions by platform, then what the kind of list gives. A use that
is never reached is in order. -/
def check (use : Use) : List Diagnostic :=
  if use.contract.isEmpty || use.worlds.isUnreachable then []
  else
    let entries := use.contract.platforms.entries
    (entries.filterMap fun e => use.obsoleteOn? e.1 e.2) ++
      (if use.contract.isAllowList then use.notAllowed?.toList
      else entries.filterMap fun e => use.deniedOn? e.1 e.2)

end Use

end PlatformGuard
