import PlatformGuard.Worlds

/-!
# Availability contracts

A contract says, for each platform it names, from which version a symbol is supported
and from which it is not:

| supported | unsupported | meaning                                      |
|-----------|-------------|----------------------------------------------|
| `s`       |             | allowed from `s` on                          |
| `s`       | `u`, `s < u`| allowed from `s` and before `u`              |
|           | `u`         | denied from `u` on                           |
| `s`       | `u`, `u ≤ s`| denied from `u` and before `s`, then supported again |

A contract with an allowed platform is an allow-list: the symbol works on the listed platforms only.
Any other is a deny-list. Contracts are built in layers, one for each scope, merged from the
outermost scope inwards.
-/

namespace PlatformGuard

/-- What one attribute says. -/
inductive AvailabilityKind where
  | supported
  | unsupported
  | obsoleted
deriving Repr, DecidableEq, Inhabited

/-- One attribute, understood. -/
structure AvailabilityEntry where
  kind : AvailabilityKind
  platform : PlatformName
  version : Version
  message : Option String := none
  url : Option String := none

/-- From which version something is obsolete. -/
structure Obsoletion where
  version : Version
  message : Option String
  url : Option String

instance : BEq Obsoletion :=
  ⟨fun a b => a.version == b.version && a.message == b.message && a.url == b.url⟩

/-- What is known of one platform. -/
structure Availability where
  supported : Option Version := none
  unsupported : Option Version := none
  unsupportedMessage : Option String := none
  obsoleted : Option Obsoletion := none

namespace Availability

instance : Inhabited Availability := ⟨{}⟩

instance : BEq Availability :=
  ⟨fun a b => a.supported == b.supported && a.unsupported == b.unsupported &&
    a.unsupportedMessage == b.unsupportedMessage && a.obsoleted == b.obsoleted⟩

/-- Where the platform is allowed; none when it is not listed as allowed. -/
def allowedRange? (a : Availability) : Option VersionRange :=
  match a.supported, a.unsupported with
  | some s, none => some (.atLeast s)
  | some s, some u => if s < u then some ⟨s, some u⟩ else none
  | none, _ => none

/-- Where the platform is denied; none when it is not. -/
def deniedRange? (a : Availability) : Option VersionRange :=
  match a.unsupported, a.supported with
  | some u, none => some (.atLeast u)
  | some u, some s => if u ≤ s then some ⟨u, some s⟩ else none
  | none, _ => none

def isAllow (a : Availability) : Bool :=
  a.allowedRange?.isSome

/-- From where the platform is supported again after a denied range. -/
def reintroducedAt? (a : Availability) : Option Version :=
  a.deniedRange?.bind fun _ => a.supported

def hasSupportFacts (a : Availability) : Bool :=
  a.supported.isSome || a.unsupported.isSome

def isEmpty (a : Availability) : Bool :=
  !a.hasSupportFacts && a.obsoleted.isNone

/-- Adds what one attribute says: the highest supported version counts, and the lowest unsupported
and obsoleted ones, each with the words of the first attribute that gave it. -/
def add (a : Availability) (e : AvailabilityEntry) : Availability :=
  match e.kind with
  | .supported =>
    { a with supported := some (match a.supported with
        | some v => Version.later v e.version
        | none => e.version) }
  | .unsupported =>
    if a.unsupported.all (e.version < ·) then
      { a with unsupported := some e.version, unsupportedMessage := e.message }
    else a
  | .obsoleted =>
    if a.obsoleted.all (e.version < ·.version) then
      { a with obsoleted := some ⟨e.version, e.message, e.url⟩ }
    else a

/-- An inner scope over an outer one. The highest supported and the lowest unsupported version
count; an inner denial at or below the outer support takes it away unless the inner scope speaks of
support itself. An inner obsoletion replaces an outer one. -/
def refine (outer inner : Availability) : Availability :=
  let supported := match outer.supported, inner.supported with
    | some s, some s' => some (Version.later s s')
    | some s, none => some s
    | none, s => s
  let lowered := match inner.unsupported with
    | some u => outer.unsupported.all (u < ·)
    | none => false
  let withdrawn := match inner.unsupported, inner.supported, outer.supported with
    | some u, none, some s => decide (u ≤ s)
    | _, _, _ => false
  { supported := if withdrawn then none else supported
    unsupported := if lowered then inner.unsupported else outer.unsupported
    unsupportedMessage := if lowered then inner.unsupportedMessage else outer.unsupportedMessage
    obsoleted := inner.obsoleted.or outer.obsoleted }

end Availability

/-- The contract of a symbol: what is known of each platform it names. -/
structure Contract where
  platforms : SortedMap PlatformName Availability

namespace Contract

def empty : Contract := ⟨.empty⟩

instance : Inhabited Contract := ⟨empty⟩

instance : BEq Contract := ⟨fun a b => a.platforms == b.platforms⟩

def get? (c : Contract) (p : PlatformName) : Option Availability :=
  c.platforms.find? p

def add (c : Contract) (e : AvailabilityEntry) : Contract :=
  ⟨c.platforms.insert e.platform (((c.get? e.platform).getD {}).add e)⟩

/-- What is said of support on a platform also describes the platform it implies, unless
that one is named itself. -/
def withImplied (c : Contract) : Contract :=
  let implied := c.platforms.entries.filterMap fun e =>
    match e.1.implied? with
    | some q =>
      let facts := { e.2 with obsoleted := none }
      if c.platforms.contains q || !facts.hasSupportFacts then none else some (q, facts)
    | none => none
  ⟨implied.foldl (fun m e => m.insert e.1 e.2) c.platforms⟩

/-- The contract of one layer of attributes. -/
def ofEntries (entries : List AvailabilityEntry) : Contract :=
  (entries.foldl add empty).withImplied

def isEmpty (c : Contract) : Bool :=
  c.platforms.values.all Availability.isEmpty

/-- Whether the symbol works on listed platforms only. -/
def isAllowList (c : Contract) : Bool :=
  c.platforms.values.any Availability.isAllow

/-- The versions of a platform that an allow-list allows. A denied range ends where support comes
back. -/
def allowedVersions (c : Contract) (p : PlatformName) : VersionSet :=
  match c.get? p with
  | some a =>
    match a.allowedRange?, a.reintroducedAt? with
    | some r, _ => .ofRange r
    | none, some v => .ofRange (.atLeast v)
    | none, none => .empty
  | none => .empty

/-- The platforms that an allow-list allows at some versions. -/
def allowedPlatforms (c : Contract) : List PlatformName :=
  (c.platforms.entries.filter fun e => e.2.isAllow || e.2.reintroducedAt?.isSome).map (·.1)

/-- The worlds in which the symbol may run; whoever is running it is in one of these. -/
def allowedWorlds (c : Contract) : Worlds :=
  if c.isAllowList then
    c.allowedPlatforms.foldl (fun w p => w.union (.only p (c.allowedVersions p))) .none
  else
    c.platforms.entries.foldl
      (fun w e =>
        match e.2.deniedRange? with
        | some r => w.inter (.except e.1 (.ofRange r))
        | none => w)
      .all

/-- What an inner scope says of a platform that the outer scopes do not name. It cannot add a
platform to an allow-list around it. -/
def newcomer (outer : Contract) (inner : Availability) : Availability :=
  if outer.isAllowList then { inner with supported := none } else inner

/-- An inner scope over the contract of the scopes around it. -/
def mergeChild (outer inner : Contract) : Contract :=
  ⟨inner.platforms.entries.foldl
    (fun m e =>
      match outer.get? e.1 with
      | some a => m.insert e.1 (a.refine e.2)
      | none =>
        let newcomer := outer.newcomer e.2
        if newcomer.isEmpty then m else m.insert e.1 newcomer)
    outer.platforms⟩

def text (c : Contract) : String :=
  let parts := c.platforms.entries.map fun e =>
    let facts := (e.2.supported.map fun v => "supported " ++ v.text).toList ++
      (e.2.unsupported.map fun v => "unsupported " ++ v.text).toList ++
      (e.2.obsoleted.map fun o => "obsoleted " ++ o.version.text).toList
    e.1.text ++ "(" ++ ", ".intercalate facts ++ ")"
  "[" ++ "; ".intercalate parts ++ "]"

end Contract

end PlatformGuard
