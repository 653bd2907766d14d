import PlatformGuard.Contract.Cache
import PlatformGuard.Operation.Basic
import PlatformGuard.Symbol.CheckApi

/-!
# Platform checks

Which operations are platform checks, and what each says:

* `OperatingSystem.IsOSPlatform("name")` and `IsOSPlatformVersionAtLeast("name", major, ...)`;
* `OperatingSystem.IsWindows()`, `IsWindowsVersionAtLeast(major, ...)`, and so for
  each built-in platform;
* `IsOSPlatformOrLater` and `IsOSPlatformEarlierThan`, with a version in numbers or within the name;
* `RuntimeInformation.IsOSPlatform(OSPlatform.Linux)` and `IsOSPlatform(OSPlatform.Create("name"))`;
* members that carry guard attributes.

Only literal arguments are understood. A check with any other argument says nothing.
-/

namespace PlatformGuard

/-- The types of the check API that a compilation has. -/
structure CheckTypes where
  operatingSystem : Option SymbolId
  runtimeInformation : Option SymbolId
  osPlatform : Option SymbolId
deriving DecidableEq

namespace CheckTypes

/-- The check types of a table; none when it has neither of the two types with checks. -/
def ofTable? (t : SymbolTable) : Option CheckTypes :=
  let types : CheckTypes :=
    { operatingSystem := t.findType? CheckApi.operatingSystemType
      runtimeInformation := t.findType? CheckApi.runtimeInformationType
      osPlatform := t.findType? CheckApi.osPlatformType }
  if types.operatingSystem.isNone && types.runtimeInformation.isNone then none else some types

def hasChecks (types : CheckTypes) (scope : Option SymbolId) : Bool :=
  scope.isSome && (scope = types.operatingSystem || scope = types.runtimeInformation)

/-- Whether the scope is the type of the values of the older check. -/
def hasPlatforms (types : CheckTypes) (scope : Option SymbolId) : Bool :=
  scope.isSome && scope = types.osPlatform

end CheckTypes

/-- What a platform check says when it answers true. -/
inductive Guard where
  /-- A call of the check API. -/
  | fact (fact : GuardFact)
  /-- A member with guard attributes. -/
  | member (trueIn : Worlds)

namespace Guard

/-- The worlds in which the check answers true. -/
def worlds : Guard → Worlds
  | fact f => f.worlds
  | member w => w

def negate : Guard → Guard
  | fact f => fact f.negate
  | member w => member w.compl

end Guard

def versionComponent? (argument : Operation) : Option UInt32 :=
  match argument.constant? with
  | some (.int n) =>
    if 0 ≤ n.toInt ∧ n.toInt < UInt32.size then some n.toInt.toNat.toUInt32 else none
  | _ => none

/-- The version that literal arguments give, at most four of them. -/
def versionOfArguments? (arguments : List Operation) : Option Version :=
  (arguments.mapM versionComponent?).bind fun parts =>
  (Version.ofComponents? parts).map Version.normalized

def textLiteral? (argument : Operation) : Option String :=
  match argument.constant? with
  | some (.string s) => some s
  | _ => none

/-- The built-in platform with a name in the check API. -/
def platformOfGuardName? (name : List Char) : Option PlatformName :=
  (builtinPlatforms.find? fun p => p.guardName.toList == name).map fun p => .canonical p.name

/-- The check of one platform by its name: `IsWindows()` or `IsWindowsVersionAtLeast(10, 0)`. -/
def namedCheck? (name : String) (arguments : List Operation) : Option GuardFact :=
  (Text.after? "Is".toList name.toList).bind fun rest =>
    match Text.before? CheckApi.versionAtLeastEnding.toList rest with
    | some platform =>
      (platformOfGuardName? platform).bind fun platform =>
        (versionOfArguments? arguments).map fun version => .atLeast platform version
    | none =>
      (platformOfGuardName? rest).bind fun platform =>
        if arguments.isEmpty then some (.atLeast platform .zero) else none

/-- What is needed to understand checks: the declarations, and the check types; without these
no check is recognised. -/
structure GuardReader where
  declarations : Declarations
  types : Option CheckTypes

namespace GuardReader

def ofDeclarations (d : Declarations) : GuardReader :=
  ⟨d, CheckTypes.ofTable? d.table⟩

def isEnabled (r : GuardReader) : Bool :=
  r.types.isSome

/-- The symbol of an id where it belongs to the type of the values of the older check. -/
def platformMember? (r : GuardReader) (types : CheckTypes) (id : SymbolId) : Option Symbol :=
  (r.declarations.table.get? id).filter fun s => types.hasPlatforms s.containing

/-- The platform that an argument names: by a literal, as `OSPlatform.Linux` or as
`OSPlatform.Create("linux")`. -/
def platformArgument? (r : GuardReader) (types : CheckTypes) : Operation → Option PlatformName
  | .literal _ (.string name) => some (.canonical name)
  | .memberReference _ member _ =>
    (r.platformMember? types member).bind fun s =>
      (CheckApi.osPlatformProperties.find? fun p => p.1 == s.name).map fun p => .canonical p.2
  | .invocation _ target _ arguments =>
    (r.platformMember? types target).bind fun s =>
      if s.name == CheckApi.create then (arguments.head?.bind textLiteral?).map .canonical else none
  | _ => none

/-- The platform and version of a check that takes both: `("Windows", 10, 1)` or
`("Windows10.1")`. -/
def platformAndVersion? (r : GuardReader) (types : CheckTypes) (first : Operation)
    (rest : List Operation) :
    Option (PlatformName × Version) :=
  if !rest.isEmpty then
    (r.platformArgument? types first).bind fun platform =>
      (versionOfArguments? rest).map fun version => (platform, version)
  else
    match textLiteral? first with
    | some raw =>
      let parsed := r.declarations.vocabulary.parseAttribute raw
      if parsed.errors.any PlatformError.isVersionError then none
      else some (parsed.name, parsed.version)
    | none => (r.platformArgument? types first).map fun platform => (platform, .zero)

/-- What a call says by the name of a method of the check API. -/
def checkFact? (r : GuardReader) (types : CheckTypes) (name : String) (arguments : List Operation) :
    Option GuardFact :=
  if name = CheckApi.isOSPlatform then
    (arguments.head?.bind (r.platformArgument? types)).map fun platform => .atLeast platform .zero
  else if name = CheckApi.isOSPlatformVersionAtLeast then
    (arguments.head?.bind (r.platformArgument? types)).bind fun platform =>
      (versionOfArguments? arguments.tail).map fun version => .atLeast platform version
  else if name = CheckApi.isOSPlatformOrLater then
    (arguments.head?.bind fun first => r.platformAndVersion? types first arguments.tail).map
      fun checked => .atLeast checked.1 checked.2
  else if name = CheckApi.isOSPlatformEarlierThan then
    (arguments.head?.bind fun first => r.platformAndVersion? types first arguments.tail).map
      fun checked => .earlierThan checked.1 checked.2
  else namedCheck? name arguments

/-- What a call of a method of a check type says. -/
def callFact? (r : GuardReader) (types : CheckTypes) (target : SymbolId)
    (arguments : List Operation) :
    Option GuardFact :=
  ((r.declarations.table.get? target).filter fun s => types.hasChecks s.containing).bind fun s =>
    r.checkFact? types s.name arguments

/-- What a member with guard attributes says. -/
def ofMember? (r : GuardReader) (member : SymbolId) : Option Guard :=
  if r.isEnabled then (r.declarations.declared member).guardWorlds?.map .member else none

/-- What a call says: that of the check API first, then that of a guard member. -/
def ofCall? (r : GuardReader) (target : SymbolId) (arguments : List Operation) : Option Guard :=
  ((r.types.bind fun types => r.callFact? types target arguments).map .fact).or (r.ofMember? target)

end GuardReader

end PlatformGuard
