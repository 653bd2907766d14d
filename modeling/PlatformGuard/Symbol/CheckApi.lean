import PlatformGuard.Platform.Name
import PlatformGuard.Symbol.Table

/-!
# The platform-check API

The types and members by which programs ask what they run on: `OperatingSystem.IsWindows()`,
`RuntimeInformation.IsOSPlatform(OSPlatform.Linux)` and their like, and `Debug.Assert`. A
compilation refers to them from its framework; a table that lacks them can declare them.
-/

namespace PlatformGuard

namespace CheckApi

/-- The type of the checks by name, with or without a version. -/
def operatingSystemType : String := "System.OperatingSystem"

/-- The type of the older check by an `OSPlatform` value. -/
def runtimeInformationType : String := "System.Runtime.InteropServices.RuntimeInformation"

/-- The type of the values of the older check. -/
def osPlatformType : String := "System.Runtime.InteropServices.OSPlatform"

def debugType : String := "System.Diagnostics.Debug"

def isOSPlatform : String := "IsOSPlatform"

def isOSPlatformVersionAtLeast : String := "IsOSPlatformVersionAtLeast"

def isOSPlatformOrLater : String := "IsOSPlatformOrLater"

def isOSPlatformEarlierThan : String := "IsOSPlatformEarlierThan"

/-- How the names of the versioned checks of one platform end. -/
def versionAtLeastEnding : String := "VersionAtLeast"

/-- The method that makes an `OSPlatform` value from a name. -/
def create : String := "Create"

def assert : String := "Assert"

/-- The `OSPlatform` properties and the platforms they stand for. -/
def osPlatformProperties : List (String × String) :=
  [("Windows", "windows"), ("Linux", "linux"), ("OSX", "macos"), ("FreeBSD", "freebsd")]

/-- The names of the check methods of the operating-system type. -/
def operatingSystemMethods : List String :=
  [isOSPlatform, isOSPlatformVersionAtLeast, isOSPlatformOrLater, isOSPlatformEarlierThan] ++
    builtinPlatforms.flatMap fun p =>
      ("Is" ++ p.guardName) ::
        (if p.maxVersionParts = 0 then [] else ["Is" ++ p.guardName ++ versionAtLeastEnding])

end CheckApi

/-- The types of a declared check API. -/
structure DeclaredCheckApi where
  operatingSystem : SymbolId
  runtimeInformation : SymbolId
  osPlatform : SymbolId
  debug : SymbolId
deriving Repr, DecidableEq

namespace SymbolTable

def declareType (t : SymbolTable) (assembly : SymbolId) (name : String) (kind : SymbolKind)
    (members : List String) :
    SymbolTable × SymbolId :=
  let declared := t.add name .type (some assembly)
  (members.foldl (fun t member => (t.add member kind (some declared.2)).1) declared.1, declared.2)

def declareCheckApi (t : SymbolTable) (assembly : SymbolId) : SymbolTable × DeclaredCheckApi :=
  let (t, operatingSystem) :=
    t.declareType assembly CheckApi.operatingSystemType .method CheckApi.operatingSystemMethods
  let (t, runtimeInformation) :=
    t.declareType assembly CheckApi.runtimeInformationType .method [CheckApi.isOSPlatform]
  let (t, osPlatform) :=
    t.declareType assembly CheckApi.osPlatformType .property
      (CheckApi.osPlatformProperties.map (·.1))
  let t := (t.add CheckApi.create .method (some osPlatform)).1
  let (t, debug) := t.declareType assembly CheckApi.debugType .method [CheckApi.assert]
  (t, { operatingSystem, runtimeInformation, osPlatform, debug })

end SymbolTable

end PlatformGuard
