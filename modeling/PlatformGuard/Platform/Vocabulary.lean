import PlatformGuard.Platform.Name
import PlatformGuard.SortedMap
import PlatformGuard.Version.Basic

/-!
# The platform vocabulary

A vocabulary knows the built-in platforms and some custom ones. It reads attribute texts such as
`Windows10.1.2.3`: a platform name and, from the first digit on, a version.

Reading never fails as a whole. Each thing wrong is a `PlatformError`, and the name and version come
out as far as they could be understood, with the least version in place of an unusable one.
-/

namespace PlatformGuard

/-- What can be wrong with an attribute text. -/
inductive PlatformError where
  /-- No platform of this name is known. -/
  | unknownPlatform (name : String)
  /-- The platform takes fewer version components, or none. -/
  | invalidVersionArity (platform version expected : String)
  /-- The version is not a list of numbers. -/
  | notParseableVersion (platform version : String)
deriving Repr, DecidableEq

namespace PlatformError

def message : PlatformError → String
  | unknownPlatform name => "The platform '" ++ name ++ "' is not a known platform name"
  | invalidVersionArity platform version expected =>
    "Version '" ++ version ++ "' is not valid for platform '" ++ platform ++
    "'. Use a version with " ++
      expected ++ " for this platform"
  | notParseableVersion platform version =>
    "Version '" ++ version ++ "' of platform '" ++ platform ++ "' could not be parsed"

def isVersionError : PlatformError → Bool
  | unknownPlatform _ => false
  | _ => true

end PlatformError

/-- The platforms that are known: the built-in ones and custom ones. -/
structure Vocabulary where
  custom : SortedMap PlatformName Unit := .empty

/-- What an attribute text says. -/
structure ParsedPlatform where
  name : PlatformName
  version : Version
  errors : List PlatformError

def ParsedPlatform.isValid (p : ParsedPlatform) : Bool :=
  p.errors.isEmpty

namespace Vocabulary

/-- Only the built-in platforms. -/
def builtin : Vocabulary := {}

/-- The built-in platforms and custom ones; blank names are left out. -/
def withCustom (names : List String) : Vocabulary :=
  let named := (names.map PlatformName.canonical).filter fun n => n.text != ""
  ⟨.ofList (named.map fun n => (n, ()))⟩

def customNames (v : Vocabulary) : List String :=
  v.custom.keys.map (·.text)

def isKnown (v : Vocabulary) (n : PlatformName) : Bool :=
  n.builtin?.isSome || v.custom.contains n

/-- Whether a text is one or more ASCII letters. -/
def isLetters (s : String) : Bool :=
  s != "" && s.toList.all Char.isAlpha

/-- The known platform that a text names. -/
def parseName (v : Vocabulary) (raw : String) : Except PlatformError PlatformName :=
  if isLetters (Text.trim raw) && v.isKnown (.canonical raw) then .ok (.canonical raw)
  else .error (.unknownPlatform raw)

/-- The most version components of a platform; one that is not built in takes as many as there can
be. -/
def maxVersionParts (_v : Vocabulary) (platform : PlatformName) : Nat :=
  match platform.builtin? with
  | some p => p.maxVersionParts
  | none => Version.maxComponents

def parseComponent? (cs : List Char) : Option UInt32 :=
  match Text.ofDigits? cs with
  | some n => if n < UInt32.size then some n.toUInt32 else none
  | none => none

/-- Reads all of the version components, or none. -/
def parseComponents? (parts : List (List Char)) : Option (List UInt32) :=
  parts.mapM parseComponent?

/-- Reads the version part of an attribute text of a platform. The empty text means any version; a
single component is padded to two. -/
def parseVersion (v : Vocabulary) (platform : PlatformName) (raw : String) :
    Except PlatformError Version :=
  if raw = "" then .ok .zero
  else
    let most := v.maxVersionParts platform
    let arity := fun expected => PlatformError.invalidVersionArity platform.text raw expected
    match parseComponents? (Text.splitOn '.' raw.toList) with
    | none => .error (.notParseableVersion platform.text raw)
    | some parts =>
      if most = 0 then .error (arity "no version part")
      else if most < parts.length then .error (arity ("2 to " ++ Text.number most ++ " parts"))
      else
        match Version.ofComponents? parts with
        | some version => .ok version.normalized
        | none => .error (arity ("2 to " ++ Text.number most ++ " parts"))

/-- Cuts an attribute text before its first digit. A version part is one line, so a text with a line
break after the first digit is all name. -/
def splitAttribute (cs : List Char) : List Char × List Char :=
  let name := cs.takeWhile fun c => !c.isDigit
  let version := cs.dropWhile fun c => !c.isDigit
  if version.contains '\n' then (cs, []) else (name, version)

def parseAttribute (v : Vocabulary) (raw : String) : ParsedPlatform :=
  let parts := splitAttribute (Text.dropBlanks raw.toList)
  let namePart := String.ofList parts.1
  let named := v.parseName namePart
  let name := match named with
    | .ok name => name
    | .error _ => .canonical namePart
  let versioned := v.parseVersion name (String.ofList parts.2)
  let version := match versioned with
    | .ok version => version
    | .error _ => .zero
  let nameErrors := match named with
    | .ok _ => []
    | .error e => [e]
  let versionErrors := match versioned with
    | .ok _ => []
    | .error e => [e]
  ⟨name, version, nameErrors ++ versionErrors⟩

end Vocabulary

end PlatformGuard
