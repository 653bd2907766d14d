import PlatformGuard.Diagnostic.Basic
import PlatformGuard.Platform.Vocabulary
import PlatformGuard.Settings.Framework

/-!
# Settings

What a user can set: custom platforms, which target frameworks are analysed, and for each rule
whether it is on and how grave it is.
-/

namespace PlatformGuard

structure RuleSettings where
  enabled : Bool := true
  /-- The severity in place of that of the rule. -/
  severity : Option Severity := none
deriving Repr, DecidableEq, Inhabited

/-- The settings of an analysis. -/
structure Settings where
  version : String := "1.0"
  enabled : Bool := true
  /-- Platforms known beside the built-in ones. -/
  customPlatforms : List String := []
  /-- The target framework of a compilation that names none. -/
  targetFramework : Option String := none
  /-- Earlier target frameworks are not analysed. -/
  minimumTargetFramework : String := "5.0"
  /-- Earlier target frameworks are analysed all the same. -/
  analyzeBelowMinimum : Bool := false
  /-- The settings of rules by code. -/
  rules : SortedMap String RuleSettings := .empty
  /-- The number of workers. -/
  threads : Option UInt64 := none

instance : BEq RuleSettings := ⟨fun a b => decide (a = b)⟩

namespace Settings

instance : BEq Settings :=
  ⟨fun a b => a.version == b.version && a.enabled == b.enabled && a.customPlatforms ==
    b.customPlatforms &&
    a.targetFramework == b.targetFramework && a.minimumTargetFramework ==
      b.minimumTargetFramework &&
    a.analyzeBelowMinimum == b.analyzeBelowMinimum && a.rules == b.rules && a.threads == b.threads⟩

/-- The settings where none are given: all rules are on. -/
def standard : Settings :=
  { rules := .ofList (RuleCode.all.map fun code => (code, {})) }

instance : Inhabited Settings := ⟨standard⟩

def vocabulary (s : Settings) : Vocabulary :=
  .withCustom s.customPlatforms

/-- The number of workers where one is set that makes sense. -/
def workers? (s : Settings) : Option UInt64 :=
  s.threads.filter (0 < ·)

/-- Whether a compilation for a target framework is analysed. One whose framework is not understood
is. -/
def shouldAnalyze (s : Settings) (targetFramework : Option String) : Bool :=
  s.enabled &&
    (s.analyzeBelowMinimum ||
      match (targetFramework.or s.targetFramework).bind FrameworkVersion.ofMoniker?,
        FrameworkVersion.ofMoniker? s.minimumTargetFramework with
      | some target, some minimum => target.isAtLeast minimum
      | _, _ => true)

def isRuleEnabled (s : Settings) (code : String) : Bool :=
  match s.rules.find? code with
  | some rule => rule.enabled
  | none => true

/-- A finding with the severity set for its rule. -/
def withSeverity (s : Settings) (d : Diagnostic) : Diagnostic :=
  match (s.rules.find? d.code).bind (·.severity) with
  | some severity => { d with severity }
  | none => d

/-- The findings of the rules that are on, with the severities that are set. -/
def applyRules (s : Settings) (ds : List Diagnostic) : List Diagnostic :=
  (ds.filter fun d => s.isRuleEnabled d.code).map s.withSeverity

def customPlatformWarning? (name : String) : Option String :=
  if !Vocabulary.isLetters name then
    some ("Custom platform '" ++ name ++ "' must consist of letters only")
  else
    match Vocabulary.builtin.parseName name with
    | .ok _ => some ("Custom platform '" ++ name ++ "' is already a built-in platform")
    | .error _ => none

def warnings (s : Settings) : List String :=
  s.customPlatforms.filterMap customPlatformWarning? ++
    (if (FrameworkVersion.ofMoniker? s.minimumTargetFramework).isNone then
      ["Minimum target framework '" ++ s.minimumTargetFramework ++
        "' is not a recognised framework version"]
    else []) ++
    (match s.targetFramework with
      | some tfm =>
        if (FrameworkVersion.ofMoniker? tfm).isNone then
          ["Target framework '" ++ tfm ++ "' is not recognised"]
        else []
      | none => []) ++
    ((s.rules.keys.filter fun code => !RuleCode.all.contains code).map fun code =>
      "Unknown rule '" ++ code ++ "'") ++
    (if s.threads = some 0 then ["Thread count must be at least 1"] else [])

end Settings

end PlatformGuard
