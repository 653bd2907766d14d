import PlatformGuard.Position

/-!
# Diagnostics

What is reported for a use that escapes a contract, or for a malformed attribute. Each
rule has a public code:

* `CA1416`: a use can be reached on a platform its target does not support;
* `CA1418`: the platform name or version of an attribute is wrong;
* `CA1422`: a use can be reached on a platform where its target is obsolete.
-/

namespace PlatformGuard

/-- How grave a diagnostic is. -/
inductive Severity where
  | error
  | warning
  | info
  | hint
deriving Repr, DecidableEq, Inhabited

def Severity.text : Severity → String
  | error => "error"
  | warning => "warning"
  | info => "info"
  | hint => "hint"

def Severity.names : List (String × Severity) :=
  [("error", error), ("warning", warning), ("info", info), ("hint", hint)]

def Severity.ofName? (name : String) : Option Severity :=
  (Severity.names.find? fun n => n.1 == name).map (·.2)

/-- The rule a diagnostic comes from. -/
inductive RuleKind where
  | obsoleted
  | unsupported
  | onlySupported
  | invalidPlatformName
  | invalidVersion
deriving Repr, DecidableEq, Inhabited

namespace RuleCode

def platformCompatibility : String := "CA1416"

def invalidPlatformAttribute : String := "CA1418"

def obsoletedPlatform : String := "CA1422"

def all : List String := [platformCompatibility, invalidPlatformAttribute, obsoletedPlatform]

end RuleCode

namespace RuleKind

def code : RuleKind → String
  | obsoleted => RuleCode.obsoletedPlatform
  | unsupported | onlySupported => RuleCode.platformCompatibility
  | invalidPlatformName | invalidVersion => RuleCode.invalidPlatformAttribute

/-- The severity where no setting says otherwise. -/
def defaultSeverity : RuleKind → Severity
  | obsoleted => .info
  | _ => .warning

end RuleKind

/-- Where a diagnostic points. -/
structure Location where
  file : String := ""
  line : UInt64 := 0
  column : UInt64 := 0
  offset : UInt64 := 0
  length : UInt64 := 0
deriving Repr, DecidableEq, Inhabited

namespace Location

/-- The start of a span in a file, with its length. -/
def ofSpan (file : String) (span : Span) : Location :=
  ⟨file, span.start.line, span.start.column, span.start.offset, span.length⟩

/-- By file, line, column, offset and length. -/
def cmp (a b : Location) : Ordering :=
  (compare a.file b.file).then <|
    (compare a.line.toNat b.line.toNat).then <|
      (compare a.column.toNat b.column.toNat).then <|
        (compare a.offset.toNat b.offset.toNat).then (compare a.length.toNat b.length.toNat)

/-- `file:line:column`. -/
def text (l : Location) : String :=
  l.file ++ ":" ++ Text.number l.line.toNat ++ ":" ++ Text.number l.column.toNat

end Location

structure Diagnostic where
  ruleKind : RuleKind
  code : String
  severity : Severity
  location : Location
  /-- The symbol that is used, or that carries the attribute. -/
  target : String := ""
  /-- The platform it is about; several have commas between. -/
  platform : String := ""
  versionDescription : String := ""
  reachabilityDescription : String := ""
  message : Option String := none
  url : Option String := none
  /-- What a user reads. -/
  text : String
deriving Repr, DecidableEq, Inhabited

namespace Diagnostic

/-- A finding of a rule, with the code and severity of the rule. -/
def ofRule (rule : RuleKind) (location : Location) (text : String) : Diagnostic :=
  { ruleKind := rule, code := rule.code, severity := rule.defaultSeverity, location, text }

def isError (d : Diagnostic) : Bool :=
  d.severity = .error

/-- `location: severity code: text`. -/
def line (d : Diagnostic) : String :=
  d.location.text ++ ": " ++ d.severity.text ++ " " ++ d.code ++ ": " ++ d.text

/-- The order of a report: by location, then code, then text. -/
def cmp (a b : Diagnostic) : Ordering :=
  (a.location.cmp b.location).then ((compare a.code b.code).then (compare a.text b.text))

/-- Findings in the order of a report; those that compare equal keep their order. -/
def sort (ds : List Diagnostic) : List Diagnostic :=
  ds.mergeSort fun a b => a.cmp b != .gt

end Diagnostic

end PlatformGuard
