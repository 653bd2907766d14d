import PlatformGuard.Diagnostic.Basic
import PlatformGuard.Json.Read

/-!
# Diagnostics as JSON
-/

namespace PlatformGuard

open Json

namespace RuleKind

def names : List (String × RuleKind) :=
  [("obsoleted", obsoleted), ("unsupported", unsupported), ("only_supported", onlySupported),
   ("invalid_platform_name", invalidPlatformName), ("invalid_version", invalidVersion)]

def name : RuleKind → String
  | obsoleted => "obsoleted"
  | unsupported => "unsupported"
  | onlySupported => "only_supported"
  | invalidPlatformName => "invalid_platform_name"
  | invalidVersion => "invalid_version"

end RuleKind

namespace Location

def toJson (l : Location) : Json :=
  .object
    [("file", .text l.file), ("line", .nat l.line.toNat), ("column", .nat l.column.toNat),
     ("offset", .nat l.offset.toNat), ("length", .nat l.length.toNat)]

def ofJson (v : Json) : Except JsonError Location := do
  let r ← readRecord ["file", "line", "column", "offset", "length"] v
  return {
    file := ← r.required "file" readText
    line := ← r.required "line" readUInt64
    column := ← r.required "column" readUInt64
    offset := ← r.withDefault "offset" 0 readUInt64
    length := ← r.withDefault "length" 0 readUInt64 }

def form : Form Location where
  shape := .record
    [("file", .required, .text), ("line", .required, .natural UInt64.size),
      ("column", .required, .natural UInt64.size),
     ("offset", .optional, .natural UInt64.size), ("length", .optional, .natural UInt64.size)]
  read := ofJson

end Location

namespace Diagnostic

def toJson (d : Diagnostic) : Json :=
  .object <|
    [("rule_kind", Json.text d.ruleKind.name), ("code", .text d.code),
      ("severity", .text d.severity.text),
     ("location", d.location.toJson), ("target", .text d.target), ("platform", .text d.platform),
     ("version_description", .text d.versionDescription),
     ("reachability_description", .text d.reachabilityDescription)] ++
    field? "message" .text d.message ++ field? "url" .text d.url ++ [("text", .text d.text)]

def ofJson (v : Json) : Except JsonError Diagnostic := do
  let r ← readRecord
    ["rule_kind", "code", "severity", "location", "target", "platform", "version_description",
     "reachability_description", "message", "url", "text"] v
  return {
    ruleKind := ← r.required "rule_kind" (readTag .direct RuleKind.names)
    code := ← r.required "code" readText
    severity := ← r.required "severity" (readTag .direct Severity.names)
    location := ← r.required "location" Location.ofJson
    target := ← r.required "target" readText
    platform := ← r.required "platform" readText
    versionDescription := ← r.required "version_description" readText
    reachabilityDescription := ← r.required "reachability_description" readText
    message := ← r.optional "message" readText
    url := ← r.optional "url" readText
    text := ← r.required "text" readText }

def form : Form Diagnostic where
  shape := .record
    [("rule_kind", .required, (Form.name RuleKind.names).shape), ("code", .required, .text),
     ("severity", .required, (Form.name Severity.names).shape),
     ("location", .required, Location.form.shape),
     ("target", .required, .text), ("platform", .required, .text),
     ("version_description", .required, .text),
     ("reachability_description", .required, .text), ("message", .optional, .nullable .text),
     ("url", .optional, .nullable .text), ("text", .required, .text)]
  read := ofJson

end Diagnostic

end PlatformGuard
