import PlatformGuard.Json.Diagnostic
import PlatformGuard.Settings.Form

/-!
# Settings as JSON
-/

namespace PlatformGuard

open Json

/-- How JSON writes what settings are made of. -/
def Json.dataForm : DataForm JsonError Json where
  text := readText
  boolean := readBool
  count := readUInt64
  severity := readTag .direct Severity.names
  isAbsent
    | .null => .ok true
    | _ => .ok false
  list := readList .ok
  entries := readEntries .ok
  record := fun names v => (readRecord names v).map (·.fields)

namespace RuleSettings

def toJson (r : RuleSettings) : Json :=
  .object ([("enabled", Json.bool r.enabled)] ++
    field? "severity" (fun s : Severity => .text s.text) r.severity)

def shape : Shape :=
  .record
    [("enabled", .optional, .boolean),
      ("severity", .optional, .nullable (Form.name Severity.names).shape)]

end RuleSettings

namespace Settings

def toJson (s : Settings) : Json :=
  .object <|
    [("version", Json.text s.version), ("enabled", .bool s.enabled),
     ("custom_platforms", .list .text s.customPlatforms)] ++
    field? "target_framework" .text s.targetFramework ++
    [("minimum_target_framework", .text s.minimumTargetFramework),
     ("analyze_below_minimum", .bool s.analyzeBelowMinimum),
     ("rules", .object (s.rules.entries.map fun e => (e.1, e.2.toJson)))] ++
    field? "threads" (fun n : UInt64 => .nat n.toNat) s.threads

def ofJson (v : Json) : Except JsonError Settings :=
  ofForm Json.dataForm v

def form : Form Settings where
  shape := .record
    [("version", .optional, .text), ("enabled", .optional, .boolean),
      ("custom_platforms", .optional, .list .text),
     ("target_framework", .optional, .nullable .text),
     ("minimum_target_framework", .optional, .text),
     ("analyze_below_minimum", .optional, .boolean),
     ("rules", .optional, .entries RuleSettings.shape),
     ("threads", .optional, .nullable (.natural UInt64.size))]
  read := ofJson

def parseJson (text : String) : Except JsonError Settings :=
  form.parse text

end Settings

end PlatformGuard
