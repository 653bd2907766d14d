import PlatformGuard.Json.Diagnostic
import PlatformGuard.Report.Basic
import PlatformGuard.Report.Output

/-!
# Reports as JSON
-/

namespace PlatformGuard

open Json

namespace ReportMetadata

def toJson (m : ReportMetadata) : Json :=
  .object
    [("analyzer_version", .text m.analyzerVersion), ("compilations", .list .text m.compilations),
     ("skipped", .list .text m.skipped), ("bodies_analyzed", .nat m.bodiesAnalyzed),
     ("bodies_cancelled", .nat m.bodiesCancelled), ("bodies_failed", .nat m.bodiesFailed),
     ("contracts_built", .nat m.contractsBuilt), ("duration_ms", .nat m.durationMs)]

def ofJson (v : Json) : Except JsonError ReportMetadata := do
  let r ← readRecord
    ["analyzer_version", "compilations", "skipped", "bodies_analyzed", "bodies_cancelled",
      "bodies_failed",
     "contracts_built", "duration_ms"] v
  return {
    analyzerVersion := ← r.required "analyzer_version" readText
    compilations := ← r.required "compilations" (readList readText)
    skipped := ← r.required "skipped" (readList readText)
    bodiesAnalyzed := ← r.required "bodies_analyzed" (readBelow UInt64.size)
    bodiesCancelled := ← r.required "bodies_cancelled" (readBelow UInt64.size)
    bodiesFailed := ← r.withDefault "bodies_failed" 0 (readBelow UInt64.size)
    contractsBuilt := ← r.required "contracts_built" (readBelow UInt64.size)
    durationMs := ← r.withDefault "duration_ms" 0
      (readBelow 340282366920938463463374607431768211456) }

def form : Form ReportMetadata where
  shape := .record
    [("analyzer_version", .required, .text), ("compilations", .required, .list .text),
     ("skipped", .required, .list .text), ("bodies_analyzed", .required, .natural UInt64.size),
     ("bodies_cancelled", .required, .natural UInt64.size),
     ("bodies_failed", .optional, .natural UInt64.size),
     ("contracts_built", .required, .natural UInt64.size), ("duration_ms", .optional, .wide)]
  read := ofJson

end ReportMetadata

namespace Report

def toJson (r : Report) : Json :=
  .object [("diagnostics", .list Diagnostic.toJson r.diagnostics), ("metadata", r.metadata.toJson)]

def ofJson (v : Json) : Except JsonError Report := do
  let r ← readRecord ["diagnostics", "metadata"] v
  return {
    diagnostics := ← r.required "diagnostics" (readList Diagnostic.ofJson)
    metadata := ← r.required "metadata" ReportMetadata.ofJson }

def form : Form Report where
  shape := .record
    [("diagnostics", .required, .list Diagnostic.form.shape),
      ("metadata", .required, ReportMetadata.form.shape)]
  read := ofJson

def write (r : Report) (inColour : Bool) : OutputFormat → String
  | .text => r.render inColour
  | .json => r.toJson.pretty ++ "\n"

end Report

end PlatformGuard
