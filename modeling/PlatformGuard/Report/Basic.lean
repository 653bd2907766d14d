import PlatformGuard.Diagnostic.Basic
import PlatformGuard.SortedMap

/-!
# Reports

The findings of an analysis with what was analysed, and how a report reads as text.
-/

namespace PlatformGuard

def analyzerVersion : String := "0.3.0"

/-- What a report says of its analysis. -/
structure ReportMetadata where
  analyzerVersion : String := PlatformGuard.analyzerVersion
  /-- The compilations that were analysed. -/
  compilations : List String := []
  /-- The compilations that were passed over. -/
  skipped : List String := []
  bodiesAnalyzed : Nat := 0
  /-- The bodies whose walk was cancelled. -/
  bodiesCancelled : Nat := 0
  /-- The bodies whose walk failed. -/
  bodiesFailed : Nat := 0
  contractsBuilt : Nat := 0
  durationMs : Nat := 0
deriving Repr, DecidableEq, Inhabited

/-- The outcome of an analysis. -/
structure Report where
  diagnostics : List Diagnostic := []
  metadata : ReportMetadata := {}
deriving Repr, DecidableEq, Inhabited

namespace Report

/-- Whether compilations were passed over, and none was analysed. -/
def wasSkipped (r : Report) : Bool :=
  r.metadata.compilations.isEmpty && !r.metadata.skipped.isEmpty

def count (r : Report) (severity : Severity) : Nat :=
  r.diagnostics.countP fun d => d.severity = severity

def hasErrors (r : Report) : Bool :=
  0 < r.count .error

def countsByCode (r : Report) : SortedMap String Nat :=
  r.diagnostics.foldl (fun m d => m.insert d.code ((m.find? d.code).getD 0 + 1)) .empty

def inFile (r : Report) (file : String) : List Diagnostic :=
  r.diagnostics.filter fun d => d.location.file == file

def addDiagnostics (r : Report) (ds : List Diagnostic) : Report :=
  { r with diagnostics := r.diagnostics ++ ds }

/-- Adds another report. The version is that of the first. -/
def merge (a b : Report) : Report where
  diagnostics := a.diagnostics ++ b.diagnostics
  metadata :=
    { analyzerVersion := a.metadata.analyzerVersion
      compilations := a.metadata.compilations ++ b.metadata.compilations
      skipped := a.metadata.skipped ++ b.metadata.skipped
      bodiesAnalyzed := a.metadata.bodiesAnalyzed + b.metadata.bodiesAnalyzed
      bodiesCancelled := a.metadata.bodiesCancelled + b.metadata.bodiesCancelled
      bodiesFailed := a.metadata.bodiesFailed + b.metadata.bodiesFailed
      contractsBuilt := a.metadata.contractsBuilt + b.metadata.contractsBuilt
      durationMs := a.metadata.durationMs + b.metadata.durationMs }

def sort (r : Report) : Report :=
  { r with diagnostics := Diagnostic.sort r.diagnostics }

/-! ## Text -/

/-- One line about the whole. -/
def summary (r : Report) : String :=
  let m := r.metadata
  Text.number r.diagnostics.length ++ " diagnostic(s): " ++ Text.number (r.count .error) ++
  " error(s), " ++
    Text.number (r.count .warning) ++ " warning(s) in " ++ Text.number m.bodiesAnalyzed ++ " bod" ++
    (if m.bodiesAnalyzed = 1 then "y" else "ies") ++
    (if 0 < m.bodiesCancelled then ", " ++ Text.number m.bodiesCancelled ++ " cancelled" else "") ++
    (if 0 < m.bodiesFailed then ", " ++ Text.number m.bodiesFailed ++ " failed" else "") ++
    (if m.skipped.isEmpty then "" else ", skipped: " ++ ", ".intercalate m.skipped)

/-- How a terminal is told to go back to plain text. -/
def plainText : String := "\x1b[0m"

/-- How a terminal is told the colour of a severity. -/
def colour : Severity → String
  | .error => "\x1b[31m"
  | .warning => "\x1b[33m"
  | .info => "\x1b[34m"
  | .hint => "\x1b[2m"

/-- A text with the colour taken up again wherever the text itself goes back to plain. -/
def recoloured (colour : List Char) : Nat → List Char → List Char
  | _, [] => []
  | skip + 1, c :: cs =>
    c :: (if skip = 0 then colour ++ recoloured colour 0 cs else recoloured colour skip cs)
  | 0, c :: cs =>
    if plainText.toList.isPrefixOf (c :: cs) then c :: recoloured colour (plainText.length - 1) cs
    else c :: recoloured colour 0 cs

def coloured (severity : Severity) (line : String) : String :=
  colour severity ++ String.ofList (recoloured (colour severity).toList 0 line.toList) ++ plainText

/-- A line for each finding, then the summary. -/
def render (r : Report) (inColour : Bool) : String :=
  let lines := r.diagnostics.map fun d => if inColour then coloured d.severity d.line else d.line
  String.join ((lines ++ [r.summary]).map fun line => line ++ "\n")

end Report

end PlatformGuard
