import PlatformGuard.Analysis.Shared
import PlatformGuard.Report.Basic
import PlatformGuard.Settings.Basic

/-!
# The analysis of compilations

The bodies of a compilation are analysed side by side, with one set of remembered contracts. The
report has the findings about attributes and those of the bodies that were walked to the end, as the
settings have them; the other bodies are only counted.
-/

namespace PlatformGuard

/-- The course of an analysis in time: whose turn each step is, as long as it is told, and how long
it takes. -/
structure Course where
  turns : List Nat := []
  elapsedMs : Nat := 0
deriving Repr, Inhabited

/-- Analyses bodies side by side: the outcome of each, and the session after them. -/
def analyzeBodies (reader : GuardReader) (bodies : List MethodBody) (turns : List Nat)
    (session : Session) : List (Except AnalysisError (List Diagnostic)) × Session :=
  Pool.run { processes := bodies.map (Process.body reader), session } turns

/-- Counts how the walk of a body ended. -/
def ReportMetadata.recordOutcome (m : ReportMetadata) :
    Except AnalysisError (List Diagnostic) → ReportMetadata
  | .ok _ => { m with bodiesAnalyzed := m.bodiesAnalyzed + 1 }
  | .error .cancelled => { m with bodiesCancelled := m.bodiesCancelled + 1 }
  | .error _ => { m with bodiesFailed := m.bodiesFailed + 1 }

/-- The findings of the bodies that were walked to the end. -/
def findingsOf (outcomes : List (Except AnalysisError (List Diagnostic))) : List Diagnostic :=
  outcomes.flatMap fun
    | .ok found => found
    | .error _ => []

/-- The report of outcomes, for a compilation of a name. -/
def reportOutcomes (name : String) (outcomes : List (Except AnalysisError (List Diagnostic)))
    (attributes : List Diagnostic) (settings : Settings) (contractsBuilt : Nat) : Report :=
  { diagnostics := settings.applyRules (attributes ++ findingsOf outcomes)
    metadata :=
      outcomes.foldl ReportMetadata.recordOutcome { compilations := [name], contractsBuilt } }

def analyze (settings : Settings) (cancellation : Cancellation) (c : Compilation)
    (course : Course := {}) : Report :=
  if !settings.shouldAnalyze c.targetFramework then { metadata := { skipped := [c.name] } }
  else
    let d : Declarations := { table := c.symbols, vocabulary := settings.vocabulary }
    let (outcomes, session) :=
      analyzeBodies (.ofDeclarations d) c.bodies course.turns { cancellation }
    let report :=
      (reportOutcomes c.name outcomes d.attributeDiagnostics settings session.cache.size).sort
    { report with metadata.durationMs := course.elapsedMs }

/-- Analyses several compilations into one report. -/
def analyzeAll (settings : Settings) (runs : List (Compilation × Course)) : Report :=
  (runs.foldl (fun (report : Report) run => report.merge (analyze settings .never run.1 run.2))
    {}).sort

end PlatformGuard
