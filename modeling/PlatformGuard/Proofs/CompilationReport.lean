import Mathlib.Algebra.GroupWithZero.Nat
import PlatformGuard.Proofs.Interference

/-!
# The report of a compilation that may be cancelled

The bodies of a compilation are analysed side by side, and a cancellation comes after a number of
polls over the whole run. Whatever the order of their steps, a body is cancelled or has the findings
of an analysis on its own. The report has the findings of the bodies that came to the end, whichever
these are, and counts the others as cancelled (`cancellation_all_or_nothing`). No body fails in
another way. A compilation that the settings leave out is not analysed, and none of its bodies is
counted.
-/

namespace PlatformGuard

namespace Compilation

/-- Where the declarations of a compilation come from. -/
def declarations (c : Compilation) (settings : Settings) : Declarations where
  table := c.symbols
  vocabulary := settings.vocabulary

def reader (c : Compilation) (settings : Settings) : GuardReader :=
  .ofDeclarations (c.declarations settings)

end Compilation

/-! ## Bodies one after the other -/

/-- What is remembered after analyses of some bodies, each with a cancellation of its own. -/
def cacheAfter (reader : GuardReader) (earlier : List (MethodBody × Cancellation)) :
    ContractCache :=
  earlier.foldl (fun cache e => (analyzeBody reader e.1 { cache, cancellation := e.2 }).2.cache)
    .empty

section

variable {reader : GuardReader} {contractOf : SymbolId → Contract}

theorem cacheAfter_faithful (acyclic : reader.declarations.ImplementsAcyclic)
    (recursion : reader.declarations.IsContractOf contractOf)
    (earlier : List (MethodBody × Cancellation)) :
    (cacheAfter reader earlier).Faithful reader.declarations contractOf :=
  List.foldlRecOn earlier _ ContractCache.faithful_empty
    fun _ h e _ => analyzeBody_faithful acyclic recursion e.1 h

/-- An analysis on its own, which nothing cancels, has the findings of all uses that are checked. -/
theorem analyzeBody_alone (acyclic : reader.declarations.ImplementsAcyclic)
    (recursion : reader.declarations.IsContractOf contractOf) (body : MethodBody) :
    (analyzeBody reader body {}).1 = .ok (body.findings reader contractOf) :=
  (analyzeBody_outcome acyclic recursion body ContractCache.faithful_empty).1

end

/-! ## What is reported -/

/-- What a report has of some findings: not those of rules that are off, and each with the severity
that is set for its rule, if one is. -/
def Settings.reported (settings : Settings) (found : List Diagnostic) : List Diagnostic :=
  (found.filter fun d => (settings.rules.find? d.code).all (·.enabled)).map fun d =>
    { d with severity := ((settings.rules.find? d.code).bind (·.severity)).getD d.severity }

theorem Settings.applyRules_eq_reported (settings : Settings) (found : List Diagnostic) :
    settings.applyRules found = settings.reported found := by
  have enabled : settings.isRuleEnabled =
      fun code => (settings.rules.find? code).all (·.enabled) := by
    funext code
    rw [isRuleEnabled]
    cases settings.rules.find? code <;> rfl
  have severity : settings.withSeverity = fun d =>
      { d with severity := ((settings.rules.find? d.code).bind (·.severity)).getD d.severity } := by
    funext d
    rw [withSeverity]
    cases (settings.rules.find? d.code).bind (·.severity) <;> rfl
  rw [applyRules, reported, enabled, severity]

theorem Diagnostic.sort_perm (ds : List Diagnostic) : (Diagnostic.sort ds).Perm ds :=
  List.mergeSort_perm _ _

/-! ## What is counted -/

/-- Whether a body was cancelled. -/
def isCancelled : Except AnalysisError (List Diagnostic) → Bool
  | .error .cancelled => true
  | _ => false

/-- Whether a body was given up for another reason. -/
def isFailed (outcome : Except AnalysisError (List Diagnostic)) : Bool :=
  !outcome.isOk && !isCancelled outcome

theorem foldl_recordOutcome (outcomes : List (Except AnalysisError (List Diagnostic)))
    (m : ReportMetadata) :
    outcomes.foldl ReportMetadata.recordOutcome m =
      { m with
        bodiesAnalyzed := m.bodiesAnalyzed + outcomes.countP (·.isOk)
        bodiesCancelled := m.bodiesCancelled + outcomes.countP isCancelled
        bodiesFailed := m.bodiesFailed + outcomes.countP isFailed } := by
  induction outcomes generalizing m with
  | nil => rfl
  | cons outcome rest ih =>
    rw [List.foldl_cons, ih]
    obtain (_ | _ | _ | _) | _ := outcome <;>
      simp [ReportMetadata.recordOutcome, List.countP_cons, isCancelled, isFailed, Except.isOk,
        Except.toBool, Nat.add_assoc, Nat.add_comm 1]

section

variable {settings : Settings} {c : Compilation}

theorem analyze_diagnostics (cancellation : Cancellation) (course : Course)
    (h : settings.shouldAnalyze c.targetFramework = true) :
    (analyze settings cancellation c course).diagnostics.Perm (settings.reported
      ((c.declarations settings).attributeDiagnostics ++
        findingsOf (analyzeBodies (c.reader settings) c.bodies course.turns
          { cancellation }).1)) := by
  rw [analyze, h, if_neg (by decide), ← settings.applyRules_eq_reported]
  exact Diagnostic.sort_perm _

theorem analyze_metadata (cancellation : Cancellation) (course : Course)
    (h : settings.shouldAnalyze c.targetFramework = true) :
    (analyze settings cancellation c course).metadata =
      let ran := analyzeBodies (c.reader settings) c.bodies course.turns { cancellation }
      { compilations := [c.name]
        bodiesAnalyzed := ran.1.countP (·.isOk)
        bodiesCancelled := ran.1.countP isCancelled
        bodiesFailed := ran.1.countP isFailed
        contractsBuilt := ran.2.cache.size
        durationMs := course.elapsedMs } := by
  rw [analyze, h, if_neg (by decide)]
  show { (List.foldl ReportMetadata.recordOutcome _ _) with durationMs := course.elapsedMs } = _
  rw [foldl_recordOutcome]
  simp only [Nat.zero_add]
  rfl

end

/-! ## All or nothing -/

section

variable {reader : GuardReader} {contractOf : SymbolId → Contract}
  {outcomes : List (Except AnalysisError (List Diagnostic))} {bodies : List MethodBody}

/-- The bodies that came to the end. -/
def completed (bodies : List MethodBody)
    (outcomes : List (Except AnalysisError (List Diagnostic))) :
    List MethodBody :=
  ((bodies.zip outcomes).filter (·.2.isOk)).map (·.1)

/-- Of bodies that are cancelled or have all their findings, none fails, and the findings are those
of the bodies that came to the end. -/
theorem findingsOf_completed {p : Prop} (h : List.Forall₂ (fun outcome (body : MethodBody) =>
      outcome = .ok (body.findings reader contractOf) ∨ outcome = .error .cancelled ∧ p)
      outcomes bodies) :
    findingsOf outcomes =
        (completed bodies outcomes).flatMap (fun body => body.findings reader contractOf) ∧
      outcomes.countP (·.isOk) = (completed bodies outcomes).length ∧
      outcomes.countP isFailed = 0 ∧
      outcomes.countP (·.isOk) + outcomes.countP isCancelled = bodies.length := by
  induction h with
  | nil => exact ⟨rfl, rfl, rfl, rfl⟩
  | @cons outcome body outcomes bodies first rest ih =>
    obtain ⟨found, analysed, failed, all⟩ := ih
    obtain rfl | ⟨rfl, -⟩ := first
    · rw [List.countP_cons_of_pos rfl, List.countP_cons_of_neg Bool.false_ne_true,
        List.countP_cons_of_neg Bool.false_ne_true]
      refine ⟨congrArg (body.findings reader contractOf ++ ·) found, congrArg (· + 1) analysed,
        failed, ?_⟩
      rw [List.length_cons, ← all, Nat.add_right_comm]
    · rw [List.countP_cons_of_neg (by decide), List.countP_cons_of_neg (by decide),
        List.countP_cons_of_pos rfl]
      refine ⟨found, analysed, failed, ?_⟩
      rw [List.length_cons, ← all, Nat.add_assoc]

end

/-- Whatever else was analysed and cancelled before it, a body is cancelled, or has the findings of
an analysis on its own; and it is cancelled if not all polls on its walks pass. The same holds of
the bodies of a compilation, however their steps come between each other. So the report of a
compilation has the findings about attributes and all those of the bodies that came to the end, and
counts each body as analysed or as cancelled. A compilation that the settings leave out has no body
analysed at all. -/
theorem cancellation_all_or_nothing (settings : Settings) (cancellation : Cancellation)
    (c : Compilation) (course : Course) (acyclic : (c.declarations settings).ImplementsAcyclic) :
    let reader := c.reader settings
    let alone := fun body => (analyzeBody reader body {}).1
    let outcomes := (analyzeBodies reader c.bodies course.turns { cancellation }).1
    let report := analyze settings cancellation c course
    ∃ contractOf, (c.declarations settings).IsContractOf contractOf ∧
      (∀ body, alone body = .ok (body.findings reader contractOf)) ∧
      (∀ earlier body cancellation,
        (analyzeBody reader body { cache := cacheAfter reader earlier, cancellation }).1 =
          if cancellation.outlasts (body.polls reader contractOf) then alone body
          else .error .cancelled) ∧
      List.Forall₂ (fun outcome body => outcome = alone body ∨
        outcome = .error .cancelled ∧ cancellation ≠ .never) outcomes c.bodies ∧
      (settings.shouldAnalyze c.targetFramework = true →
        report.diagnostics.Perm
          (settings.reported ((c.declarations settings).attributeDiagnostics ++
            (completed c.bodies outcomes).flatMap fun body => body.findings reader contractOf)) ∧
        report.metadata.bodiesAnalyzed = (completed c.bodies outcomes).length ∧
        report.metadata.bodiesFailed = 0 ∧
        report.metadata.bodiesAnalyzed + report.metadata.bodiesCancelled +
          report.metadata.bodiesFailed = c.bodies.length) ∧
      (settings.shouldAnalyze c.targetFramework = false →
        report = { metadata := { skipped := [c.name] } }) := by
  intro reader alone outcomes report
  change reader.declarations.ImplementsAcyclic at acyclic
  obtain ⟨contractOf, recursion⟩ := acyclic.exists_contracts
  have onItsOwn : ∀ body, alone body = .ok (body.findings reader contractOf) :=
    analyzeBody_alone acyclic recursion
  obtain ⟨each, -⟩ :=
    analyzeBodies_outcomes acyclic recursion c.bodies course.turns cancellation
  refine ⟨contractOf, recursion, onItsOwn, fun earlier body cancellation => ?_, ?_,
    fun analysed => ?_, fun skipped => ?_⟩
  · rw [onItsOwn]
    exact (analyzeBody_outcome acyclic recursion body
      (cacheAfter_faithful acyclic recursion earlier)).1
  · simp only [onItsOwn]
    exact each
  · obtain ⟨found, ended, failed, all⟩ := findingsOf_completed each
    have metadata : report.metadata = _ := analyze_metadata cancellation course analysed
    rw [metadata]
    refine ⟨?_, ended, failed, ?_⟩
    · rw [← found]
      exact analyze_diagnostics cancellation course analysed
    · show outcomes.countP _ + outcomes.countP _ + outcomes.countP isFailed = _
      rw [failed]
      exact all
  · show analyze settings cancellation c course = _
    rw [analyze, skipped]
    rfl

/-- `{ IShape.Draw(); }`, which is supported on windows only. -/
def drawBody : MethodBody where
  owner := ⟨4⟩
  body := .block {} [.invocation {} ⟨3⟩ none []]

/-- `{ }` -/
def idleBody : MethodBody where
  owner := ⟨4⟩
  body := .block {} []

def drawing : Compilation where
  name := "Drawing"
  symbols := shapes.table
  bodies := [drawBody, idleBody]

theorem idleBody_polls (reader : GuardReader) (contractOf : SymbolId → Contract) :
    idleBody.polls reader contractOf = 1 := by
  rw [MethodBody.polls, MethodBody.log, MethodBody.walks_of_definitions_eq_nil rfl,
    List.flatMap_singleton, UnitWalk.log, UnitWalk.events]
  show pollsIn (List.filterMap _ (((Operation.block {} []).walk _).visit _).events) = 1
  rw [Operation.walk, Operation.walkAll]
  rfl

/-- Of two bodies, the second one may come to the end before the first one begins. -/
theorem analyzeBodies_second_first (reader : GuardReader) (first second : MethodBody)
    (s : Session) :
    ∃ turns, (analyzeBodies reader [first, second] turns s).1 =
      [(analyzeBody reader first (analyzeBody reader second s).2).1,
        (analyzeBody reader second s).1] := by
  have waiting : [Process.body reader first, Process.body reader second][1]? =
      some (Process.body reader second) := rfl
  obtain ⟨n, turned⟩ := Pool.exists_turns_of_one
    { processes := [Process.body reader first, Process.body reader second], session := s } waiting
  refine ⟨List.replicate n 1, ?_⟩
  simp only [analyzeBodies, Pool.run, List.map_cons, List.map_nil, turned, Process.run_body]
  simp only [List.set_cons_succ, List.set_cons_zero, Pool.runAll, Process.run_body]
  rfl

/-- One poll passes, and the second body takes it. -/
theorem drawing_outcomes : ∃ turns,
    (analyzeBodies (drawing.reader .standard) drawing.bodies turns { cancellation := .after 1 }).1 =
      [.error .cancelled, (analyzeBody (drawing.reader .standard) idleBody {}).1] := by
  let reader := drawing.reader .standard
  let start : Session := { cancellation := .after 1 }
  have acyclic : reader.declarations.ImplementsAcyclic := shapes_implementsAcyclic
  obtain ⟨contractOf, recursion⟩ := acyclic.exists_contracts
  have faithful : start.cache.Faithful reader.declarations contractOf :=
    ContractCache.faithful_empty
  obtain ⟨ended, left⟩ := analyzeBody_outcome acyclic recursion idleBody faithful
  obtain ⟨stopped, -⟩ := analyzeBody_outcome acyclic recursion drawBody
    (analyzeBody_faithful acyclic recursion idleBody faithful)
  rw [idleBody_polls] at ended left
  have polled := drawBody.polls_pos reader contractOf
  have none : (Cancellation.after 0).outlasts (drawBody.polls reader contractOf) = false :=
    decide_eq_false (by omega)
  obtain ⟨turns, outcomes⟩ := analyzeBodies_second_first reader drawBody idleBody start
  refine ⟨turns, outcomes.trans ?_⟩
  rw [stopped, left, ended, analyzeBody_alone acyclic recursion]
  show [if (Cancellation.after 0).outlasts _ then _ else _, _] = _
  rw [none]
  rfl

/-- The second body comes to the end, and the first one has no findings at all. -/
theorem cancellation_all_or_nothing_drawing :
    (drawing.declarations .standard).ImplementsAcyclic ∧
    Settings.standard.shouldAnalyze drawing.targetFramework = true ∧
    ∃ turns,
      (analyzeBodies (drawing.reader .standard) drawing.bodies turns
        { cancellation := .after 1 }).1 =
          [.error .cancelled, (analyzeBody (drawing.reader .standard) idleBody {}).1] ∧
      let metadata := (analyze .standard (.after 1) drawing { turns }).metadata
      metadata.bodiesAnalyzed = 1 ∧ metadata.bodiesCancelled = 1 ∧ metadata.bodiesFailed = 0 := by
  have acyclic : (drawing.declarations .standard).ImplementsAcyclic := shapes_implementsAcyclic
  have analysed : Settings.standard.shouldAnalyze drawing.targetFramework = true := rfl
  obtain ⟨turns, outcomes⟩ := drawing_outcomes
  refine ⟨acyclic, analysed, turns, outcomes, ?_⟩
  obtain ⟨contractOf, -, alone, -, -, report, -⟩ :=
    cancellation_all_or_nothing .standard (.after 1) drawing { turns } acyclic
  obtain ⟨-, counted, failed, all⟩ := report analysed
  have idle : (analyzeBody (drawing.reader .standard) idleBody {}).1 = .ok _ := alone idleBody
  dsimp only at counted
  rw [outcomes, idle] at counted
  rw [counted, failed] at all
  refine ⟨counted, ?_, failed⟩
  change
    1 + (analyze .standard (.after 1) drawing { turns }).metadata.bodiesCancelled + 0 = 2 at all
  omega

/-- The same for an early framework. -/
def legacyDrawing : Compilation := { drawing with targetFramework := some "net48" }

/-- The bodies of a compilation that the settings leave out are not counted. -/
theorem legacyDrawing_not_counted :
    (legacyDrawing.declarations .standard).ImplementsAcyclic ∧
    let metadata := (analyze .standard .never legacyDrawing).metadata
    metadata.bodiesAnalyzed + metadata.bodiesCancelled + metadata.bodiesFailed ≠
      legacyDrawing.bodies.length := by
  refine ⟨shapes_implementsAcyclic, ?_⟩
  have skipped : Settings.standard.shouldAnalyze legacyDrawing.targetFramework = false := by decide
  rw [analyze, skipped]
  decide

end PlatformGuard
