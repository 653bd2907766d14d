import Mathlib.Data.Prod.Lex
import Mathlib.Data.String.Basic
import PlatformGuard.Proofs.CompilationReport
import PlatformGuard.Proofs.ContractsBuilt

/-!
# The report of several compilations

A report has the findings about attributes and those of all bodies, each body as when it is analysed
on its own, less those of rules that are off; they are in order. The order in which compilations,
and the bodies of each, are analysed matters neither for the findings, nor for what is counted
(`report_order_independent`). For the number of contracts built this is so although each compilation
has one memory for all its bodies: what a body needs is built whoever asks first.
-/

namespace PlatformGuard

/-! ## The order of findings -/

theorem then_ne_gt_iff (o o' : Ordering) : o.then o' ≠ .gt ↔ o = .lt ∨ o = .eq ∧ o' ≠ .gt := by
  cases o <;> simp [Ordering.then]

namespace Diagnostic

/-- What findings are ordered by: file, line, column, offset, length, code and text,
the first that differs. -/
def sortKey (d : Diagnostic) : String ×ₗ Nat ×ₗ Nat ×ₗ Nat ×ₗ Nat ×ₗ String ×ₗ String :=
  let l := d.location
  toLex (l.file, toLex (l.line.toNat, toLex (l.column.toNat, toLex (l.offset.toNat,
    toLex (l.length.toNat, toLex (d.code, d.text))))))

theorem cmp_ne_gt_iff (a b : Diagnostic) : a.cmp b ≠ .gt ↔ a.sortKey ≤ b.sortKey := by
  simp only [cmp, Location.cmp, Ordering.then_assoc, then_ne_gt_iff, sortKey,
    Prod.Lex.toLex_le_toLex, compare_lt_iff_lt, compare_eq_iff_eq, compare_le_iff_le]

theorem sort_sorted (ds : List Diagnostic) : (Diagnostic.sort ds).Pairwise fun a b =>
    a.sortKey ≤ b.sortKey := by
  have le_iff : ∀ a b : Diagnostic, (a.cmp b != .gt) = true ↔ a.sortKey ≤ b.sortKey := fun a b =>
    bne_iff_ne.trans (cmp_ne_gt_iff a b)
  refine (List.pairwise_mergeSort (fun a b c hab hbc => ?_) (fun a b => ?_) ds).imp fun h =>
    (le_iff _ _).1 h
  · exact (le_iff a c).2 (((le_iff a b).1 hab).trans ((le_iff b c).1 hbc))
  · rw [Bool.or_eq_true, le_iff, le_iff]
    exact le_total _ _

end Diagnostic

/-! ## One compilation -/

def MethodBody.findingsAlone (body : MethodBody) (reader : GuardReader) : List Diagnostic :=
  findingsOf [(analyzeBody reader body {}).1]

namespace Compilation

/-- The findings about the attributes of a compilation, and about its bodies, each on its own. -/
def findings (c : Compilation) (settings : Settings) : List Diagnostic :=
  (c.declarations settings).attributeDiagnostics ++
    c.bodies.flatMap fun body => body.findingsAlone (c.reader settings)

/-- The symbols whose contracts go into what the bodies of a compilation ask for. -/
def needs (c : Compilation) (settings : Settings) : Set SymbolId :=
  { id | ∃ body ∈ c.bodies, id ∈ body.needs (c.reader settings) }

/-- What is asked of a compilation: it is not left out, and no members implement each other in a
circle. -/
structure Analysed (c : Compilation) (settings : Settings) : Prop where
  shouldAnalyze : settings.shouldAnalyze c.targetFramework = true
  acyclic : (c.declarations settings).ImplementsAcyclic

end Compilation

theorem analyzeBody_eq_findingsAlone (reader : GuardReader) (body : MethodBody) :
    (analyzeBody reader body {}).1 = .ok (body.findingsAlone reader) := by
  obtain ⟨found, hfound⟩ : ∃ found, (analyzeBody reader body {}).1 = .ok found :=
    exists_analyzeBody_eq_ok rfl
  rw [MethodBody.findingsAlone, hfound]
  exact congrArg Except.ok (List.append_nil found).symm

namespace Compilation.Analysed

variable {settings : Settings} {c : Compilation}

/-- Whoever has a turn when, all bodies come to the end. -/
theorem outcomes (h : c.Analysed settings) (turns : List Nat) :
    (analyzeBodies (c.reader settings) c.bodies turns {}).1 =
      c.bodies.map fun body => .ok (body.findingsAlone (c.reader settings)) := by
  have acyclic : (c.reader settings).declarations.ImplementsAcyclic := h.acyclic
  obtain ⟨contractOf, recursion⟩ := acyclic.exists_contracts
  obtain ⟨each, -⟩ := analyzeBodies_outcomes acyclic recursion c.bodies turns .never
  rw [← List.forall₂_eq_eq_eq, List.forall₂_map_right_iff]
  refine each.imp ?_
  rintro outcome body (complete | ⟨-, stopped⟩)
  · rw [complete, ← analyzeBody_alone acyclic recursion, analyzeBody_eq_findingsAlone]
  · exact absurd rfl stopped

theorem size (h : c.Analysed settings) (turns : List Nat) :
    (analyzeBodies (c.reader settings) c.bodies turns {}).2.cache.size =
      (c.needs settings).ncard := by
  have acyclic : (c.reader settings).declarations.ImplementsAcyclic := h.acyclic
  obtain ⟨contractOf, recursion⟩ := acyclic.exists_contracts
  obtain ⟨-, built⟩ := analyzeBodies_outcomes acyclic recursion c.bodies turns .never
  rw [ContractCache.size_eq_ncard, built rfl, needs]

theorem diagnostics (h : c.Analysed settings) (course : Course) :
    (analyze settings .never c course).diagnostics.Perm
      (settings.reported (c.findings settings)) := by
  have found := analyze_diagnostics .never course h.shouldAnalyze
  rw [h.outcomes, findingsOf, List.flatMap_map] at found
  exact found

theorem metadata (h : c.Analysed settings) (course : Course) :
    (analyze settings .never c course).metadata =
      { compilations := [c.name]
        bodiesAnalyzed := c.bodies.length
        contractsBuilt := (c.needs settings).ncard
        durationMs := course.elapsedMs } := by
  rw [analyze_metadata .never course h.shouldAnalyze]
  dsimp only
  rw [h.outcomes, h.size, List.countP_map, List.countP_map, List.countP_map]
  congr 1
  · exact List.countP_eq_length.2 fun _ _ => rfl
  · exact List.countP_eq_zero.2 fun _ _ => Bool.false_ne_true
  · exact List.countP_eq_zero.2 fun _ _ => Bool.false_ne_true

end Compilation.Analysed

/-! ## Reports put together -/

theorem Settings.reported_append (settings : Settings) (ds ds' : List Diagnostic) :
    settings.reported (ds ++ ds') = settings.reported ds ++ settings.reported ds' := by
  rw [reported, reported, reported, List.filter_append, List.map_append]

theorem Settings.reported_perm (settings : Settings) {ds ds' : List Diagnostic} (h : ds.Perm ds') :
    (settings.reported ds).Perm (settings.reported ds') :=
  (h.filter _).map _

theorem foldl_merge_diagnostics (settings : Settings) (runs : List (Compilation × Course))
    (r : Report) :
    (runs.foldl (fun report run => report.merge (analyze settings .never run.1 run.2))
        r).diagnostics =
      r.diagnostics ++ runs.flatMap fun run =>
      (analyze settings .never run.1 run.2).diagnostics := by
  induction runs generalizing r with
  | nil => exact (List.append_nil _).symm
  | cons run rest ih =>
    rw [List.foldl_cons, ih, List.flatMap_cons, ← List.append_assoc]
    rfl

section

variable {settings : Settings} {runs : List (Compilation × Course)}

theorem foldl_merge_metadata (h : ∀ run ∈ runs, run.1.Analysed settings) (r : Report) :
    (runs.foldl (fun report run => report.merge (analyze settings .never run.1 run.2)) r).metadata =
      { r.metadata with
        compilations := r.metadata.compilations ++ runs.map (·.1.name)
        bodiesAnalyzed := r.metadata.bodiesAnalyzed + (runs.map (·.1.bodies.length)).sum
        contractsBuilt :=
          r.metadata.contractsBuilt + (runs.map fun run => (run.1.needs settings).ncard).sum
        durationMs := r.metadata.durationMs + (runs.map (·.2.elapsedMs)).sum } := by
  induction runs generalizing r with
  | nil => simp
  | cons run rest ih =>
    obtain ⟨hrun, hrest⟩ := List.forall_mem_cons.1 h
    rw [List.foldl_cons, ih hrest, Report.merge, hrun.metadata]
    simp only [List.map_cons, List.sum_cons, List.append_assoc, List.singleton_append,
      List.append_nil, Nat.add_assoc, Nat.add_zero]

theorem analyzeAll_metadata (h : ∀ run ∈ runs, run.1.Analysed settings) :
    (analyzeAll settings runs).metadata =
      { compilations := runs.map (·.1.name)
        bodiesAnalyzed := (runs.map (·.1.bodies.length)).sum
        contractsBuilt := (runs.map fun run => (run.1.needs settings).ncard).sum
        durationMs := (runs.map (·.2.elapsedMs)).sum } := by
  refine (foldl_merge_metadata h {}).trans ?_
  simp only [List.nil_append, Nat.zero_add]

theorem analyzeAll_diagnostics (h : ∀ run ∈ runs, run.1.Analysed settings) :
    (analyzeAll settings runs).diagnostics.Perm
      (settings.reported (runs.flatMap fun run => run.1.findings settings)) := by
  refine (Diagnostic.sort_perm _).trans ?_
  rw [foldl_merge_diagnostics]
  show (runs.flatMap fun run => (analyze settings .never run.1 run.2).diagnostics).Perm _
  induction runs with
  | nil => exact .refl _
  | cons run rest ih =>
    obtain ⟨hrun, hrest⟩ := List.forall_mem_cons.1 h
    rw [List.flatMap_cons, List.flatMap_cons, Settings.reported_append]
    exact (hrun.diagnostics run.2).append (ih hrest)

end

/-! ## Another order -/

/-- Two compilations that differ in the order of their bodies only. -/
structure Compilation.SameBodies (c c' : Compilation) : Prop where
  name : c.name = c'.name
  targetFramework : c.targetFramework = c'.targetFramework
  symbols : c.symbols = c'.symbols
  bodies : c.bodies.Perm c'.bodies

/-- The same compilations in another order, each with its bodies in another order. -/
def Rearranged (cs cs' : List Compilation) : Prop :=
  ∃ between, cs.Perm between ∧ List.Forall₂ Compilation.SameBodies between cs'

namespace Compilation.SameBodies

variable {c c' : Compilation} {settings : Settings}

theorem declarations (h : c.SameBodies c') :
    c.declarations settings = c'.declarations settings := by
  rw [Compilation.declarations, Compilation.declarations, h.symbols]

theorem reader (h : c.SameBodies c') : c.reader settings = c'.reader settings := by
  rw [Compilation.reader, Compilation.reader, h.declarations]

theorem analysed (h : c.SameBodies c') (hc : c.Analysed settings) : c'.Analysed settings :=
  ⟨h.targetFramework ▸ hc.shouldAnalyze, h.declarations ▸ hc.acyclic⟩

theorem findings (h : c.SameBodies c') : (c.findings settings).Perm (c'.findings settings) := by
  rw [Compilation.findings, Compilation.findings, h.declarations, h.reader]
  exact (h.bodies.flatMap_right _).append_left _

theorem needs (h : c.SameBodies c') : c.needs settings = c'.needs settings := by
  ext id
  simp only [Compilation.needs, h.reader, h.bodies.mem_iff]

end Compilation.SameBodies

namespace Rearranged

variable {cs cs' : List Compilation} {settings : Settings}

theorem analysed (h : Rearranged cs cs') (hcs : ∀ c ∈ cs, c.Analysed settings) :
    ∀ c ∈ cs', c.Analysed settings := by
  obtain ⟨between, perm, same⟩ := h
  have hbetween : ∀ c ∈ between, c.Analysed settings := fun c hc => hcs c (perm.mem_iff.2 hc)
  clear perm
  induction same with
  | nil => exact hbetween
  | cons hc _ ih =>
    obtain ⟨first, rest⟩ := List.forall_mem_cons.1 hbetween
    exact List.forall_mem_cons.2 ⟨hc.analysed first, ih rest⟩

/-- What is the same for the same bodies adds up to the same. -/
theorem sum_eq (h : Rearranged cs cs') {f : Compilation → Nat}
    (same : ∀ c c' : Compilation, c.SameBodies c' → f c = f c') :
    (cs.map f).sum = (cs'.map f).sum := by
  obtain ⟨between, perm, all⟩ := h
  rw [(perm.map f).sum_eq]
  clear perm
  induction all with
  | nil => rfl
  | cons hc _ ih => rw [List.map_cons, List.map_cons, List.sum_cons, List.sum_cons, same _ _ hc, ih]

theorem findings (h : Rearranged cs cs') :
    (cs.flatMap fun c => c.findings settings).Perm (cs'.flatMap fun c => c.findings settings) := by
  obtain ⟨between, perm, all⟩ := h
  refine (perm.flatMap_right _).trans ?_
  clear perm
  induction all with
  | nil => exact .refl _
  | cons hc _ ih =>
    rw [List.flatMap_cons, List.flatMap_cons]
    exact hc.findings.append ih

end Rearranged

/-- The report of compilations, none of which is left out or has members that implement each other
in a circle, has the findings about attributes and those of all bodies, each as on its own: less
those of rules that are off, with the severities that are set, and in order. All bodies are counted
as analysed, and each contract that a compilation needs as built once. In another order of the
compilations, and of the bodies in each, and whatever the order of steps in time, the findings are
the same and so is all that is counted. -/
theorem report_order_independent (settings : Settings) (runs : List (Compilation × Course))
    (h : ∀ run ∈ runs, run.1.Analysed settings) :
    let report := analyzeAll settings runs
    (∀ run ∈ runs, ∀ body ∈ run.1.bodies, (analyzeBody (run.1.reader settings) body {}).1 =
      .ok (body.findingsAlone (run.1.reader settings))) ∧
    report.diagnostics.Pairwise (fun a b => a.sortKey ≤ b.sortKey) ∧
    report.diagnostics.Perm
      (((runs.flatMap fun run => run.1.findings settings).filter fun d =>
        (settings.rules.find? d.code).all (·.enabled)).map fun d =>
          { d with
            severity := ((settings.rules.find? d.code).bind (·.severity)).getD d.severity }) ∧
    report.metadata =
      { compilations := runs.map (·.1.name)
        bodiesAnalyzed := (runs.map (·.1.bodies.length)).sum
        bodiesCancelled := 0
        bodiesFailed := 0
        contractsBuilt := (runs.map fun run => (run.1.needs settings).ncard).sum
        durationMs := (runs.map (·.2.elapsedMs)).sum } ∧
    ∀ runs' : List (Compilation × Course), Rearranged (runs.map (·.1)) (runs'.map (·.1)) →
      let report' := analyzeAll settings runs'
      report'.diagnostics.Perm report.diagnostics ∧
      report'.metadata =
        { report.metadata with
          compilations := runs'.map (·.1.name)
          durationMs := (runs'.map (·.2.elapsedMs)).sum } ∧
      ∀ severity, report'.count severity = report.count severity := by
  intro report
  refine ⟨fun _ _ body _ => analyzeBody_eq_findingsAlone _ body, Diagnostic.sort_sorted _,
    analyzeAll_diagnostics h, analyzeAll_metadata h, fun runs' rearranged => ?_⟩
  have h' : ∀ run ∈ runs', run.1.Analysed settings := by
    refine List.forall_mem_map.1 (rearranged.analysed (List.forall_mem_map.2 h))
  have findings : ((runs.map (·.1)).flatMap fun c => c.findings settings).Perm
      ((runs'.map (·.1)).flatMap fun c => c.findings settings) := rearranged.findings
  rw [List.flatMap_map, List.flatMap_map] at findings
  have same : (analyzeAll settings runs').diagnostics.Perm report.diagnostics :=
    (analyzeAll_diagnostics h').trans ((settings.reported_perm findings.symm).trans
      (analyzeAll_diagnostics h).symm)
  have bodies := rearranged.sum_eq fun c c' hc => hc.bodies.length_eq
  have contracts := rearranged.sum_eq fun c c' hc =>
    congrArg Set.ncard (hc.needs : c.needs settings = c'.needs settings)
  simp only [List.map_map, Function.comp_def] at bodies contracts
  refine ⟨same, ?_, fun severity => same.countP_eq _⟩
  rw [analyzeAll_metadata h', analyzeAll_metadata h, bodies, contracts]

/-- `{ M(); }` has the findings about the one use of `M`. -/
theorem findings_call (reader : GuardReader) (contractOf : SymbolId → Contract)
    (owner target : SymbolId) :
    ({ owner, body := .block {} [.invocation {} target none []] } : MethodBody).findings reader
        contractOf =
      Use.check
        { target := reader.declarations.table.displayName target
          contract := contractOf target
          worlds := (contractOf owner).allowedWorlds
          enclosing := contractOf owner
          location := .ofSpan "" {} } := by
  let body : Operation := .block {} [.invocation {} target none []]
  let scope := WalkScope.ofBody reader body
  have plain : scope.callables.isLocalFunction target = false :=
    CallableIndex.isLocalFunction_ofBody.trans rfl
  have walk : body.walk scope =
      .sequence [.call (scope.callWorlds? target []) (.use target {}) none []] := by
    rw [Operation.walk, Operation.walkAll, Operation.walkAll, Operation.walk_call (by simp), plain]
    rfl
  rw [MethodBody.findings, MethodBody.checkedUses, MethodBody.walks_of_definitions_eq_nil rfl,
    List.flatMap_singleton, UnitWalk.checkedUses, UnitWalk.events]
  show List.flatMap _ (List.filterMap _ ((body.walk scope).visit _).events) = _
  rw [walk]
  show List.flatMap _ [_] = _
  rw [List.flatMap_singleton]
  rfl

theorem drawing_declarations (settings : Settings) (h : settings.customPlatforms = []) :
    drawing.declarations settings = shapes := by
  rw [Compilation.declarations, Settings.vocabulary, h]
  rfl

/-- Nothing is wrong with the attributes. -/
theorem shapes_attributeDiagnostics : shapes.attributeDiagnostics = [] := by
  have none : ∀ s ∈ shapeSymbols, (shapes.declared s.id).diagnostics = [] := by
    simp only [Declarations.declared, Declared.ofId, shapes_get?, shapeSymbols,
      List.forall_mem_cons]
    exact ⟨rfl, rfl, rfl, rfl, rfl, rfl, fun _ h => absurd h List.not_mem_nil⟩
  have symbols : shapes.table.toList = shapeSymbols := SymbolTable.toList_ofSymbols _
  rw [Declarations.attributeDiagnostics, symbols,
    List.flatMap_eq_nil_iff.2 fun s hs => none s (List.mem_filter.1 hs).1]
  exact List.mergeSort_nil

/-- Circles only, and only their drawing. -/
def circles : Compilation := { drawing with name := "Circles", bodies := [drawBody] }

/-- What works on some platforms only is an error, and what is obsolete is not reported. -/
def strict : Settings where
  rules := .ofList [("CA1416", { severity := some .error }), ("CA1422", { enabled := false })]

/-- A drawing is reported as obsolete, and as one that works on windows only. -/
theorem drawBody_findingsAlone {settings : Settings} (plain : settings.customPlatforms = []) :
    (drawBody.findingsAlone (drawing.reader settings)).map (fun d => (d.code, d.severity)) =
      [("CA1422", .info), ("CA1416", .warning)] := by
  let reader := drawing.reader settings
  have declarations : reader.declarations = shapes := drawing_declarations settings plain
  have acyclic : reader.declarations.ImplementsAcyclic := declarations ▸ shapes_implementsAcyclic
  obtain ⟨contractOf, recursion⟩ := acyclic.exists_contracts
  obtain ⟨draw, -, -, circle⟩ := shapes_contracts (declarations ▸ recursion)
  have outcome := analyzeBody_eq_findingsAlone reader drawBody
  rw [analyzeBody_alone acyclic recursion] at outcome
  rw [← Except.ok.inj outcome]
  refine (congrArg (List.map _) (findings_call reader contractOf ⟨4⟩ ⟨3⟩)).trans ?_
  rw [draw, circle]
  rfl

theorem idleBody_findingsAlone (reader : GuardReader) : idleBody.findingsAlone reader = [] := by
  have found := findings_of_analyzeBody_eq_ok (analyzeBody_eq_findingsAlone reader idleBody)
  have sites : ∀ contractOf, ((idleBody.checkedUses reader contractOf).map (·.site)).Perm [] :=
    fun _ => MethodBody.checkedUses_perm
  rw [found, List.map_eq_nil_iff.1 (sites _).eq_nil]
  rfl

theorem strict_reported {found : List Diagnostic}
    (h : found.map (fun d => (d.code, d.severity)) = [("CA1422", .info), ("CA1416", .warning)]) :
    (strict.reported found).map (fun d => (d.code, d.severity)) = [("CA1416", .error)] := by
  obtain ⟨obsolete, onlySupported, rfl⟩ :=
    List.length_eq_two.1 (by simpa using congrArg List.length h)
  simp only [List.map_cons, List.map_nil, List.cons.injEq, Prod.mk.injEq] at h
  obtain ⟨⟨code, -⟩, ⟨code', -⟩, -⟩ := h
  have off : strict.rules.find? "CA1422" = some { enabled := false } := by decide
  have set : strict.rules.find? "CA1416" = some { severity := some .error } := by decide
  simp [Settings.reported, code, code', off, set]

/-- Two compilations, and the same with the second one first and the two bodies of the other one
exchanged, in another course. Drawing has a finding of each rule, one of which is off; the severity
of the other is set. -/
theorem report_order_independent_drawing :
    let runs : List (Compilation × Course) := [(drawing, {}), (circles, {})]
    let runs' : List (Compilation × Course) :=
      [(circles, { turns := [0, 0], elapsedMs := 5 }),
        ({ drawing with bodies := [idleBody, drawBody] }, { turns := [1, 0, 1] })]
    let ruleAndSeverity := fun d : Diagnostic => (d.code, d.severity)
    (∀ run ∈ runs, run.1.Analysed strict) ∧
    Rearranged (runs.map (·.1)) (runs'.map (·.1)) ∧
    (drawing.findings strict).map ruleAndSeverity = [("CA1422", .info), ("CA1416", .warning)] ∧
    (circles.findings strict).map ruleAndSeverity = [("CA1422", .info), ("CA1416", .warning)] ∧
    (analyzeAll strict runs).diagnostics.map ruleAndSeverity =
      [("CA1416", .error), ("CA1416", .error)] ∧
    (analyzeAll strict runs).metadata.bodiesAnalyzed = 3 ∧
    (analyzeAll strict runs').metadata =
      { (analyzeAll strict runs).metadata with
        compilations := ["Circles", "Drawing"]
        durationMs := 5 } ∧
    (analyzeAll strict runs').diagnostics.Perm (analyzeAll strict runs).diagnostics := by
  intro runs runs' ruleAndSeverity
  have acyclic : (drawing.declarations strict).ImplementsAcyclic := shapes_implementsAcyclic
  have analysed : ∀ run ∈ runs, run.1.Analysed strict :=
    List.forall_mem_cons.2 ⟨⟨rfl, acyclic⟩, List.forall_mem_singleton.2 ⟨rfl, acyclic⟩⟩
  have rearranged : Rearranged (runs.map (·.1)) (runs'.map (·.1)) :=
    ⟨_, .swap _ _ _, .cons ⟨rfl, rfl, rfl, .refl _⟩ (.cons ⟨rfl, rfl, rfl, .swap _ _ _⟩ .nil)⟩
  obtain ⟨-, -, found, metadata, other⟩ := report_order_independent strict runs analysed
  obtain ⟨diagnostics, counters, -⟩ := other _ rearranged
  have attributes : (drawing.declarations strict).attributeDiagnostics = [] :=
    (drawing_declarations strict rfl).symm ▸ shapes_attributeDiagnostics
  have plain : strict.customPlatforms = [] := rfl
  have draw := drawBody_findingsAlone plain
  have inDrawing : drawing.findings strict = drawBody.findingsAlone (drawing.reader strict) := by
    rw [Compilation.findings, attributes]
    simp [drawing, idleBody_findingsAlone]
  have inCircles : circles.findings strict = drawBody.findingsAlone (drawing.reader strict) := by
    have attributes' : (circles.declarations strict).attributeDiagnostics = [] := attributes
    rw [Compilation.findings, attributes']
    exact List.append_nil _
  refine ⟨analysed, rearranged, inDrawing ▸ draw, inCircles ▸ draw, ?_,
    congrArg ReportMetadata.bodiesAnalyzed metadata, counters, diagnostics⟩
  have reported := strict_reported draw
  have all : ((analyzeAll strict runs).diagnostics.map ruleAndSeverity).Perm
      ((strict.reported (drawing.findings strict ++ (circles.findings strict ++ []))).map
        ruleAndSeverity) := found.map _
  rw [Settings.reported_append, List.append_nil, List.map_append, inDrawing, inCircles,
    reported] at all
  exact List.perm_replicate.1
    (show List.Perm _ (List.replicate 2 ("CA1416", Severity.error)) from all)

end PlatformGuard
