import PlatformGuard.Proofs.WalkLog
import PlatformGuard.Proofs.WalkMarks

/-!
# Which uses are checked

Each operation that uses a symbol is a use site, unless it invokes or refers to a local function of
the body or is an assertion. A walk meets the use sites of its unit once each, whatever the worlds
it starts from (`Operation.walk_uses`), and each unit is walked once. But a key may be defined
twice, as when a local is assigned a second lambda; only the first definition is a unit, and the use
sites of the others are never met.

* `uses_checked_once`: what is checked, and what is skipped, is every use site once.
-/

namespace PlatformGuard

theorem CallableIndex.isLocalFunction_ofBody {body : Operation} {symbol : SymbolId} :
    (ofBody body).isLocalFunction symbol = body.definesFunction symbol := by
  rw [Bool.eq_iff_iff, ← mem_keys_definitions_function, ← mem_firstDefinitions_keys, ← ofBody_keys]
  exact get?_isSome

theorem CallableIndex.isLambda_ofBody {body : Operation} {x : LocalId} :
    (ofBody body).isLambda x = body.holdsLambda x := by
  rw [Bool.eq_iff_iff, ← mem_keys_definitions_lambda, ← mem_firstDefinitions_keys, ← ofBody_keys]
  exact get?_isSome

/-! ## The uses that an analysis checks -/

/-- A use that is checked: where it stands, and in which worlds it is reached. -/
structure CheckedUse where
  unit : WalkUnit
  site : UseSite
  worlds : Worlds

def CheckedUse.findings (d : Declarations) (contractOf : SymbolId → Contract) (c : CheckedUse) :
    List Diagnostic :=
  (c.unit.use d contractOf c.site.target c.site.span c.worlds).check

def UnitWalk.checkedUses (scope : WalkScope) (u : UnitWalk) : List CheckedUse :=
  (u.events scope).filterMap fun
    | .use target span w => some ⟨u.unit, ⟨target, span⟩, w⟩
    | _ => none

theorem UnitWalk.mem_checkedUses {scope : WalkScope} {u : UnitWalk} {c : CheckedUse} :
    c ∈ u.checkedUses scope ↔ c.unit = u.unit ∧
    .use c.site.target c.site.span c.worlds ∈ u.events scope := by
  rw [checkedUses, List.mem_filterMap]
  constructor
  · rintro ⟨e, he, hc⟩
    cases e with
    | use target span w =>
      obtain rfl := Option.some.inj hc
      exact ⟨rfl, he⟩
    | poll | invoke => cases hc
  · rintro ⟨hunit, he⟩
    exact ⟨_, he, by rw [← hunit]⟩

theorem UnitWalk.findings_eq (d : Declarations) (contractOf : SymbolId → Contract)
    (scope : WalkScope) (u : UnitWalk) :
    u.findings d contractOf scope = (u.checkedUses scope).flatMap
      (CheckedUse.findings d contractOf) := by
  rw [findings, checkedUses, List.flatMap_def, List.flatMap_def]
  induction u.events scope with
  | nil => rfl
  | cons e rest ih =>
    cases e with
    | use target span w => exact congrArg (_ ++ ·) ih
    | poll | invoke => exact ih

theorem UnitWalk.checkedUses_sites (scope : WalkScope) (u : UnitWalk) :
    (u.checkedUses scope).map (·.site) = u.code.ownSites scope := by
  rw [← u.code.walk_uses scope u.entry, Walk.sitesOf, checkedUses, List.map_filterMap, ← events]
  refine List.filterMap_congr fun e _ => ?_
  cases e <;> rfl

namespace MethodBody

/-- The uses checked in a body, given the contract of each symbol. -/
def checkedUses (body : MethodBody) (reader : GuardReader) (contractOf : SymbolId → Contract) :
    List CheckedUse :=
  (body.walks reader contractOf).flatMap (UnitWalk.checkedUses (.ofBody reader body.body))

/-- The use sites of a body. -/
def useSites (body : MethodBody) (reader : GuardReader) : List UseSite :=
  body.body.subterms.filterMap
    (Operation.useSite? body.body.definesFunction (WalkScope.ofBody reader body.body).isAssertion)

/-- The use sites in definitions of keys that were defined before, without those in
callables defined there. -/
def skippedSites (body : MethodBody) (reader : GuardReader) : List UseSite :=
  (repeatedDefinitions [] body.body.definitions).flatMap fun d =>
  d.body.ownSites (.ofBody reader body.body)

variable {body : MethodBody} {reader : GuardReader} {contractOf : SymbolId → Contract}

theorem siteOf?_ofBody : (WalkScope.ofBody reader body.body).siteOf? =
    Operation.useSite? body.body.definesFunction (WalkScope.ofBody reader body.body).isAssertion :=
  congrArg (Operation.useSite? · _) (funext fun _ => CallableIndex.isLocalFunction_ofBody)

/-- Each unit is walked once, in whatever order that lists each callable once. -/
theorem walksUpTo_perm {order : List (CallableKey × Bool)} (first : body.body.InvokersFirst order) :
    ((body.walksUpTo reader contractOf order).map fun u => (u.unit.key, u.code)).Perm
      (CallableIndex.unitsOf body.body) := by
  have keys : (order.map (·.1)).Perm ((CallableIndex.ofBody body.body).defs.map (·.key)) := by
    refine (List.perm_ext_iff_of_nodup first.nodup
      (CallableIndex.ofBody_keys_nodup _)).2 fun key => ?_
    rw [first.mem_iff, CallableIndex.ofBody_keys, mem_firstDefinitions_keys]
  have code : ((CallableIndex.ofBody body.body).defs.map (·.key)).filterMap (fun key =>
      ((CallableIndex.ofBody body.body).get? key).map fun d => (d.key, d.body)) =
        CallableIndex.codeOf body.body := by
    rw [List.filterMap_map, ← CallableIndex.ofBody_code, ← List.filterMap_eq_map]
    refine List.filterMap_congr fun d hd => ?_
    rw [Function.comp_apply, CallableIndex.get?_eq_some.2 ⟨hd, rfl⟩]
    rfl
  rw [walksUpTo, BodyAnalysis.walksFrom_code, CallableIndex.unitsOf, ← code]
  exact (keys.filterMap _).cons _

theorem walks_perm : ((body.walks reader contractOf).map fun u => (u.unit.key, u.code)).Perm
    (CallableIndex.unitsOf body.body) :=
  walksUpTo_perm (CallableIndex.walkOrder_invokersFirst body.body)

/-- What is checked: the use sites of the body itself, and those of each first definition. -/
theorem checkedUses_perm : ((body.checkedUses reader contractOf).map (·.site)).Perm
    (body.body.ownSites (.ofBody reader body.body) ++
      (firstDefinitions body.body.definitions).flatMap fun d =>
      d.body.ownSites (.ofBody reader body.body)) := by
  have sites : (body.checkedUses reader contractOf).map (·.site) =
      ((body.walks reader contractOf).map fun u => (u.unit.key, u.code)).flatMap
        fun u => u.2.ownSites (.ofBody reader body.body) := by
    rw [checkedUses, List.map_flatMap, List.flatMap_map]
    exact List.flatMap_congr fun u _ => u.checkedUses_sites _
  rw [sites]
  refine (walks_perm.flatMap_right _).trans ?_
  rw [CallableIndex.unitsOf, CallableIndex.codeOf, List.flatMap_cons, List.flatMap_map]

/-- All use sites: those of the body itself, and those of each definition. -/
theorem useSites_perm : (body.useSites reader).Perm
    (body.body.ownSites (.ofBody reader body.body) ++
      body.body.definitions.flatMap fun d => d.body.ownSites (.ofBody reader body.body)) := by
  have bodies : body.body.definedBodies = body.body.definitions.map (·.body) :=
    (defineFrom_map_body 0 _).symm
  rw [useSites, ← siteOf?_ofBody]
  refine (body.body.subterms_perm.filterMap _).trans ?_
  rw [List.filterMap_append, List.filterMap_flatMap, bodies, List.flatMap_map]
  exact .refl _

/-- What is checked and what is skipped is every use site. -/
theorem checkedUses_append_skippedSites_perm (body : MethodBody) (reader : GuardReader)
    (contractOf : SymbolId → Contract) :
    ((body.checkedUses reader contractOf).map (·.site) ++ body.skippedSites reader).Perm
      (body.useSites reader) := by
  refine (checkedUses_perm.append_right _).trans (List.Perm.trans ?_ useSites_perm.symm)
  rw [skippedSites, List.append_assoc, ← List.flatMap_append]
  exact ((firstDefinitions_perm _).flatMap_right _).append_left _

theorem mem_checkedUses {c : CheckedUse} : c ∈ body.checkedUses reader contractOf ↔
    ∃ u ∈ body.walks reader contractOf, c.unit = u.unit ∧
      .use c.site.target c.site.span c.worlds ∈ u.events (.ofBody reader body.body) := by
  rw [checkedUses, List.mem_flatMap]
  exact exists_congr fun u => and_congr_right fun _ => UnitWalk.mem_checkedUses

end MethodBody

theorem findings_of_analyzeBody_eq_ok {reader : GuardReader} {body : MethodBody} {session : Session}
    {found : List Diagnostic} (h : (analyzeBody reader body session).1 = .ok found) :
    let contractOf := (analyzeBody reader body session).2.cache.contractOf reader.declarations
    found = (body.checkedUses reader contractOf).flatMap
      (CheckedUse.findings reader.declarations contractOf) := by
  intro contractOf
  refine (analyzeBody_eq_ok h).2.trans ?_
  rw [MethodBody.checkedUses, List.flatMap_assoc]
  exact List.flatMap_congr fun u _ => u.findings_eq _ _ _

/-- Every use site of a body is checked once, but for those in definitions of keys that were defined
before: a second lambda assigned to one local, or a second local function of one symbol. These are
not checked at all. The findings are those of the uses checked. -/
theorem uses_checked_once (reader : GuardReader) (body : MethodBody) (session : Session) :
    (session.cancellation = .never → ∃ found, (analyzeBody reader body session).1 = .ok found) ∧
    ∀ found, (analyzeBody reader body session).1 = .ok found →
      let contractOf := (analyzeBody reader body session).2.cache.contractOf reader.declarations
      let checked := body.checkedUses reader contractOf
      found = checked.flatMap (CheckedUse.findings reader.declarations contractOf) ∧
      (checked.map (·.site) ++ body.skippedSites reader).Perm (body.useSites reader) ∧
      ((checked.map (·.site)).Perm (body.useSites reader) ↔ body.skippedSites reader = []) ∧
      ((body.body.definitions.map (·.key)).Nodup → body.skippedSites reader = []) := by
  refine ⟨exists_analyzeBody_eq_ok, ?_⟩
  intro found hfound contractOf checked
  have all : (checked.map (·.site) ++ body.skippedSites reader).Perm (body.useSites reader) :=
    body.checkedUses_append_skippedSites_perm reader contractOf
  refine ⟨findings_of_analyzeBody_eq_ok hfound, all, ?_, fun distinct => ?_⟩
  · constructor
    · intro perm
      have lengths := (all.trans perm.symm).length_eq
      rw [List.length_append] at lengths
      exact List.length_eq_zero_iff.1 (by omega)
    · intro none
      rw [none, List.append_nil] at all
      exact all
  · rw [MethodBody.skippedSites, repeatedDefinitions_of_nodup distinct, List.flatMap_nil]

/-- `f = () => { }; f = () => Member; f();` -/
def reassignedLambda : MethodBody where
  owner := ⟨3⟩
  body := .block {} [.localAssignment {} ⟨1⟩ (some (.lambda {} (.block {} []))),
    .localAssignment {} ⟨1⟩ (some (.lambda {} (.memberReference {} ⟨4⟩ none))),
    .delegateInvocation {} (.localReference {} ⟨1⟩) []]

/-- The use in the second lambda is not checked. -/
theorem uses_checked_once_reassignedLambda :
    reassignedLambda.skippedSites checkReader = [⟨⟨4⟩, {}⟩] ∧
    ∃ found, (analyzeBody checkReader reassignedLambda {}).1 = .ok found ∧
      let contractOf :=
        (analyzeBody checkReader reassignedLambda {}).2.cache.contractOf checkReader.declarations
      found = (reassignedLambda.checkedUses checkReader contractOf).flatMap
        (CheckedUse.findings checkReader.declarations contractOf) ∧
      ¬ ((reassignedLambda.checkedUses checkReader contractOf).map (·.site)).Perm
        (reassignedLambda.useSites checkReader) := by
  have skipped : reassignedLambda.skippedSites checkReader = [⟨⟨4⟩, {}⟩] := rfl
  obtain ⟨reached, checked⟩ := uses_checked_once checkReader reassignedLambda {}
  obtain ⟨found, hfound⟩ := reached rfl
  obtain ⟨findings, -, iff, -⟩ := checked found hfound
  refine ⟨skipped, found, hfound, findings, fun perm => ?_⟩
  have none := iff.1 perm
  rw [skipped] at none
  exact absurd none (by simp)

end PlatformGuard
