import PlatformGuard.Proofs.EnclosingContract
import PlatformGuard.Proofs.Soundness

/-!
# Calls of local functions are not checked

A call of a local function is no use: the analysis notes the worlds in which the function is called,
and walks the function from those of them that the function's own contract allows. What a call does
outside that contract is therefore found nowhere, neither at the call nor in the function.

* `findings_of_checked_uses_only`: where the findings about unsupported symbols come from,
  and where they do not.
-/

namespace PlatformGuard

namespace CheckedUse

variable {body : MethodBody} {reader : GuardReader} {contractOf : SymbolId → Contract}
    {c : CheckedUse}

/-- A checked use is an operation of the body, and does not invoke a local function of the body. -/
theorem exists_operation (hc : c ∈ body.checkedUses reader contractOf) :
    ∃ op ∈ body.body.subterms,
      op.useSite? body.body.definesFunction (WalkScope.ofBody reader body.body).isAssertion =
        some c.site ∧
      ∀ f, op.invoked? = some (.function f) → body.body.definesFunction f = false := by
  have hsite : c.site ∈ body.useSites reader :=
    (body.checkedUses_append_skippedSites_perm reader contractOf).subset
      (List.mem_append_left _ (List.mem_map_of_mem hc))
  obtain ⟨op, hop, hsite⟩ := List.mem_filterMap.1 hsite
  refine ⟨op, hop, hsite, fun f hinvoked => ?_⟩
  cases op with
  | invocation span target receiver arguments =>
    obtain rfl : target = f := CallableKey.function.inj (Option.some.inj hinvoked)
    rw [Operation.useSite?] at hsite
    split_ifs at hsite with hlocal
    rw [Bool.or_eq_true, not_or] at hlocal
    exact Bool.eq_false_iff.2 hlocal.1
  | delegateInvocation span target arguments =>
    cases target <;> cases hinvoked
  | _ => cases hinvoked

end CheckedUse

/-- The findings that a symbol is not supported are those of the checked uses that are reached in a
world which their target does not allow. No call of a local function is among the checked uses, and
those in the function itself are reached only in worlds which its contract allows: so a call outside
this contract has no finding, unless another use at the same place gives one. -/
theorem findings_of_checked_uses_only (reader : GuardReader) (body : MethodBody)
    (session : Session) :
    (session.cancellation = .never → ∃ found, (analyzeBody reader body session).1 = .ok found) ∧
    ∀ found, (analyzeBody reader body session).1 = .ok found →
      let contractOf := (analyzeBody reader body session).2.cache.contractOf reader.declarations
      let checked := body.checkedUses reader contractOf
      (∀ location name,
        (∃ f ∈ found, (f.ruleKind = .unsupported ∨ f.ruleKind = .onlySupported) ∧
            f.location = location ∧ f.target = name) ↔
          ∃ c ∈ checked, c.worlds.isSubset (contractOf c.site.target).allowedWorlds = false ∧
            .ofSpan body.file c.site.span = location ∧
            reader.declarations.table.displayName c.site.target = name) ∧
      (∀ c ∈ checked, ∃ op ∈ body.body.subterms,
        op.useSite? body.body.definesFunction
          (WalkScope.ofBody reader body.body).isAssertion = some c.site ∧
        ∀ f, op.invoked? = some (.function f) → body.body.definesFunction f = false) ∧
      ∀ c ∈ checked, ∀ f, c.unit.key = .function f →
        c.worlds.isSubset (contractOf f).allowedWorlds = true := by
  refine ⟨exists_analyzeBody_eq_ok, ?_⟩
  intro found hfound contractOf checked
  have findings : found = checked.flatMap (CheckedUse.findings reader.declarations contractOf) :=
    findings_of_analyzeBody_eq_ok hfound
  refine ⟨fun location name => ?_, fun c hc => CheckedUse.exists_operation hc,
    fun c hc f hkey => ?_⟩
  · rw [findings]
    constructor
    · rintro ⟨f, hf, about⟩
      obtain ⟨c, hc, hf⟩ := List.mem_flatMap.1 hf
      exact ⟨c, hc, (CheckedUse.exists_finding_iff hc).1 ⟨f, hf, about⟩⟩
    · rintro ⟨c, hc, outside⟩
      obtain ⟨f, hf, about⟩ := (CheckedUse.exists_finding_iff hc).2 outside
      exact ⟨f, List.mem_flatMap.2 ⟨c, hc, hf⟩, about⟩
  · have within := CheckedUse.within_enclosing hc
    rw [(CheckedUse.ofUnit hc).2, hkey] at within
    exact Worlds.isSubset_iff.2 within

/-- The local function is called on all platforms, though it works on windows only; and nothing is
found. -/
theorem findings_of_checked_uses_only_localCall :
    let body := localCall ⟨6⟩ ⟨4⟩
    ∃ found, (analyzeBody checkReader body {}).1 = .ok found ∧
      let contractOf :=
        (analyzeBody checkReader body {}).2.cache.contractOf checkReader.declarations
      (∃ u ∈ body.walks checkReader contractOf, ∃ w,
        .invoke (.function ⟨6⟩) w ∈ u.events (.ofBody checkReader body.body) ∧
          w.isSubset (contractOf ⟨6⟩).allowedWorlds = false) ∧
      ¬ ∃ f ∈ found, f.ruleKind = .unsupported ∨ f.ruleKind = .onlySupported := by
  intro body
  obtain ⟨completes, checks⟩ := findings_of_checked_uses_only checkReader body {}
  obtain ⟨found, hfound⟩ := completes rfl
  obtain ⟨iff, -, inside⟩ := checks found hfound
  obtain ⟨howner, hmember, -, hfunction, -⟩ := checkReader_contractOf body
  refine ⟨found, hfound, ?_⟩
  generalize (analyzeBody checkReader body {}).2.cache.contractOf checkReader.declarations =
    contractOf at iff inside howner hmember hfunction ⊢
  refine ⟨⟨_, MethodBody.bodyWalk_mem_walks, (contractOf ⟨3⟩).allowedWorlds, ?_, ?_⟩, ?_⟩
  · have call : (WalkScope.ofBody checkReader body.body).markOf?
        (.invocation (.onLine 1 26 3) ⟨6⟩ none []) = some (.call (.function ⟨6⟩)) :=
      WalkScope.markOf?_call (by simp)
    exact Operation.mem_events_iff (m := .call (.function ⟨6⟩)).2
      ⟨_, (Operation.ComesTo.refl _ _).part (List.mem_cons_of_mem _ List.mem_cons_self), call⟩
  · rw [howner, hfunction]
    decide
  · rintro ⟨f, hf, hrule⟩
    obtain ⟨c, hc, outside, -⟩ := (iff f.location f.target).1 ⟨f, hf, hrule, rfl, rfl⟩
    -- the one use is that of the member, in the function, where the function allows it
    obtain ⟨c', hchecked, hsite, hkey⟩ := localCall_checkedUses ⟨6⟩ ⟨4⟩ contractOf
    obtain rfl : c = c' := List.mem_singleton.1 (hchecked ▸ hc)
    have within := inside c hc ⟨6⟩ hkey
    rw [hsite, hmember] at outside
    rw [hfunction, outside] at within
    cases within

end PlatformGuard
