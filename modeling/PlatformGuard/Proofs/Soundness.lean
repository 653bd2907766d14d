import PlatformGuard.Proofs.EnclosingContract
import PlatformGuard.Proofs.Simulation

/-!
# What happens is found, but for assertions

Where a run of a body, in a world that its contracts allow, reaches a use of something that does not
work in this world, the analysis has a finding about this use (`reached_uses_found`). The contracts
of the owner and of the local functions have to allow the world: code that says it does not run
there is not blamed for what it does there.

Assertions are the exception. An assertion is walked as if its condition held for its other
arguments, though these are evaluated before it can fail; and it is not walked as a call, though it
may call a local function. What a run reaches in either of them is found only where the walks come
to it in some other world in which it does not work (`reached_uses_found_assertedUse`).
-/

namespace PlatformGuard

namespace MethodBody

variable {body : MethodBody} {reader : GuardReader} {contractOf : SymbolId → Contract} {x : World}

/-- The contracts of the owner and of the local functions allow a world. -/
structure AllowedIn (body : MethodBody) (contractOf : SymbolId → Contract) (x : World) : Prop where
  owner : x ∈ (contractOf body.owner).allowedWorlds
  function : ∀ f, body.body.definesFunction f = true → x ∈ (contractOf f).allowedWorlds

/-- A walk of the body or of one of its callables comes to an operation in some worlds. -/
def Walked (body : MethodBody) (reader : GuardReader) (contractOf : SymbolId → Contract)
    (op : Operation) (w : Worlds) : Prop :=
  ∃ u ∈ body.walks reader contractOf, u.code.ComesTo (.ofBody reader body.body) u.entry op w

theorem Walked.exists_event {op : Operation} {w : Worlds} {m : Mark}
    (h : body.Walked reader contractOf op w)
    (hmark : (WalkScope.ofBody reader body.body).markOf? op = some m) :
    ∃ u ∈ body.walks reader contractOf, m.event w ∈ u.events (.ofBody reader body.body) := by
  obtain ⟨u, hu, hcomes⟩ := h
  exact ⟨u, hu, Operation.mem_events_iff.2 ⟨op, hcomes, hmark⟩⟩

theorem exists_walked_of_walk {u : UnitWalk} (hu : u ∈ body.walks reader contractOf)
    (hx : x ∈ u.entry) : ∃ w, x ∈ w ∧ body.Walked reader contractOf u.code w :=
  ⟨u.entry, hx, u, hu, .refl _ _⟩

theorem AllowedIn.enclosing (h : body.AllowedIn contractOf x) {unit : CallableKey}
    (hunit : unit ∈ (CallableIndex.ofBody body.body).units) :
    x ∈ ((body.analysis reader contractOf).enclosing contractOf unit).allowedWorlds := by
  cases unit with
  | function f =>
    have hkey : CallableKey.function f ∈ (CallableIndex.ofBody body.body).defs.map (·.key) :=
      (List.mem_cons.1 hunit).resolve_left CallableKey.noConfusion
    rw [CallableIndex.ofBody_keys, mem_firstDefinitions_keys, mem_keys_definitions_function] at hkey
    exact h.function f hkey
  | body | lambda | anonymous => exact h.owner

/-- What the walks of a body come to is closed, if no key is defined twice. -/
theorem AllowedIn.closedWalks (h : body.AllowedIn contractOf x)
    (distinct : (body.body.definitions.map (·.key)).Nodup) :
    ClosedWalks reader body.body x (body.Walked reader contractOf) := by
  have allowed : ∀ d ∈ (CallableIndex.ofBody body.body).defs,
      x ∈ ((body.analysis reader contractOf).enclosing contractOf d.key).allowedWorlds :=
    fun d hd => h.enclosing (List.mem_cons_of_mem _ (List.mem_map_of_mem hd))
  have invoked : ∀ {op : Operation} {w : Worlds} {key : CallableKey} {code : Operation},
      body.Walked reader contractOf op w → x ∈ w →
      (WalkScope.ofBody reader body.body).calleeOf? op = some key →
      ⟨key, code, false⟩ ∈ body.body.definitions → ∃ v,
      x ∈ v ∧ body.Walked reader contractOf code v := by
    intro op w key code hwalked hx hcallee hdefined
    obtain ⟨u, hu, hevent⟩ := hwalked.exists_event (WalkScope.markOf?_of_calleeOf? hcallee)
    obtain ⟨d, hd, rfl, rfl⟩ := CallableIndex.exists_mem_defs distinct hdefined
    obtain ⟨v, hv, hcode, hentry⟩ := exists_walk_of_invoke hd (allowed d hd) hu hevent hx
    rw [← hcode]
    exact exists_walked_of_walk hv hentry
  refine ⟨fun ⟨u, hu, hcomes⟩ hp => ⟨u, hu, hcomes.part hp⟩, fun hwalked hx hcallee hdefined =>
    invoked hwalked hx hcallee (mem_definitions_function.2 ⟨_, hdefined⟩),
    fun hwalked hx hcallee hassigned =>
    invoked hwalked hx hcallee (mem_definitions_lambda.2 ⟨_, _, hassigned⟩), fun hescapes => ?_⟩
  obtain ⟨d, hd, rfl, hmarked⟩ := CallableIndex.exists_escaping distinct hescapes
  obtain ⟨v, hv, hcode, hentry⟩ := exists_walk_of_escapes hd hmarked (allowed d hd)
  rw [← hcode]
  exact exists_walked_of_walk hv hentry

/-- A finding says that what is used at a site is not supported there. -/
def FoundAt (body : MethodBody) (reader : GuardReader) (found : List Diagnostic) (site : UseSite) :
    Prop :=
  ∃ d ∈ found, (d.ruleKind = .unsupported ∨ d.ruleKind = .onlySupported) ∧
    d.location = .ofSpan body.file site.span ∧
    d.target = reader.declarations.table.displayName site.target

/-- Something of the same name is used in the same place, and checked in a world outside its
contract. -/
def CheckedOutside (body : MethodBody) (reader : GuardReader) (contractOf : SymbolId → Contract)
    (site : UseSite) : Prop :=
  ∃ c ∈ body.checkedUses reader contractOf,
    c.worlds.isSubset (contractOf c.site.target).allowedWorlds = false ∧
    .ofSpan body.file c.site.span = Location.ofSpan body.file site.span ∧
    reader.declarations.table.displayName c.site.target =
      reader.declarations.table.displayName site.target

theorem foundAt_iff {session : Session} {found : List Diagnostic}
    (h : (analyzeBody reader body session).1 = .ok found) (site : UseSite) :
    body.FoundAt reader found site ↔ body.CheckedOutside reader
      ((analyzeBody reader body session).2.cache.contractOf reader.declarations) site := by
  have findings := findings_of_analyzeBody_eq_ok h
  constructor
  · rintro ⟨d, hd, about⟩
    rw [findings] at hd
    obtain ⟨c, hc, hd⟩ := List.mem_flatMap.1 hd
    exact ⟨c, hc, (CheckedUse.exists_finding_iff hc).1 ⟨d, hd, about⟩⟩
  · rintro ⟨c, hc, outside⟩
    obtain ⟨d, hd, about⟩ := (CheckedUse.exists_finding_iff hc).2 outside
    rw [findings]
    exact ⟨d, List.mem_flatMap.2 ⟨c, hc, hd⟩, about⟩

/-- A use that is walked in a world its target does not allow is checked outside its contract. -/
theorem checkedOutside_of_siteWalked {site : UseSite}
    (h : SiteWalked reader body.body x (body.Walked reader contractOf) site)
    (hnot : x ∉ (contractOf site.target).allowedWorlds) :
    body.CheckedOutside reader contractOf site := by
  obtain ⟨op, w, hwalked, hx, hsite⟩ := h
  rw [← siteOf?_ofBody] at hsite
  obtain ⟨u, hu, hevent⟩ := hwalked.exists_event (WalkScope.markOf?_of_siteOf? hsite)
  have hc : ⟨u.unit, site, w⟩ ∈ body.checkedUses reader contractOf :=
    mem_checkedUses.2 ⟨u, hu, rfl, hevent⟩
  refine ⟨_, hc, Bool.eq_false_iff.2 fun subset => hnot ?_, rfl, rfl⟩
  exact Worlds.isSubset_iff.1 subset x hx

/-- What a run reaches on the way is found, where it is not allowed. -/
theorem foundAt_of_runs {session : Session} {found : List Diagnostic}
    (h : (analyzeBody reader body session).1 = .ok found)
    (hcontract :
      (analyzeBody reader body session).2.cache.contractOf reader.declarations = contractOf)
    (distinct : (body.body.definitions.map (·.key)).Nodup) (allowed : body.AllowedIn contractOf x)
    {uses : List ReachedUse} {e : Ending} (run : Runs reader body.body x (.visit body.body) uses e)
    {u : ReachedUse} (hu : u ∈ uses) (hnot : x ∉ (contractOf u.site.target).allowedWorlds)
    (hfollowed : u.aside = false) : body.FoundAt reader found u.site := by
  have reached : (Task.visit body.body).Reached reader body.body x
      (body.Walked reader contractOf) :=
    exists_walked_of_walk bodyWalk_mem_walks allowed.owner
  have walked := run.covered (allowed.closedWalks distinct) reached u hu hfollowed
  rw [foundAt_iff h, hcontract]
  exact checkedOutside_of_siteWalked walked hnot

end MethodBody

/-- What an analysis finds of what happens. It comes to an answer unless it is cancelled; and where
a body that defines no key twice runs in a world that its contracts allow, each use it reaches, of
what does not allow this world, has a finding, unless it is reached on the side of an assertion. So
all have one just if each of the latter is checked in some world outside the contract of its target:
for this is when there is a finding about a use. -/
theorem reached_uses_found (reader : GuardReader) (body : MethodBody) (session : Session) :
    (session.cancellation = .never → ∃ found, (analyzeBody reader body session).1 = .ok found) ∧
    ∀ found, (analyzeBody reader body session).1 = .ok found →
      let contractOf := (analyzeBody reader body session).2.cache.contractOf reader.declarations
      (∀ site, body.FoundAt reader found site ↔ body.CheckedOutside reader contractOf site) ∧
      ((body.body.definitions.map (·.key)).Nodup → ∀ x, body.AllowedIn contractOf x →
        (∀ uses e, Runs reader body.body x (.visit body.body) uses e →
          ∀ u ∈ uses, x ∉ (contractOf u.site.target).allowedWorlds → u.aside = false →
            body.FoundAt reader found u.site) ∧
        ((∀ uses e, Runs reader body.body x (.visit body.body) uses e →
            ∀ u ∈ uses, x ∉ (contractOf u.site.target).allowedWorlds →
              body.FoundAt reader found u.site) ↔
          ∀ uses e, Runs reader body.body x (.visit body.body) uses e →
            ∀ u ∈ uses, x ∉ (contractOf u.site.target).allowedWorlds → u.aside = true →
              body.CheckedOutside reader contractOf u.site)) := by
  refine ⟨exists_analyzeBody_eq_ok, fun found hfound => ?_⟩
  intro contractOf
  have iff : ∀ site, body.FoundAt reader found site ↔ body.CheckedOutside reader contractOf site :=
    MethodBody.foundAt_iff hfound
  refine ⟨iff, fun distinct x allowed => ?_⟩
  have followed : ∀ uses e, Runs reader body.body x (.visit body.body) uses e →
      ∀ u ∈ uses, x ∉ (contractOf u.site.target).allowedWorlds → u.aside = false →
        body.FoundAt reader found u.site :=
    fun uses e run u hu => MethodBody.foundAt_of_runs hfound rfl distinct allowed run hu
  refine ⟨followed, fun all uses e run u hu hnot _ => (iff u.site).1 (all uses e run u hu hnot), ?_⟩
  intro aside uses e run u hu hnot
  cases haside : u.aside with
  | false => exact followed uses e run u hu hnot haside
  | true => exact (iff u.site).2 (aside uses e run u hu hnot haside)

/-- `void f() { _ = Member; } if (!IsOSPlatform("windows")) f();` -/
def guardedCall : MethodBody where
  owner := ⟨3⟩
  body := .block {} [.localFunction {} ⟨5⟩ (.memberReference (.onLine 1 15 6) ⟨4⟩ none),
    .conditional {} (.unary {} .not (platformCheck "windows")) (.invocation {} ⟨5⟩ none []) none]

def linux : World := ⟨.canonical "linux", .zero⟩

theorem linux_not_mem_windowsOnly : linux ∉ windowsOnly.allowedWorlds := by
  have nowhere : windowsOnly.allowedVersions linux.platform = .empty := rfl
  rw [Contract.mem_allowedWorlds_of_isAllowList (by decide), nowhere]
  exact VersionSet.not_mem_empty

section

variable {body : Operation}

/-- On linux `IsOSPlatform("windows")` is called, and answers false. -/
theorem platformCheck_runs (hdefined : body.definesFunction ⟨2⟩ = false) :
    Runs checkReader body linux (.test (platformCheck "windows")) [⟨⟨⟨2⟩, {}⟩, false⟩]
    (.answers false) := by
  have hassertion : (WalkScope.ofBody checkReader body).isAssertion ⟨2⟩ = false :=
    (checkReader_isAssertion body ⟨2⟩).trans (by decide)
  have operands : body.operandsOf checkReader (platformCheck "windows") =
      [.literal {} (.string "windows")] := by
    simp [platformCheck, Operation.operandsOf, Operation.isAssertion, hassertion]
  have answer : body.CanAnswer checkReader linux (platformCheck "windows") false := by
    intro g hg
    rw [checkReader_ofCall?] at hg
    obtain rfl := Option.some.inj hg
    have worlds : (GuardFact.atLeast (.canonical "windows") .zero).worlds =
        .only (.canonical "windows") (.ofRange (.atLeast .zero)) := rfl
    have apart : linux.platform ≠ .canonical "windows" := by decide
    simp [Guard.TrueIn, worlds, apart]
  refine .answers answer (.uses (s := []) ?_ ?_)
  · simp [platformCheck, Operation.useSite?, hassertion, hdefined]
  · rw [operands]
    exact .next (s := []) (.passes rfl .done) .done

end

/-- On linux the check is false, so that the local function is called and the member is used. -/
theorem guardedCall_runs : Runs checkReader guardedCall.body linux (.visit guardedCall.body)
    [⟨⟨⟨2⟩, {}⟩, false⟩, ⟨⟨⟨4⟩, .onLine 1 15 6⟩, false⟩] .falls := by
  have condition : Runs checkReader guardedCall.body linux
    (.test (.unary {} .not (platformCheck "windows")))
      [⟨⟨⟨2⟩, {}⟩, false⟩] (.answers true) :=
    .negates (platformCheck_runs rfl)
  have call : Runs checkReader guardedCall.body linux (.visit (.invocation {} ⟨5⟩ none []))
      [⟨⟨⟨4⟩, .onLine 1 15 6⟩, false⟩] .falls :=
    .callsFunction (s := []) (e := .falls) (by simp [Operation.isAssertion])
      (List.mem_cons_of_mem _ List.mem_cons_self) .done (.uses (s := []) rfl .done)
  exact .passes rfl (.next (s := []) (.passes rfl .done) (.next (.whenTrue condition call) .done))

theorem guardedCall_allowedIn {contractOf : SymbolId → Contract} (howner : contractOf ⟨3⟩ = .empty)
    (hfunction : contractOf ⟨5⟩ = .empty) : guardedCall.AllowedIn contractOf linux := by
  have keys : guardedCall.body.definitions.map (·.key) = [.function ⟨5⟩] := rfl
  refine ⟨howner ▸ Contract.mem_allowedWorlds_of_isEmpty rfl, fun f hf => ?_⟩
  rw [← mem_keys_definitions_function, keys, List.mem_singleton] at hf
  rw [CallableKey.function.inj hf, hfunction]
  exact Contract.mem_allowedWorlds_of_isEmpty rfl

/-- `Debug.Assert(IsOSPlatform("windows"), OnlyOnWindows);` -/
def assertedUse : MethodBody where
  owner := ⟨3⟩
  body := .invocation {} ⟨10⟩ none
    [platformCheck "windows", .memberReference (.onLine 1 41 13) ⟨4⟩ none]

/-- On linux the member is used before the assertion fails. -/
theorem assertedUse_runs : Runs checkReader assertedUse.body linux (.visit assertedUse.body)
    [⟨⟨⟨2⟩, {}⟩, false⟩, ⟨⟨⟨4⟩, .onLine 1 41 13⟩, true⟩] (.jumps .raise) := by
  have hassertion : (WalkScope.ofBody checkReader assertedUse.body).isAssertion ⟨10⟩ = true :=
    (checkReader_isAssertion _ ⟨10⟩).trans (by decide)
  have member : Runs checkReader assertedUse.body linux
      (.sequence [.memberReference (.onLine 1 41 13) ⟨4⟩ none])
      [⟨⟨⟨4⟩, .onLine 1 41 13⟩, false⟩] .falls :=
    have use : Runs checkReader assertedUse.body linux
        (.visit (.memberReference (.onLine 1 41 13) ⟨4⟩ none))
        [⟨⟨⟨4⟩, .onLine 1 41 13⟩, false⟩] .falls :=
      .uses (s := []) rfl .done
    .next use .done
  exact .asserts (s := []) (b := false) hassertion rfl .done (platformCheck_runs rfl) member

/-- A walk of the check uses `IsOSPlatform`, and nothing else. -/
theorem mark_of_platformCheck {scope : WalkScope} (hcheck : scope.isAssertion ⟨2⟩ = false)
    (hplain : scope.callables.isLocalFunction ⟨2⟩ = false) {name : String} {w v : Worlds}
    {node : Operation} (comes : (platformCheck name).ComesTo scope w node v) {m : Mark}
    (hmark : scope.markOf? node = some m) : m = .site ⟨⟨2⟩, {}⟩ := by
  have call :
      (scope.isAssertion ⟨2⟩ && !List.isEmpty [Operation.literal {} (.string name)]) = false := by
    rw [hcheck, Bool.false_and]
  rcases Operation.comesTo_iff.1 comes with ⟨rfl, -⟩ | ⟨p, hp, comes⟩
  · rw [platformCheck, scope.markOf?_call call, hplain] at hmark
    exact (Option.some.inj hmark).symm
  · have argument : (platformCheck name).partsIn scope w = [(.literal {} (.string name), w)] := by
      show Operation.argumentsIn scope ⟨2⟩ [.literal {} (.string name)] w = _
      rw [Operation.argumentsIn_of_call call, Operation.inSequence]
      cases (((Operation.literal {} (.string name)).walk scope).visit w).after <;> rfl
    obtain rfl := List.mem_singleton.1 (argument ▸ hp)
    rcases Operation.comesTo_iff.1 comes with ⟨rfl, -⟩ | ⟨p, hp, -⟩
    · cases hmark
    · cases hp

/-- Where the check may be true is windows. -/
theorem whenTrue_platformCheck_within (body : Operation) (w : Worlds) :
    (((platformCheck "windows").walk (.ofBody checkReader body)).split true w).whenTrue.Within
      windowsOnly.allowedWorlds := by
  intro x hx
  have verdict : checkReader.verdict body (platformCheck "windows") =
      .ofGuard? (some (.fact (.atLeast (.canonical "windows") .zero))) :=
    congrArg Verdict.ofGuard? (checkReader_ofCall? "windows")
  have worlds : (GuardFact.atLeast (.canonical "windows") .zero).worlds =
      .only (.canonical "windows") (.ofRange (.atLeast .zero)) := rfl
  have versions : windowsOnly.allowedVersions (.canonical "windows") = .ofRange (.atLeast .zero) :=
    rfl
  have canBeTrue := ((Operation.walk_splitsBy (platformCheck "windows") true w x).1.1 hx).2
  rw [verdict, Verdict.ofGuard?_some, Guard.worlds, worlds] at canBeTrue
  obtain ⟨hplatform, hversion⟩ := Worlds.mem_only.1 canBeTrue
  rwa [Contract.mem_allowedWorlds_of_isAllowList (by decide), hplatform, versions]

/-- The walk comes to the member on windows only. -/
theorem assertedUse_not_checkedOutside {contractOf : SymbolId → Contract}
    (hmember : contractOf ⟨4⟩ = windowsOnly) :
    ¬ assertedUse.CheckedOutside checkReader contractOf ⟨⟨4⟩, .onLine 1 41 13⟩ := by
  let scope := WalkScope.ofBody checkReader assertedUse.body
  have hassertion : scope.isAssertion ⟨10⟩ = true :=
    (checkReader_isAssertion _ ⟨10⟩).trans (by decide)
  have hcheck : scope.isAssertion ⟨2⟩ = false := (checkReader_isAssertion _ ⟨2⟩).trans (by decide)
  have parts : ∀ w, assertedUse.body.partsIn scope w = [(platformCheck "windows", w),
      (.memberReference (.onLine 1 41 13) ⟨4⟩ none,
        (((platformCheck "windows").walk scope).split true w).whenTrue)] := fun w =>
    Operation.argumentsIn_of_assertion hassertion
  rintro ⟨c, hc, outside, hplace, -⟩
  obtain ⟨u, hu, -, hevent⟩ := MethodBody.mem_checkedUses.1 hc
  rw [MethodBody.walks_of_definitions_eq_nil rfl, List.mem_singleton] at hu
  subst hu
  obtain ⟨node, comes, hmark⟩ := Operation.mem_events_iff (m := .site c.site).1 hevent
  rcases Operation.comesTo_iff.1 comes with ⟨rfl, -⟩ | ⟨p, hp, comes⟩
  · have unmarked : scope.markOf? assertedUse.body = none :=
      scope.markOf?_assertion (by rw [hassertion]; rfl)
    exact absurd (unmarked.symm.trans hmark) (by simp)
  rcases List.mem_pair.1 (parts _ ▸ hp : p ∈ [_, _]) with rfl | rfl
  · -- the check is used in another place
    have hsite := Mark.site.inj (mark_of_platformCheck hcheck rfl comes hmark)
    rw [hsite] at hplace
    exact absurd hplace (by decide)
  · rcases Operation.comesTo_iff.1 comes with ⟨rfl, hw⟩ | ⟨p, hp, -⟩
    · have hsite : (⟨⟨4⟩, .onLine 1 41 13⟩ : UseSite) = c.site :=
        Mark.site.inj (Option.some.inj hmark)
      rw [← hsite, hmember, hw,
        Worlds.isSubset_iff.2 (whenTrue_platformCheck_within _ _)] at outside
      cases outside
    · cases hp

/-- On linux the member of the one body is used where it does not work, and this is found. So it is
in the other body, but there it is used in an assertion, and nothing is found. -/
theorem reached_uses_found_assertedUse : ∃ found found',
    (analyzeBody checkReader guardedCall {}).1 = .ok found ∧
    guardedCall.FoundAt checkReader found ⟨⟨4⟩, .onLine 1 15 6⟩ ∧
    (analyzeBody checkReader assertedUse {}).1 = .ok found' ∧
    let contractOf := (analyzeBody checkReader assertedUse {}).2.cache.contractOf
      checkReader.declarations
    assertedUse.AllowedIn contractOf linux ∧
    ∃ uses e, Runs checkReader assertedUse.body linux (.visit assertedUse.body) uses e ∧
      ∃ u ∈ uses, linux ∉ (contractOf u.site.target).allowedWorlds ∧
        ¬ assertedUse.FoundAt checkReader found' u.site := by
  obtain ⟨completes, finds⟩ := reached_uses_found checkReader guardedCall {}
  obtain ⟨completes', finds'⟩ := reached_uses_found checkReader assertedUse {}
  obtain ⟨found, hfound⟩ := completes rfl
  obtain ⟨found', hfound'⟩ := completes' rfl
  obtain ⟨howner, hmember, hfunction, -⟩ := checkReader_contractOf guardedCall
  obtain ⟨howner', hmember', -⟩ := checkReader_contractOf assertedUse
  have keys : guardedCall.body.definitions.map (·.key) = [.function ⟨5⟩] := rfl
  refine ⟨found, found', hfound, ?_, hfound', ⟨?_, nofun⟩, _, _, assertedUse_runs,
    ⟨⟨⟨4⟩, .onLine 1 41 13⟩, true⟩, by simp, ?_, ?_⟩
  · obtain ⟨followed, -⟩ := (finds found hfound).2 (by simp [keys]) linux
      (guardedCall_allowedIn howner hfunction)
    refine followed _ _ guardedCall_runs ⟨⟨⟨4⟩, .onLine 1 15 6⟩, false⟩ (by simp) ?_ rfl
    rw [hmember]
    exact linux_not_mem_windowsOnly
  · exact howner' ▸ Contract.mem_allowedWorlds_of_isEmpty rfl
  · rw [hmember']
    exact linux_not_mem_windowsOnly
  · rw [(finds' found' hfound').1]
    exact assertedUse_not_checkedOutside hmember'

end PlatformGuard
