import PlatformGuard.Proofs.BodyOutcome
import PlatformGuard.Proofs.CheckSound

/-!
# The contract of the code around a use

A unit is walked from worlds that its own contract allows, and a walk only narrows: every use is
checked in such worlds (`CheckedUse.within_enclosing`). So a use that is reached on a denied version
stands in code that does not deny this version to its callers, and to ask for that again changes
nothing (`uses_within_enclosing_contract`).
-/

namespace PlatformGuard

/-! ## The denial that the code around declares -/

namespace Use

variable {use : Use}

/-- The check of a use that does not ask whether the code around it denies the same versions: a
denied version is found as in code that declares nothing. -/
def checkRegardless (use : Use) : List Diagnostic :=
  if use.contract.isEmpty || use.worlds.isUnreachable then []
  else
    let entries := use.contract.platforms.entries
    (entries.filterMap fun e => use.obsoleteOn? e.1 e.2) ++
      (if use.contract.isAllowList then use.notAllowed?.toList
      else entries.filterMap fun e => { use with enclosing := .empty }.deniedOn? e.1 e.2)

theorem deniedOn?_eq_regardless (within : use.worlds.Within use.enclosing.allowedWorlds)
    (p : PlatformName) (a : Availability) :
    use.deniedOn? p a = { use with enclosing := .empty }.deniedOn? p a := by
  unfold deniedOn?
  cases a.deniedRange? with
  | none => rfl
  | some denied =>
    have redundant : (use.isDeniedOn p denied && !use.declaresDenial p denied) =
        (use.isDeniedOn p denied && !false) := by
      cases hon : use.isDeniedOn p denied with
      | false => rfl
      | true =>
        -- a denied version that is reached is one on which the code around runs
        obtain ⟨v, hreached, hv⟩ := VersionSet.intersects_iff.1 hon
        have hown : use.declaresDenial p denied = false :=
          declaresDenial_eq_false (x := ⟨p, v⟩) (within ⟨p, v⟩ hreached)
          (VersionSet.mem_ofRange.1 hv)
        rw [hown]
    show (if _ then _ else none) = _
    rw [redundant]
    rfl

theorem check_eq_regardless (within : use.worlds.Within use.enclosing.allowedWorlds) :
    use.check = use.checkRegardless := by
  unfold check checkRegardless
  simp only [deniedOn?_eq_regardless within]

end Use

/-! ## The worlds of the uses -/

namespace BodyAnalysis

variable {a : BodyAnalysis} {contractOf : SymbolId → Contract}

/-- A callable is walked from worlds that its contract allows. -/
theorem callableWalk_entry_within (walks : List UnitWalk) (callable : CallableDef) (cyclic : Bool) :
    (a.callableWalk contractOf walks callable cyclic).entry.Within
      (a.enclosing contractOf callable.key).allowedWorlds := by
  unfold callableWalk
  cases a.invokedIn? walks callable.key with
  | none => exact .refl _
  | some invoked =>
    show Worlds.Within (if _ then _ else _) _
    split
    · exact .refl _
    · exact fun x hx => (Worlds.mem_inter.1 hx).2

end BodyAnalysis

namespace MethodBody

variable {body : MethodBody} {reader : GuardReader} {contractOf : SymbolId → Contract}

theorem walks_entry_within :
    ∀ u ∈ body.walks reader contractOf, u.entry.Within u.unit.enclosing.allowedWorlds :=
  BodyAnalysis.forall_mem_walksFrom BodyAnalysis.callableWalk_entry_within _
    (List.forall_mem_singleton.2 (.refl _))

end MethodBody

namespace CheckedUse

variable {body : MethodBody} {reader : GuardReader} {contractOf : SymbolId → Contract}
    {c : CheckedUse}

theorem ofUnit (hc : c ∈ body.checkedUses reader contractOf) : c.unit.file = body.file ∧
    c.unit.enclosing = (body.analysis reader contractOf).enclosing contractOf c.unit.key := by
  obtain ⟨u, hu, hunit, -⟩ := MethodBody.mem_checkedUses.1 hc
  rw [hunit]
  exact MethodBody.walks_ofUnit u hu

/-- A use is checked in worlds that the contract of the code around it allows. -/
theorem within_enclosing (hc : c ∈ body.checkedUses reader contractOf) :
    c.worlds.Within c.unit.enclosing.allowedWorlds := by
  obtain ⟨u, hu, hunit, hevent⟩ := MethodBody.mem_checkedUses.1 hc
  have narrowed : c.worlds.Within u.entry := (u.code.walk_narrows _).visit u.entry _ hevent
  rw [hunit]
  exact narrowed.trans (MethodBody.walks_entry_within u hu)

/-- A use has a finding that its target is not supported where it is reached in a world that the
target does not allow. -/
theorem exists_finding_iff (hc : c ∈ body.checkedUses reader contractOf) {location : Location}
    {name : String} :
    (∃ f ∈ c.findings reader.declarations contractOf,
      (f.ruleKind = .unsupported ∨ f.ruleKind = .onlySupported) ∧
        f.location = location ∧ f.target = name) ↔
      c.worlds.isSubset (contractOf c.site.target).allowedWorlds = false ∧
        .ofSpan body.file c.site.span = location ∧
        reader.declarations.table.displayName c.site.target = name := by
  obtain ⟨hfile, -⟩ := ofUnit hc
  rw [Bool.eq_false_iff, Ne, Worlds.isSubset_iff, ← hfile]
  push Not
  constructor
  · rintro ⟨f, hf, hrule, rfl, rfl⟩
    obtain ⟨outside, hlocation, htarget⟩ := Use.exists_not_allowed hf hrule
    exact ⟨outside, hlocation.symm, htarget.symm⟩
  · rintro ⟨⟨x, hx, hnot⟩, rfl, rfl⟩
    exact Use.exists_finding hx (within_enclosing hc x hx) hnot

end CheckedUse

/-- Every use is checked in worlds that the contract of the code around it allows: that of the
local function it stands in, or that of the owner. So is every use that an analysis checks before
it is cancelled. What is found is then the same without the question whether the code around denies
the same versions itself. -/
theorem uses_within_enclosing_contract (reader : GuardReader) (body : MethodBody)
    (session : Session) :
    let ran := body.runUpTo reader session (CallableIndex.ofBody body.body).walkOrder
    let contractOf := (analyzeBody reader body session).2.cache.contractOf reader.declarations
    let checked := session.cancellation.checked (body.log reader contractOf)
    (analyzeBody reader body session).1 = ran.2.map (fun _ => ran.1.diagnostics) ∧
    (session.cancellation = .never → ran.2 = .ok ()) ∧
    (ran.2 = .ok () → checked = body.checkedUses reader contractOf) ∧
    (∀ c ∈ checked, c.worlds.isSubset c.unit.enclosing.allowedWorlds = true ∧
      c.unit.enclosing = match c.unit.key with
        | .function f => contractOf f
        | .body | .lambda _ | .anonymous _ => contractOf body.owner) ∧
    ran.1.diagnostics = checked.flatMap (CheckedUse.findings reader.declarations contractOf) ∧
    ran.1.diagnostics = checked.flatMap fun c =>
      (c.unit.use reader.declarations contractOf c.site.target c.site.span
        c.worlds).checkRegardless := by
  intro ran contractOf checked
  have passes : Passes reader.declarations contractOf (body.log reader contractOf)
      { session } ran :=
    MethodBody.run_passes (ContractCache.agrees_contractOf _ _)
  have found : ran.1.diagnostics =
      checked.flatMap (CheckedUse.findings reader.declarations contractOf) :=
    passes.found.trans (List.nil_append _)
  have inBody : ∀ c ∈ checked, c ∈ body.checkedUses reader contractOf := by
    intro c hc
    rw [← MethodBody.log_uses]
    exact session.cancellation.checked_subset _ hc
  refine ⟨analyzeBody_fst, fun never => MethodBody.reached_of_never never _,
    fun reached => (passes.complete reached).trans MethodBody.log_uses,
    fun c hc => ⟨?_, ?_⟩, found, found.trans ?_⟩
  · exact Worlds.isSubset_iff.2 (CheckedUse.within_enclosing (inBody c hc))
  · rw [(CheckedUse.ofUnit (inBody c hc)).2]
    cases c.unit.key <;> rfl
  · exact List.flatMap_congr fun c hc =>
      Use.check_eq_regardless (CheckedUse.within_enclosing (inBody c hc))

/-! ## Contracts of a program -/

def windowsOnly : Contract := .ofEntries [⟨.supported, .canonical "windows", .zero, none, none⟩]

def windowsDenied : Contract := .ofEntries [⟨.unsupported, .canonical "windows", .zero, none, none⟩]

theorem checkReader_implementsAcyclic : checkReader.declarations.ImplementsAcyclic := by
  have listed : ∀ s ∈ checkSymbols, s.implements = [] := by decide
  refine Declarations.implementsAcyclic_of_nil fun id s hs => listed s ?_
  exact List.mem_reverse.1 (List.mem_of_find?_eq_some ((checkReader_get? id).symm.trans hs))

/-- Whatever body is analyzed first, the contracts are those of the attributes. -/
theorem checkReader_contractOf (body : MethodBody) :
    let contractOf := (analyzeBody checkReader body {}).2.cache.contractOf checkReader.declarations
    contractOf ⟨3⟩ = .empty ∧ contractOf ⟨4⟩ = windowsOnly ∧ contractOf ⟨5⟩ = .empty ∧
      contractOf ⟨6⟩ = windowsOnly ∧ contractOf ⟨7⟩ = windowsDenied ∧
      contractOf ⟨8⟩ = windowsDenied := by
  have acyclic := checkReader_implementsAcyclic
  obtain ⟨contractOf, recursion⟩ := acyclic.exists_contracts
  rw [analyzeBody_contractOf acyclic recursion body ContractCache.faithful_empty]
  refine ⟨?_, ?_, ?_, ?_, ?_, ?_⟩ <;>
  · rw [recursion.eq_layer (checkReader_get? _) rfl rfl rfl, Declarations.layer,
      Declarations.declared, Declared.ofId, checkReader_get?]
    rfl

theorem checkReader_isAssertion (body : Operation) (target : SymbolId) :
    (WalkScope.ofBody checkReader body).isAssertion target =
      (checkSymbols.reverse.find? (·.id = target)).any fun s =>
        s.containing = some ⟨9⟩ && s.name == CheckApi.assert := by
  have debug : (WalkScope.ofBody checkReader body).debugType = some ⟨9⟩ := by
    show (SymbolTable.ofSymbols checkSymbols).findType? CheckApi.debugType = some ⟨9⟩
    rw [SymbolTable.findType?_ofSymbols]
    rfl
  have symbol : (WalkScope.ofBody checkReader body).reader.declarations.table.get? target =
      checkSymbols.reverse.find? (·.id = target) := checkReader_get? target
  rw [WalkScope.isAssertion, debug, symbol]
  cases checkSymbols.reverse.find? (·.id = target) <;> rfl

/-- `void f() { _ = Member; } f();`, with a local function and a member of choice. -/
def localCall (f member : SymbolId) : MethodBody where
  owner := ⟨3⟩
  body := .block {} [.localFunction {} f (.memberReference (.onLine 1 15 6) member none),
    .invocation (.onLine 1 26 3) f none []]

/-- The one use checked is that of the member, in the local function. -/
theorem localCall_checkedUses (f member : SymbolId) (contractOf : SymbolId → Contract) :
    ∃ c, (localCall f member).checkedUses checkReader contractOf = [c] ∧
      c.site = ⟨member, .onLine 1 15 6⟩ ∧ c.unit.key = .function f := by
  have units : CallableIndex.unitsOf (localCall f member).body =
    [(.body, (localCall f member).body),
      (.function f, .memberReference (.onLine 1 15 6) member none)] := rfl
  have defined : (localCall f member).body.definesFunction f = true :=
    List.any_eq_true.2 ⟨_, List.mem_cons_of_mem _ List.mem_cons_self, decide_eq_true rfl⟩
  have outside : (localCall f member).body.ownSites
      (.ofBody checkReader (localCall f member).body) = [] := by
    have hlocal : (WalkScope.ofBody checkReader (localCall f member).body).siteOf?
        (.invocation (.onLine 1 26 3) f none []) = none := by
      rw [MethodBody.siteOf?_ofBody, Operation.useSite?, defined]
      rfl
    rw [Operation.ownSites, List.filterMap_eq_nil_iff]
    show ∀ op ∈ [Operation.localFunction {} f _, .invocation (.onLine 1 26 3) f none [],
      .block {} _], _
    simp only [List.forall_mem_cons]
    exact ⟨rfl, hlocal, rfl, fun _ h => absurd h List.not_mem_nil⟩
  have sites : (((localCall f member).checkedUses checkReader contractOf).map (·.site)).Perm
      [⟨member, .onLine 1 15 6⟩] := by
    refine MethodBody.checkedUses_perm.trans ?_
    rw [outside]
    exact .refl _
  obtain ⟨c, hc, hsite⟩ := List.map_eq_singleton_iff.1 (List.perm_singleton.1 sites)
  obtain ⟨u, hu, hunit, hevent⟩ := MethodBody.mem_checkedUses.1 (hc ▸ List.mem_singleton_self c)
  have hkey := MethodBody.mem_unitsOf hu
  rw [units, List.mem_cons, List.mem_singleton] at hkey
  refine ⟨c, hc, hsite, ?_⟩
  rcases hkey with hbody | hfunction
  · have none : (u.checkedUses (.ofBody checkReader (localCall f member).body)).map
        (·.site) = [] := by
      rw [u.checkedUses_sites, (Prod.mk.inj hbody).2, outside]
    have inside := UnitWalk.mem_checkedUses.2 ⟨hunit, hevent⟩
    rw [List.map_eq_nil_iff.1 none] at inside
    cases inside
  · rw [hunit]
    exact (Prod.mk.inj hfunction).1

/-- The local function denies what the member denies, and the use of the member in it is not reached
there. -/
theorem uses_within_enclosing_contract_localCall :
    let d := checkReader.declarations
    let body := localCall ⟨8⟩ ⟨7⟩
    let contractOf := (analyzeBody checkReader body {}).2.cache.contractOf d
    ∃ c, Cancellation.never.checked (body.log checkReader contractOf) = [c] ∧
      c.unit.enclosing = windowsDenied ∧ c.worlds.isSubset windowsDenied.allowedWorlds = true ∧
      (c.unit.use d contractOf ⟨7⟩ (.onLine 1 15 6) c.worlds).declaresDenial (.canonical "windows")
        (.atLeast .zero) = true ∧
      (analyzeBody checkReader body {}).1 =
        .ok (c.unit.use d contractOf ⟨7⟩ (.onLine 1 15 6) c.worlds).checkRegardless := by
  intro d body contractOf
  obtain ⟨outcome, completes, all, uses, -, findings⟩ :=
    uses_within_enclosing_contract checkReader body {}
  have reached := completes rfl
  rw [reached] at outcome
  obtain ⟨c, hchecked, hsite, hkey⟩ := localCall_checkedUses ⟨8⟩ ⟨7⟩ contractOf
  have one := (all reached).trans hchecked
  obtain ⟨subset, henclosing⟩ := uses c (one ▸ List.mem_singleton_self c)
  obtain ⟨-, -, -, -, -, hfunction⟩ := checkReader_contractOf body
  rw [hkey] at henclosing
  have around : c.unit.enclosing = windowsDenied := henclosing.trans hfunction
  rw [around] at subset
  refine ⟨c, one, around, subset, ?_, ?_⟩
  · have denied : (windowsDenied.get? (.canonical "windows")).bind (·.deniedRange?) =
      some (.atLeast .zero) := rfl
    have use : (c.unit.use d contractOf ⟨7⟩ (.onLine 1 15 6) c.worlds).enclosing = windowsDenied :=
      around
    rw [Use.declaresDenial, use, denied]
    decide
  · rw [outcome, findings, one, List.flatMap_singleton, hsite]
    rfl

end PlatformGuard
