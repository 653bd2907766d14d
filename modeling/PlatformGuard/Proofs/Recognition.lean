import PlatformGuard.Proofs.Monotone
import PlatformGuard.Proofs.Soundness

/-!
# Findings without recognition

A compilation without the check types has no platform check recognised. It is then analysed with
more worlds everywhere, so that no finding about an unsupported or only-supported symbol is lost
(`findings_kept_without_recognition`). This is not so of obsoletions, which are found only where
every reachable version is obsolete.

The two analyses ask for the contracts of the same symbols in the same order, so that they see the
same contracts (`analyzeBody_cache_eq`); the checked uses are then compared one by one.
-/

namespace PlatformGuard

/-! ## Findings in more worlds -/

/-- Two findings by one rule, at one place, about one symbol and the same platforms. What they say
of the worlds may differ. -/
structure Diagnostic.SameIssue (f f' : Diagnostic) : Prop where
  ruleKind : f.ruleKind = f'.ruleKind
  platform : f.platform = f'.platform
  target : f.target = f'.target
  location : f.location = f'.location

theorem Diagnostic.SameIssue.withMessage {f f' : Diagnostic} (h : f.SameIssue f')
    (m : Option String) :
    { f with message := m }.SameIssue { f' with message := m } :=
  ⟨h.ruleKind, h.platform, h.target, h.location⟩

namespace Use

variable {use : Use} {w : Worlds} {p : PlatformName} {a : Availability} {f : Diagnostic}

theorem sameIssue_diagnostic (use : Use) (w : Worlds) (rule : RuleKind)
    (platform description text text' : String) :
    (use.diagnostic rule platform description text).SameIssue
      ({ use with worlds := w }.diagnostic rule platform description text') :=
  ⟨rfl, rfl, rfl, rfl⟩

/-- A denied version that is reached is reached in more worlds too. -/
theorem exists_deniedOn? (hw : use.worlds.Within w) (h : use.deniedOn? p a = some f) :
    ∃ f', { use with worlds := w }.deniedOn? p a = some f' ∧ f.SameIssue f' := by
  unfold deniedOn? at h ⊢
  cases hdenied : a.deniedRange? with
  | none =>
    rw [hdenied] at h
    cases h
  | some denied =>
    rw [hdenied] at h
    dsimp only at h ⊢
    split_ifs at h with hfound
    obtain ⟨hon, hown⟩ := Bool.and_eq_true_iff.1 hfound
    obtain ⟨v, hv, hr⟩ := VersionSet.intersects_iff.1 hon
    have hon' : { use with worlds := w }.isDeniedOn p denied = true :=
      VersionSet.intersects_iff.2 ⟨v, hw ⟨p, v⟩ hv, hr⟩
    have hfound' : ({ use with worlds := w }.isDeniedOn p denied &&
        !{ use with worlds := w }.declaresDenial p denied) = true :=
      Bool.and_eq_true_iff.2 ⟨hon', hown⟩
    rw [if_pos hfound']
    obtain rfl := Option.some.inj h
    exact ⟨_, rfl, (sameIssue_diagnostic use w _ _ _ _ _).withMessage _⟩

theorem exists_notAllowed? (hw : use.worlds.Within w) (h : use.notAllowed? = some f) :
    ∃ f', { use with worlds := w }.notAllowed? = some f' ∧ f.SameIssue f' := by
  unfold notAllowed? at h ⊢
  split_ifs at h with hsubset
  have hsubset' : ¬ w.isSubset use.contract.allowedWorlds = true :=
    fun hall => hsubset (Worlds.isSubset_iff.2 fun x hx => Worlds.isSubset_iff.1 hall x (hw x hx))
  rw [if_neg hsubset']
  obtain rfl := Option.some.inj h
  exact ⟨_, rfl, sameIssue_diagnostic use w _ _ _ _ _⟩

/-- A use that is reached in more worlds keeps its findings, obsoletions apart. -/
theorem exists_mem_check (hw : use.worlds.Within w) (hf : f ∈ use.check)
    (hrule : f.ruleKind = .unsupported ∨ f.ruleKind = .onlySupported) :
    ∃ f' ∈ { use with worlds := w }.check, f.SameIssue f' := by
  unfold check at hf ⊢
  by_cases hsilent : (use.contract.isEmpty || use.worlds.isUnreachable) = true
  · rw [if_pos hsilent] at hf
    cases hf
  · have hsilent' : ¬ (use.contract.isEmpty || w.isUnreachable) = true := by
      intro h
      rcases Bool.or_eq_true_iff.1 h with hempty | hnone
      · exact hsilent (Bool.or_eq_true_iff.2 (.inl hempty))
      · have unreached : use.worlds.isUnreachable = true :=
          Worlds.isUnreachable_iff.2 fun x hx => Worlds.isUnreachable_iff.1 hnone x (hw x hx)
        exact hsilent (Bool.or_eq_true_iff.2 (.inr unreached))
    rw [if_neg hsilent] at hf
    rw [if_neg hsilent']
    rcases List.mem_append.1 hf with hobsolete | hf
    · obtain ⟨e, -, he⟩ := List.mem_filterMap.1 hobsolete
      rw [ruleKind_of_obsoleteOn? he] at hrule
      rcases hrule with hrule | hrule <;> cases hrule
    · by_cases hlist : use.contract.isAllowList = true
      · rw [if_pos hlist] at hf
        obtain ⟨f', hf', same⟩ := exists_notAllowed? hw (Option.mem_toList.1 hf)
        refine ⟨f', List.mem_append_right _ ?_, same⟩
        rw [if_pos hlist]
        exact Option.mem_toList.2 hf'
      · rw [if_neg hlist] at hf
        obtain ⟨e, he, hf⟩ := List.mem_filterMap.1 hf
        obtain ⟨f', hf', same⟩ := exists_deniedOn? hw hf
        refine ⟨f', List.mem_append_right _ ?_, same⟩
        rw [if_neg hlist]
        exact List.mem_filterMap.2 ⟨e, he, hf'⟩

end Use

/-! ## Walks in more worlds -/

/-- Two walks of one unit, the first from worlds within those of the second. -/
structure UnitWalk.Within (u u' : UnitWalk) : Prop where
  unit : u.unit = u'.unit
  code : u.code = u'.code
  entry : u.entry.Within u'.entry

/-- Two uses of one symbol at one place, the first reached in worlds within those of the second. -/
structure CheckedUse.Within (c c' : CheckedUse) : Prop where
  unit : c.unit = c'.unit
  site : c.site = c'.site
  worlds : c.worlds.Within c'.worlds

/-- Two analyses of one body, of which the first recognises every check that the second does. -/
structure BodyAnalysis.RecognisesMore (a a' : BodyAnalysis) : Prop where
  scope : a.scope.RecognisesMore a'.scope
  declarations : a.declarations = a'.declarations
  file : a.file = a'.file
  contract : a.contract = a'.contract

theorem EventsWithin.invocations {es fs : List WalkEvent} (h : EventsWithin es fs)
    (callee : CallableKey) :
    List.Forall₂ Worlds.Within (es.filterMap (WalkEvent.invokes? callee))
    (fs.filterMap (WalkEvent.invokes? callee)) := by
  induction h with
  | nil => exact .nil
  | pollLeft _ ih => exact ih
  | pollRight _ ih => exact ih
  | use target span _ _ ih => exact ih
  | invoke key hw _ ih =>
    by_cases hkey : key = callee
    · simp only [List.filterMap_cons, WalkEvent.invokes?, if_pos hkey]
      exact .cons hw ih
    · simp only [List.filterMap_cons, WalkEvent.invokes?, if_neg hkey]
      exact ih

namespace UnitWalk

variable {fine coarse : WalkScope} {u u' : UnitWalk}

theorem Within.events (h : u.Within u') (more : fine.RecognisesMore coarse) :
    EventsWithin (u.events fine) (u'.events coarse) := by
  unfold UnitWalk.events
  rw [h.code]
  exact ((u'.code.walk_within more).visit h.entry).events

theorem Within.invocationsOf (h : u.Within u') (more : fine.RecognisesMore coarse)
    (callee : CallableKey) :
    List.Forall₂ Worlds.Within (u.invocationsOf fine callee) (u'.invocationsOf coarse callee) := by
  unfold UnitWalk.invocationsOf WalkUnit.invocationsOf
  rw [h.unit]
  split_ifs
  · exact .nil
  · exact (h.events more).invocations callee

theorem Within.checkedUses (h : u.Within u') (more : fine.RecognisesMore coarse) :
    List.Forall₂ CheckedUse.Within (u.checkedUses fine) (u'.checkedUses coarse) := by
  have events := h.events more
  unfold UnitWalk.checkedUses
  rw [h.unit]
  generalize u.events fine = es at events ⊢
  generalize u'.events coarse = fs at events ⊢
  induction events with
  | nil => exact .nil
  | pollLeft _ ih => exact ih
  | pollRight _ ih => exact ih
  | use target span hw _ ih => exact .cons ⟨rfl, rfl, hw⟩ ih
  | invoke callee _ _ ih => exact ih

end UnitWalk

theorem joinWorlds_within {known known' : Option Worlds} {v w : Worlds}
    (h : Option.Rel Worlds.Within known known') (hw : v.Within w) :
    Option.Rel Worlds.Within (joinWorlds known v) (joinWorlds known' w) := by
  cases h with
  | none => exact .some hw
  | some h => exact .some (h.union_mono hw)

theorem foldl_joinWorlds_within {vs ws : List Worlds} (h : List.Forall₂ Worlds.Within vs ws)
    {known known' : Option Worlds} (hknown : Option.Rel Worlds.Within known known') :
    Option.Rel Worlds.Within (vs.foldl joinWorlds known) (ws.foldl joinWorlds known') := by
  induction h generalizing known known' with
  | nil => exact hknown
  | cons hw _ ih => exact ih (joinWorlds_within hknown hw)

namespace BodyAnalysis

variable {a a' : BodyAnalysis} {contractOf : SymbolId → Contract} {walks walks' : List UnitWalk}

theorem invokedIn?_within (more : a.RecognisesMore a')
    (h : List.Forall₂ UnitWalk.Within walks walks') (callee : CallableKey) :
    Option.Rel Worlds.Within (a.invokedIn? walks callee) (a'.invokedIn? walks' callee) := by
  have invocations : List.Forall₂ Worlds.Within
    (walks.flatMap (UnitWalk.invocationsOf a.scope callee))
      (walks'.flatMap (UnitWalk.invocationsOf a'.scope callee)) :=
    List.rel_flatMap h fun _ _ hu => hu.invocationsOf more.scope callee
  exact foldl_joinWorlds_within invocations .none

theorem enclosing_eq (more : a.RecognisesMore a') (key : CallableKey) :
    a.enclosing contractOf key = a'.enclosing contractOf key := by
  unfold enclosing
  rw [more.contract]

theorem callableWalk_within (more : a.RecognisesMore a')
    (h : List.Forall₂ UnitWalk.Within walks walks') (callable : CallableDef) (cyclic : Bool) :
    (a.callableWalk contractOf walks callable cyclic).Within
      (a'.callableWalk contractOf walks' callable cyclic) := by
  have invoked := invokedIn?_within more h callable.key
  unfold callableWalk
  rw [enclosing_eq more, more.file]
  refine ⟨rfl, rfl, ?_⟩
  dsimp only
  generalize a.invokedIn? walks callable.key = known at invoked ⊢
  generalize a'.invokedIn? walks' callable.key = known' at invoked ⊢
  cases invoked with
  | none => exact .refl _
  | some hw =>
    cases callable.escapes || cyclic with
    | true => exact .refl _
    | false => exact hw.inter_mono

/-- Each callable is walked from worlds within, by induction along the order: the walks before it
invoke it in worlds within those in which the walks of the other analysis do. -/
theorem walksFrom_within (more : a.RecognisesMore a') (order : List (CallableKey × Bool))
    (h : List.Forall₂ UnitWalk.Within walks walks') :
    List.Forall₂ UnitWalk.Within (a.walksFrom contractOf order walks)
    (a'.walksFrom contractOf order walks') := by
  induction order generalizing walks walks' with
  | nil => exact h
  | cons next rest ih =>
    obtain ⟨key, cyclic⟩ := next
    rw [walksFrom, walksFrom, more.scope.callables]
    cases a'.scope.callables.get? key with
    | none => exact ih h
    | some callable =>
      exact ih (List.rel_append h (.cons (callableWalk_within more h callable cyclic) .nil))

theorem walks_within (more : a.RecognisesMore a') (body : Operation) :
    List.Forall₂ UnitWalk.Within (a.walks contractOf body) (a'.walks contractOf body) := by
  unfold walks bodyWalk
  rw [more.scope.callables, more.file, more.contract]
  exact walksFrom_within more _ (.cons ⟨rfl, rfl, .refl _⟩ .nil)

end BodyAnalysis

/-! ## Contracts asked for -/

/-- What is remembered once the contracts of some uses were asked for. -/
def ContractCache.ask (d : Declarations) (cache : ContractCache) (sites : List UseSite) :
    ContractCache :=
  sites.foldl (fun cache site => (cache.contract d site.target).2) cache

theorem BodyState.foldl_step_cache {d : Declarations} {unit : WalkUnit} (events : List WalkEvent)
    (s : BodyState) :
    (events.foldl (step d unit) s).session.cache = s.session.cache.ask d (Walk.sitesOf events) := by
  induction events generalizing s with
  | nil => rfl
  | cons e rest ih =>
    rw [List.foldl_cons, ih]
    cases e with
    | poll => rfl
    | use target span w =>
      rw [step, recordUse_eq]
      rfl
    | invoke callee w => rfl

namespace BodyAnalysis

variable {a a' : BodyAnalysis} {s s' : BodyState} {order : List (CallableKey × Bool)}

/-- A walk asks for the contracts of the use sites of its unit, from whatever worlds it starts. -/
theorem advance_cache (a : BodyAnalysis) (u : UnitWalk) (s : BodyState) :
    (a.advance u s).session.cache = s.session.cache.ask a.declarations
      (u.code.ownSites a.scope) := by
  rw [← u.code.walk_uses a.scope u.entry]
  exact BodyState.foldl_step_cache _ s

theorem RecognisesMore.siteOf? (more : a.RecognisesMore a') :
    a.scope.siteOf? = a'.scope.siteOf? := by
  unfold WalkScope.siteOf?
  rw [more.scope.callables, more.scope.assertion]

theorem advance_cache_eq (more : a.RecognisesMore a') {u u' : UnitWalk} (code : u.code = u'.code)
    (h : s.session.cache = s'.session.cache) :
    (a.advance u s).session.cache = (a'.advance u' s').session.cache := by
  rw [advance_cache, advance_cache, h, code, more.declarations, Operation.ownSites,
    Operation.ownSites, more.siteOf?]

theorem nextWalk_cache_eq (more : a.RecognisesMore a') {key : CallableKey} {callable : CallableDef}
    {cyclic : Bool} (h : s.session.cache = s'.session.cache) :
    (a.nextWalk key callable cyclic s).2.session.cache =
      (a'.nextWalk key callable cyclic s').2.session.cache := by
  cases key with
  | function symbol =>
    show (s.session.cache.contract a.declarations symbol).2 =
      (s'.session.cache.contract a'.declarations symbol).2
    rw [h, more.declarations]
  | body | lambda | anonymous => exact h

theorem advanceAll_cache_eq (more : a.RecognisesMore a') (h : s.session.cache = s'.session.cache) :
    (a.advanceAll order s).session.cache = (a'.advanceAll order s').session.cache := by
  induction order generalizing s s' with
  | nil => exact h
  | cons next rest ih =>
    obtain ⟨key, cyclic⟩ := next
    have callables : a.scope.callables.get? key = a'.scope.callables.get? key := by
      rw [more.scope.callables]
    cases hget : a'.scope.callables.get? key with
    | none =>
      rw [hget] at callables
      rw [advanceAll, advanceAll, callables, hget]
      exact ih h
    | some callable =>
      rw [advanceAll_cons (callables.trans hget), advanceAll_cons hget]
      exact ih (advance_cache_eq more rfl (nextWalk_cache_eq more h))

theorem runUpTo_cache_eq (more : a.RecognisesMore a') {body : Operation}
    (reached : (a.runUpTo body order s).2 = .ok ())
    (reached' : (a'.runUpTo body order s').2 = .ok ()) (h : s.session.cache = s'.session.cache) :
    (a.runUpTo body order s).1.session.cache = (a'.runUpTo body order s').1.session.cache := by
  rw [runUpTo_cache reached, runUpTo_cache reached']
  exact advanceAll_cache_eq more (advance_cache_eq more rfl h)

end BodyAnalysis

/-! ## Without check types -/

/-- Without check types nothing is a guard expression: a truth value alone is none. -/
theorem GuardExpr.ofOperation?_of_no_types {d : Declarations} (op : Operation) :
    ofOperation? ⟨d, none⟩ op = none := by
  induction op using Operation.children_induction with
  | step op ih =>
    cases op with
    | unary span operator operand =>
      cases operator with
      | not => rw [ofOperation?, ih operand (by simp [Operation.children]), Option.map_none]
      | other => rfl
    | binary span operator left right =>
      have hleft := ih left (by simp [Operation.children])
      have hright := ih right (by simp [Operation.children])
      cases operator using BinaryOperator.cases_comparison with
      | and => rw [ofOperation?, hleft, hright, join?]
      | or => rw [ofOperation?, hleft, hright, join?]
      | comparison operator hop =>
        rw [Operation.ofOperation?_comparison hop, hleft, hright]
        cases comparedSide? left right with
        | none => rfl
        | some side => cases side <;> rfl
      | other => rfl
    | _ => rfl

theorem CachedGuards.find?_of_no_types {d : Declarations} (body : Operation) (x : LocalId) :
    (ofBody ⟨d, none⟩ body).find? x = none := by
  rw [find?_ofBody]
  cases body.initializer? ⟨d, none⟩ x with
  | none => rfl
  | some value => exact GuardExpr.ofOperation?_of_no_types value

/-- Without check types the same body is walked, and no check is recognised. -/
theorem WalkScope.recognisesMore_of_no_types (d : Declarations) (types : Option CheckTypes)
    (body : Operation) :
    (ofBody ⟨d, types⟩ body).RecognisesMore (ofBody ⟨d, none⟩ body) where
  callables := rfl
  assertion := rfl
  call target arguments g h := by
    rw [callWorlds?] at h
    cases h
  member m g h := by
    rw [memberWorlds?] at h
    cases h
  cached x e h := by
    have none := CachedGuards.find?_of_no_types (d := d) body x
    cases none.symm.trans h

namespace MethodBody

theorem analysis_recognisesMore (body : MethodBody) (d : Declarations) (types : Option CheckTypes)
    (contractOf : SymbolId → Contract) :
    (body.analysis ⟨d, types⟩ contractOf).RecognisesMore (body.analysis ⟨d, none⟩ contractOf) where
  scope := WalkScope.recognisesMore_of_no_types d types body.body
  declarations := rfl
  file := rfl
  contract := rfl

/-- The same uses are checked without check types, in no fewer worlds. -/
theorem checkedUses_within (body : MethodBody) (d : Declarations) (types : Option CheckTypes)
    (contractOf : SymbolId → Contract) :
    List.Forall₂ CheckedUse.Within (body.checkedUses ⟨d, types⟩ contractOf)
      (body.checkedUses ⟨d, none⟩ contractOf) := by
  have more := body.analysis_recognisesMore d types contractOf
  have walks : List.Forall₂ UnitWalk.Within (body.walks ⟨d, types⟩ contractOf)
      (body.walks ⟨d, none⟩ contractOf) :=
    BodyAnalysis.walks_within more body.body
  exact List.rel_flatMap walks fun _ _ hu => hu.checkedUses more.scope

/-- The operations of a body and its callables in the order of the walks, those of a callable
without those of the callables defined in it. -/
def walkedNodes (body : MethodBody) : List Operation :=
  let callables := CallableIndex.ofBody body.body
  let code := callables.walkOrder.filterMap fun next => (callables.get? next.1).map (·.body)
  (body.body :: code).flatMap Operation.ownNodes

/-- The use sites of a body and its callables, in the order of the walks. -/
def walkedSites (body : MethodBody) (reader : GuardReader) : List UseSite :=
  body.walkedNodes.filterMap
    (Operation.useSite? body.body.definesFunction (WalkScope.ofBody reader body.body).isAssertion)

theorem checkedUses_map_site (body : MethodBody) (reader : GuardReader)
    (contractOf : SymbolId → Contract) :
    (body.checkedUses reader contractOf).map (·.site) = body.walkedSites reader := by
  let callables := CallableIndex.ofBody body.body
  have code : (body.walks reader contractOf).map (·.code) =
      body.body :: callables.walkOrder.filterMap fun next =>
      (callables.get? next.1).map (·.body) := by
    have pairs := (body.analysis reader contractOf).walksFrom_code contractOf callables.walkOrder
      [(body.analysis reader contractOf).bodyWalk body.body]
    have codes := congrArg (List.map Prod.snd) pairs
    rw [List.map_map, List.map_append, List.map_filterMap, List.filterMap_map] at codes
    refine codes.trans (congrArg (body.body :: ·) (List.filterMap_congr fun next _ => ?_))
    exact Option.map_map _ _ _
  rw [walkedSites, walkedNodes, ← code, ← siteOf?_ofBody, List.filterMap_flatMap,
    List.flatMap_map, checkedUses, List.map_flatMap]
  exact List.flatMap_congr fun u _ => u.checkedUses_sites _

end MethodBody

theorem CheckedUse.Within.exists_mem_findings {c c' : CheckedUse} (h : c.Within c')
    {d : Declarations} {contractOf : SymbolId → Contract} {f : Diagnostic}
    (hf : f ∈ c.findings d contractOf)
    (hrule : f.ruleKind = .unsupported ∨ f.ruleKind = .onlySupported) :
    ∃ f' ∈ c'.findings d contractOf, f.SameIssue f' := by
  have kept := Use.exists_mem_check h.worlds hf hrule
  unfold CheckedUse.findings
  rw [← h.unit, ← h.site]
  exact kept

theorem CheckedUse.exists_mem_flatMap_findings {uses uses' : List CheckedUse}
    (h : List.Forall₂ CheckedUse.Within uses uses') {d : Declarations}
    {contractOf : SymbolId → Contract} {f : Diagnostic}
    (hf : f ∈ uses.flatMap (findings d contractOf))
    (hrule : f.ruleKind = .unsupported ∨ f.ruleKind = .onlySupported) :
    ∃ f' ∈ uses'.flatMap (findings d contractOf), f.SameIssue f' := by
  induction h with
  | nil => cases hf
  | cons hc _ ih =>
    rw [List.flatMap_cons] at hf ⊢
    rcases List.mem_append.1 hf with hf | hf
    · obtain ⟨f', hf', same⟩ := hc.exists_mem_findings hf hrule
      exact ⟨f', List.mem_append_left _ hf', same⟩
    · obtain ⟨f', hf', same⟩ := ih hf
      exact ⟨f', List.mem_append_right _ hf', same⟩

section

variable {d : Declarations} {types : Option CheckTypes} {body : MethodBody} {session : Session}
  {found found' : List Diagnostic}

/-- With or without check types the same contracts are asked for. -/
theorem analyzeBody_cache_eq (h : (analyzeBody ⟨d, types⟩ body session).1 = .ok found)
    (h' : (analyzeBody ⟨d, none⟩ body session).1 = .ok found') :
    (analyzeBody ⟨d, types⟩ body session).2.cache =
      (analyzeBody ⟨d, none⟩ body session).2.cache := by
  obtain ⟨reached, hsession, -⟩ := run_of_analyzeBody_eq_ok h
  obtain ⟨reached', hsession', -⟩ := run_of_analyzeBody_eq_ok h'
  rw [hsession, hsession']
  exact BodyAnalysis.runUpTo_cache_eq (body.analysis_recognisesMore d types _) reached reached' rfl

end

/-- With the check recognised, the member in the local function is found to be used where it does
not work. -/
theorem guardedCall_found {found : List Diagnostic}
    (h : (analyzeBody checkReader guardedCall {}).1 = .ok found) :
    guardedCall.FoundAt checkReader found ⟨⟨4⟩, .onLine 1 15 6⟩ := by
  obtain ⟨howner, hmember, hfunction, -⟩ := checkReader_contractOf guardedCall
  have keys : guardedCall.body.definitions.map (·.key) = [.function ⟨5⟩] := rfl
  refine MethodBody.foundAt_of_runs h rfl (by simp [keys]) (guardedCall_allowedIn howner hfunction)
    guardedCall_runs (u := ⟨⟨⟨4⟩, .onLine 1 15 6⟩, false⟩) (by simp) ?_ rfl
  rw [hmember]
  exact linux_not_mem_windowsOnly

/-- A compilation in which no check is recognised keeps every finding that a symbol is unsupported,
or only supported on some platforms: at each use site, of the body and of its callables, a finding
with the check types is one without them. -/
theorem findings_kept_without_recognition (d : Declarations) (types : Option CheckTypes)
    (body : MethodBody) (session : Session) :
    let aware := analyzeBody ⟨d, types⟩ body session
    let blind := analyzeBody ⟨d, none⟩ body session
    (session.cancellation = .never →
      (∃ found, aware.1 = .ok found) ∧ ∃ found, blind.1 = .ok found) ∧
    ∀ found found', aware.1 = .ok found → blind.1 = .ok found' →
      let contractOf := blind.2.cache.contractOf d
      let uses := body.checkedUses ⟨d, types⟩ contractOf
      let uses' := body.checkedUses ⟨d, none⟩ contractOf
      (∀ f ∈ found, f.ruleKind = .unsupported ∨ f.ruleKind = .onlySupported →
        ∃ f' ∈ found', f.SameIssue f') ∧
      found = uses.flatMap (CheckedUse.findings d contractOf) ∧
      found' = uses'.flatMap (CheckedUse.findings d contractOf) ∧
      uses.map (·.site) = body.walkedSites ⟨d, none⟩ ∧
      uses'.map (·.site) = body.walkedSites ⟨d, none⟩ ∧
      List.Forall₂ (fun use use' => ∀ f ∈ use.findings d contractOf,
        f.ruleKind = .unsupported ∨ f.ruleKind = .onlySupported →
          ∃ f' ∈ use'.findings d contractOf, f.SameIssue f') uses uses' := by
  intro aware blind
  refine ⟨fun never => ⟨exists_analyzeBody_eq_ok never, exists_analyzeBody_eq_ok never⟩, ?_⟩
  intro found found' hfound hfound' contractOf uses uses'
  have within : List.Forall₂ CheckedUse.Within uses uses' :=
    body.checkedUses_within d types contractOf
  have findings : found = uses.flatMap (CheckedUse.findings d contractOf) := by
    have own := findings_of_analyzeBody_eq_ok hfound
    rw [analyzeBody_cache_eq hfound hfound'] at own
    exact own
  have findings' : found' = uses'.flatMap (CheckedUse.findings d contractOf) :=
    findings_of_analyzeBody_eq_ok hfound'
  refine ⟨fun f hf hrule => ?_, findings, findings', body.checkedUses_map_site _ _,
    body.checkedUses_map_site _ _,
    within.imp ?_⟩
  · rw [findings] at hf
    rw [findings']
    exact CheckedUse.exists_mem_flatMap_findings within hf hrule
  · intro use use' h f hf hrule
    exact h.exists_mem_findings hf hrule

/-- The member in the local function is found to be used where it does not work, though the check
before the call is not recognised. -/
theorem findings_kept_without_recognition_guardedCall :
    ∃ found',
      (analyzeBody ⟨checkReader.declarations, none⟩ guardedCall {}).1 = .ok found' ∧
      ∃ f' ∈ found', (f'.ruleKind = .unsupported ∨ f'.ruleKind = .onlySupported) ∧
        f'.location = .ofSpan "" (.onLine 1 15 6) := by
  obtain ⟨complete, kept⟩ :=
    findings_kept_without_recognition checkReader.declarations checkReader.types guardedCall {}
  obtain ⟨⟨found, hfound⟩, found', hfound'⟩ := complete rfl
  obtain ⟨f, hf, hrule, hlocation, -⟩ := guardedCall_found hfound
  obtain ⟨f', hf', same⟩ := (kept found found' hfound hfound').1 f hf hrule
  refine ⟨found', hfound', f', hf', ?_, same.location.symm.trans hlocation⟩
  rw [← same.ruleKind]
  exact hrule

end PlatformGuard
