import PlatformGuard.Proofs.BodyOutcome
import PlatformGuard.Proofs.InvocationRecord

/-!
# Negation swaps branches

A condition that is negated has its branches exchanged: they are visited from the same worlds, in
the other order. So the same events happen, apart from a poll, and what is left to show is that
their order does not matter: worlds are joined in any order, and a use has the same findings
whenever it is checked.

The latter needs that no members implement each other in a circle. In a circle the contract
of a member depends on which of them is asked for first, and the first branch is where the
first question comes from.

* `follow_diagnostics`, `follow_invokedIn?`: what the events of a unit add to a state.
* `negation_swaps_branches`: what the two conditionals leave behind is the same.
* `ContractCache.contract_of_circle`: the contracts of two members that implement each other.
* `circle_branches_differ`: with such members the two conditionals do not find the same.
-/

namespace PlatformGuard

/-! ## Joins in any order -/

theorem Walk.joinAfter_comm (a b : Option Worlds) : (joinAfter a b == joinAfter b a) = true := by
  have self : ∀ w : Worlds, (w == w) = true :=
    fun _ => Worlds.beq_iff_same_worlds.2 fun _ => Iff.rfl
  cases a with
  | none =>
    cases b with
    | none => rfl
    | some w => exact self w
  | some v =>
    cases b with
    | none => exact self v
    | some w =>
      exact Worlds.beq_iff_same_worlds.2 fun _ => by
        rw [Worlds.mem_union, Worlds.mem_union, or_comm]

theorem foldl_joinWorlds_perm {added added' : List Worlds} (h : added.Perm added')
    (known : Option Worlds) :
    (added.foldl joinWorlds known == added'.foldl joinWorlds known) = true := by
  -- what was known is one more that is added, to nothing
  have start : ∀ l : List Worlds, l.foldl joinWorlds known =
      (known.toList ++ l).foldl joinWorlds none := by
    intro l
    cases known <;> rfl
  rw [start, start]
  have all := h.append_left known.toList
  generalize known.toList ++ added = l at all ⊢
  generalize known.toList ++ added' = l' at all ⊢
  cases hl : l.foldl joinWorlds none with
  | none =>
    obtain rfl := foldl_joinWorlds_eq_none.1 hl
    obtain rfl := all.nil_eq
    rfl
  | some v =>
    cases hl' : l'.foldl joinWorlds none with
    | none =>
      obtain rfl := foldl_joinWorlds_eq_none.1 hl'
      rw [all.eq_nil] at hl
      cases hl
    | some v' =>
      refine Worlds.beq_iff_same_worlds.2 fun x => ?_
      rw [mem_foldl_joinWorlds hl, mem_foldl_joinWorlds hl']
      simp only [all.mem_iff]

/-! ## Events in any order -/

theorem WalkUnit.invocationsOf_poll (unit : WalkUnit) (callee : CallableKey)
    (events : List WalkEvent) :
    unit.invocationsOf callee (.poll :: events) = unit.invocationsOf callee events := rfl

theorem WalkUnit.invocationsOf_perm (unit : WalkUnit) {callee : CallableKey}
    {events events' : List WalkEvent} (h : events.Perm events') :
    (unit.invocationsOf callee events).Perm (unit.invocationsOf callee events') := by
  rw [invocationsOf, invocationsOf]
  split
  · exact .nil
  · exact h.filterMap _

namespace BodyState

variable {d : Declarations} {unit : WalkUnit} {s : BodyState} {events : List WalkEvent}

/-- Where the end is reached, each event had its effect. -/
theorem follow_eq_foldl_step (h : (follow d unit events s).2 = .ok ()) :
    (follow d unit events s).1.withCancellation .never =
      (events.foldl (step d unit) s).withCancellation .never :=
  congrArg Prod.fst ((follow_of_ok h).symm.trans (follow_never events))

theorem follow_invokedIn? (h : (follow d unit events s).2 = .ok ()) (callee : CallableKey) :
    (follow d unit events s).1.invokedIn? callee =
      (unit.invocationsOf callee events).foldl joinWorlds (s.invokedIn? callee) :=
  (congrArg (fun t : BodyState => t.invokedIn? callee) (follow_eq_foldl_step h)).trans
    (foldl_step_invokedIn? events callee)

theorem follow_diagnostics {contractOf : SymbolId → Contract}
    (h : (follow d unit events s).2 = .ok ())
    (agrees : (follow d unit events s).1.session.cache.Agrees contractOf) :
    (follow d unit events s).1.diagnostics = s.diagnostics ++
    events.flatMap (unit.findings d contractOf) := by
  have same := follow_eq_foldl_step h
  have cache := congrArg (fun t : BodyState => t.session.cache) same
  have stepped : (events.foldl (step d unit) s).session.cache.Agrees contractOf := cache ▸ agrees
  exact (congrArg (fun t : BodyState => t.diagnostics) same).trans (foldl_step_diagnostics stepped)

end BodyState

namespace ContractCache

/-- The cache after questions are put to an empty one in turn. -/
def after (d : Declarations) (queries : List Query) : ContractCache :=
  queries.foldl (fun cache q => (cache.answer d q).2) .empty

theorem faithful_after {d : Declarations} {contractOf : SymbolId → Contract}
    (acyclic : d.ImplementsAcyclic) (recursion : d.IsContractOf contractOf) (queries : List Query) :
    Faithful d contractOf (after d queries) :=
  List.foldlRecOn queries _ faithful_empty fun _ kept q _ => (kept.answer acyclic recursion q).2

end ContractCache

/-! ## The two conditionals -/

/-- `if (!g) a else b` and `if (g) b else a` leave the same worlds behind them, or neither
falls through. From any state, where neither is cancelled, they record the same worlds for
each callable; and where no members implement each other in a circle, they add the same
findings, up to their order. -/
theorem negation_swaps_branches (d : Declarations) (unit : WalkUnit) (scope : WalkScope)
    (span notSpan span' : Span) (g a b : Operation) (w : Worlds) :
    let negated :=
      ((Operation.conditional span (.unary notSpan .not g) a (some b)).walk scope).visit w
    let swapped := ((Operation.conditional span' g b (some a)).walk scope).visit w
    (negated.after == swapped.after) = true ∧
      ∀ s t t' : BodyState,
        s.follow d unit negated.events = (t, .ok ()) →
        s.follow d unit swapped.events = (t', .ok ()) →
        (∀ callee, (t.invokedIn? callee == t'.invokedIn? callee) = true) ∧
        (d.ImplementsAcyclic → ∀ queries, s.session.cache = .after d queries →
          ∃ found found', t.diagnostics = s.diagnostics ++ found ∧
            t'.diagnostics = s.diagnostics ++ found' ∧ found.Perm found') := by
  intro negated swapped
  let onCondition := ((g.walk scope).split true w).events
  let onTrue := (b.walk scope).visit ((g.walk scope).split true w).whenTrue
  let onFalse := (a.walk scope).visit ((g.walk scope).split true w).whenFalse
  have hnegated : negated.events = .poll :: .poll ::
    (onCondition ++ onFalse.events ++ onTrue.events) := rfl
  have hswapped : swapped.events = .poll :: (onCondition ++ onTrue.events ++ onFalse.events) := rfl
  have exchanged : (onCondition ++ onFalse.events ++ onTrue.events).Perm
      (onCondition ++ onTrue.events ++ onFalse.events) := by
    rw [List.append_assoc, List.append_assoc]
    exact List.perm_append_comm.append_left _
  refine ⟨Walk.joinAfter_comm onFalse.after onTrue.after, fun s t t' ht ht' => ?_⟩
  have reached : (s.follow d unit negated.events).2 = .ok () := congrArg Prod.snd ht
  have reached' : (s.follow d unit swapped.events).2 = .ok () := congrArg Prod.snd ht'
  obtain rfl : (s.follow d unit negated.events).1 = t := congrArg Prod.fst ht
  obtain rfl : (s.follow d unit swapped.events).1 = t' := congrArg Prod.fst ht'
  refine ⟨fun callee => ?_, fun acyclic queries hcache => ?_⟩
  · rw [BodyState.follow_invokedIn? reached, BodyState.follow_invokedIn? reached']
    refine foldl_joinWorlds_perm ?_ _
    rw [hnegated, hswapped, unit.invocationsOf_poll, unit.invocationsOf_poll,
      unit.invocationsOf_poll]
    exact unit.invocationsOf_perm exchanged
  · obtain ⟨contractOf, recursion⟩ := acyclic.exists_contracts
    have before : s.session.cache.Faithful d contractOf :=
      hcache ▸ ContractCache.faithful_after acyclic recursion queries
    have kept : ∀ events, (s.follow d unit events).1.session.cache.Agrees contractOf :=
      fun events => (BodyState.follow_keeps
        (ContractCache.asks_faithful acyclic recursion) events before).contracts
    refine ⟨_, _, BodyState.follow_diagnostics reached (kept _),
      BodyState.follow_diagnostics reached' (kept _), ?_⟩
    rw [hnegated, hswapped]
    exact exchanged.flatMap_right _

/-- `void Helper() { } if (!IsOSPlatform("windows")) { Helper(); _ = OnlyOnWindows; } else
Helper();` from where its analysis starts. -/
theorem negation_swaps_branches_helper :
    let d := checkReader.declarations
    let call : Operation := .invocation {} ⟨5⟩ none []
    let use : Operation := .block {} [call, .memberReference {} ⟨4⟩ none]
    let onWindows := platformCheck "windows"
    let conditional : Operation := .conditional {} (.unary {} .not onWindows) use (some call)
    let body : MethodBody :=
      { owner := ⟨3⟩, body := .block {} [.localFunction {} ⟨5⟩ (.block {} []), conditional] }
    let scope : WalkScope := .ofBody checkReader body.body
    let unit : WalkUnit :=
      { key := .body, file := body.file, enclosing := (ownerContract checkReader body {}).1 }
    let s := (ownerContract checkReader body {}).2
    let negated := (conditional.walk scope).visit .all
    let swapped := ((Operation.conditional {} onWindows call (some use)).walk scope).visit .all
    (negated.after == swapped.after) = true ∧ d.ImplementsAcyclic ∧
      ∃ t t', s.follow d unit negated.events = (t, .ok ()) ∧
        s.follow d unit swapped.events = (t', .ok ()) ∧
        (t.invokedIn? (.function ⟨5⟩) == t'.invokedIn? (.function ⟨5⟩)) = true ∧
        t.diagnostics.Perm t'.diagnostics := by
  intro d call use onWindows conditional body scope unit s negated swapped
  obtain ⟨after, left⟩ := negation_swaps_branches d unit scope {} {} {} onWindows use call .all
  have run : s.follow d unit negated.events = _ := BodyState.follow_never (s := s) _
  have run' : s.follow d unit swapped.events = _ := BodyState.follow_never (s := s) _
  obtain ⟨invoked, findings⟩ := left s _ _ run run'
  obtain ⟨found, found', hfound, hfound', perm⟩ :=
    findings checkReader_implementsAcyclic [.contract ⟨3⟩] rfl
  refine ⟨after, checkReader_implementsAcyclic, _, _, run, run', invoked _, ?_⟩
  rw [hfound, hfound']
  exact perm.append_left _

/-! ## Members in a circle -/

/-- A symbol in no scope that implements one member. -/
def Declarations.ImplementsOnly (d : Declarations) (id member : SymbolId) : Prop :=
  ∃ s, d.table.get? id = some s ∧ s.containing = none ∧ s.associated = none ∧
  s.implements = [member]

namespace ContractCache

variable {d : Declarations} {id member : SymbolId} {visiting : List SymbolId}
    {cache : ContractCache}

/-- Such a symbol has the contract of the member and its own layer. -/
theorem resolve_implementsOnly {implemented : Contract × ContractCache}
    (only : d.ImplementsOnly id member) (apart : member ≠ id) (fresh : id ∉ visiting)
    (unbuilt : cache.get? id = none)
    (hmember : resolve d (id :: visiting) member cache = implemented)
    (read : (implemented.2.declared d id).1 = d.declared id) :
    let merged := (Contract.empty.mergeChild implemented.1).mergeChild (d.layer id)
    resolve d visiting id cache = (merged, (implemented.2.declared d id).2.remember id merged) := by
  obtain ⟨s, hs, top, plain, himplements⟩ := only
  have chain : d.table.scopeChain id = [] := by
    rw [SymbolTable.scopeChain, hs, Option.bind_some, top, SymbolTable.scopesFrom]
  have scopes : d.scopes id = ([], []) := by
    rw [Declarations.scopes, chain]
    rfl
  have members : s.implements.filter (fun i => decide (i ≠ id)) = [member] := by
    simp [himplements, apart]
  intro merged
  rw [resolve, unbuilt]
  dsimp only
  rw [dif_neg fresh]
  split
  case h_1 hnone => cases hs.symm.trans hnone
  case h_2 s' hs' =>
    obtain rfl := Option.some.inj (hs.symm.trans hs')
    rw [scopes, plain, members]
    simp only [mergeLayers, mergeResolved, hmember, Option.toList_none, List.append_nil,
      List.nil_append, read]
    rfl

/-- Of two members that implement each other, the first one asked for has both layers and
the other its own only. -/
theorem contract_of_circle {other : SymbolId} (forth : d.ImplementsOnly id other)
    (back : d.ImplementsOnly other id) (apart : other ≠ id) :
    let own := Contract.empty.mergeChild (d.layer other)
    (ContractCache.empty.contract d id).1 =
      (Contract.empty.mergeChild own).mergeChild (d.layer id) ∧
      (ContractCache.empty.contract d id).2.get? other = some own := by
  intro own
  have unbuilt : ∀ i, ContractCache.empty.get? i = none := fun i => by simp [empty, get?]
  -- attributes are as declared, whatever the contracts are
  have nothing : Faithful d (fun _ => .empty) .empty := faithful_empty
  obtain ⟨hother, read⟩ := nothing.declared other
  let later := (ContractCache.empty.declared d other).2.remember other own
  have later_faithful : Faithful d (later.contractOf d) later :=
    ⟨read.attributes, agrees_contractOf later d⟩
  have hid : (later.declared d id).1 = d.declared id := (later_faithful.declared id).1
  have again : resolve d [other, id] id .empty = (.empty, .empty) :=
    resolve_of_visiting (unbuilt id) (by simp)
  have inner : resolve d [id] other .empty = (own, later) :=
    resolve_implementsOnly back apart.symm (by simpa using apart) (unbuilt other) again hother
  have outer := resolve_implementsOnly forth apart List.not_mem_nil (unbuilt id) inner hid
  rw [contract, outer]
  refine ⟨rfl, ?_⟩
  rw [get?_remember, if_neg apart.symm, get?_declared, get?_remember, if_pos rfl]

end ContractCache

/-- Two properties that implement each other. One of them is not for windows. -/
def circle : Declarations where
  table := .ofSymbols
    [{ id := ⟨1⟩, name := "Volume", kind := .property, implements := [⟨2⟩]
       attributes := [{ kind := .unsupported, platform := "windows" }] },
      { id := ⟨2⟩, name := "Level", kind := .property, implements := [⟨1⟩] }]
  vocabulary := {}

theorem circle_layers : circle.layer ⟨1⟩ = windowsDenied ∧ circle.layer ⟨2⟩ = .empty := by
  refine ⟨?_, ?_⟩ <;>
  · rw [Declarations.layer, Declarations.declared, Declared.ofId, circle,
      SymbolTable.get?_ofSymbols]
    rfl

theorem circle_implementsOnly : circle.ImplementsOnly ⟨1⟩ ⟨2⟩ ∧ circle.ImplementsOnly ⟨2⟩ ⟨1⟩ :=
  ⟨⟨_, SymbolTable.get?_ofSymbols _ _, rfl, rfl, rfl⟩,
    ⟨_, SymbolTable.get?_ofSymbols _ _, rfl, rfl, rfl⟩⟩

/-- The contract of the one depends on whether the other was asked for before. -/
theorem circle_contracts :
    ((ContractCache.empty.contract circle ⟨1⟩).1 = windowsDenied ∧
      (ContractCache.empty.contract circle ⟨1⟩).2.get? ⟨2⟩ = some .empty) ∧
    ((ContractCache.empty.contract circle ⟨2⟩).1 = windowsDenied ∧
      (ContractCache.empty.contract circle ⟨2⟩).2.get? ⟨1⟩ = some windowsDenied) := by
  obtain ⟨volumeOnly, levelOnly⟩ := circle_implementsOnly
  obtain ⟨volumeFirst, levelThen⟩ :=
    ContractCache.contract_of_circle volumeOnly levelOnly (by decide)
  obtain ⟨levelFirst, volumeThen⟩ :=
    ContractCache.contract_of_circle levelOnly volumeOnly (by decide)
  obtain ⟨volumeLayer, levelLayer⟩ := circle_layers
  rw [volumeFirst, levelThen, levelFirst, volumeThen, volumeLayer, levelLayer]
  exact ⟨⟨rfl, rfl⟩, rfl, rfl⟩

/-- A use of what is not for windows, reached everywhere, has one finding. -/
theorem windowsDenied_findings (target : String) (location : Location) :
    (Use.check ⟨target, windowsDenied, .all, .empty, location⟩).length = 1 := rfl

/-- The findings of two uses, where the second contract is built for the first. -/
theorem BodyState.recordUse_recordUse_diagnostics {d : Declarations} {unit : WalkUnit}
    {s : BodyState} {first second : SymbolId} {contract contract' : Contract} {span span' : Span}
    {w w' : Worlds} (hfirst : (s.session.cache.contract d first).1 = contract)
    (hsecond : (s.session.cache.contract d first).2.get? second = some contract') :
    ((s.recordUse d unit first span w).recordUse d unit second span' w').diagnostics =
      s.diagnostics ++ (unit.use d (fun _ => contract) first span w).check ++
        (unit.use d (fun _ => contract') second span' w').check := by
  have known : ((s.recordUse d unit first span w).contract d second).1 = contract' := by
    rw [recordUse_eq]
    exact ContractCache.contract_of_get? hsecond
  rw [recordUse_eq, known, recordUse_eq, ← hfirst]
  rfl

/-- `if (!x) Volume else Level` and `if (x) Level else Volume`, from a state in which nothing was
asked: the first finds nothing wrong with `Level`, whose contract was built for that of `Volume`. -/
theorem circle_branches_differ :
    let unit : WalkUnit := { key := .body, file := "", enclosing := .empty }
    let scope : WalkScope := .ofBody (.ofDeclarations circle) (.block {} [])
    let x : Operation := .localReference {} ⟨0⟩
    let volume : Operation := .memberReference {} ⟨1⟩ none
    let level : Operation := .memberReference {} ⟨2⟩ none
    let negated :=
      ((Operation.conditional {} (.unary {} .not x) volume (some level)).walk scope).visit .all
    let swapped := ((Operation.conditional {} x level (some volume)).walk scope).visit .all
    ∃ t t' : BodyState, BodyState.follow circle unit negated.events
      { session := {} } = (t, .ok ()) ∧
      BodyState.follow circle unit swapped.events { session := {} } = (t', .ok ()) ∧
      t.diagnostics.length = 1 ∧ t'.diagnostics.length = 2 ∧
      ¬ t.diagnostics.Perm t'.diagnostics := by
  intro unit scope x volume level negated swapped
  have volumeEarlier : negated.events =
      [.poll, .poll, .poll, .poll, .poll, .use ⟨1⟩ {} .all, .poll, .use ⟨2⟩ {} .all] := rfl
  have levelEarlier : swapped.events =
      [.poll, .poll, .poll, .poll, .use ⟨2⟩ {} .all, .poll, .use ⟨1⟩ {} .all] := rfl
  rw [volumeEarlier, levelEarlier]
  let s : BodyState := { session := {} }
  obtain ⟨⟨volumeFirst, levelThen⟩, levelFirst, volumeThen⟩ := circle_contracts
  have one : ∀ target, (unit.use circle (fun _ => windowsDenied) target {} .all).check.length = 1 :=
    fun target => windowsDenied_findings _ _
  have none : (unit.use circle (fun _ => .empty) ⟨2⟩ {} .all).check = [] := if_pos rfl
  have found : ((s.recordUse circle unit ⟨1⟩ {} .all).recordUse circle unit ⟨2⟩
      {} .all).diagnostics.length = 1 := by
    rw [BodyState.recordUse_recordUse_diagnostics volumeFirst levelThen, none, List.append_nil,
      List.length_append, one]
    rfl
  have found' : ((s.recordUse circle unit ⟨2⟩ {} .all).recordUse circle unit ⟨1⟩
      {} .all).diagnostics.length = 2 := by
    rw [BodyState.recordUse_recordUse_diagnostics levelFirst volumeThen, List.length_append,
      List.length_append, one, one]
    rfl
  let volumeFirst := (s.recordUse circle unit ⟨1⟩ {} .all).recordUse circle unit ⟨2⟩ {} .all
  let levelFirst := (s.recordUse circle unit ⟨2⟩ {} .all).recordUse circle unit ⟨1⟩ {} .all
  refine ⟨volumeFirst.withCancellation .never, levelFirst.withCancellation .never,
    BodyState.follow_never (s := s) _, BodyState.follow_never (s := s) _, found,
    found', fun h => ?_⟩
  cases found.symm.trans (h.length_eq.trans found')

end PlatformGuard
