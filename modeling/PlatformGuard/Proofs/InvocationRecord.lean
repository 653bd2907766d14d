import PlatformGuard.Proofs.EnclosingContract
import PlatformGuard.Proofs.WalkParts

/-!
# What is known of invocations when a callable is walked

A callable that is on no cycle with others is walked after all units that invoke it, whichever way
the strongly connected components are found. When its walk starts, the worlds recorded for it are
therefore those of all its invocations that are recorded at all (`invokers_walked_first`).

Assertions are not. The index counts an assertion among the invocations of its target, as it counts
every call; the walks take it for an assertion only. So where the target is a local function, it is
walked after the assertion, and with nothing known of it (`invokers_walked_first_assertedCall`).
-/

namespace PlatformGuard

/-! ## Invocations on walks -/

def WalkScope.asserts (scope : WalkScope) : Operation → Bool
  | .invocation _ target _ arguments => scope.isAssertion target && !arguments.isEmpty
  | _ => false

/-- The walk of a unit comes to an operation that invokes a callable, other than the unit itself. -/
structure UnitWalk.Invokes (u : UnitWalk) (scope : WalkScope) (key : CallableKey) (op : Operation)
    (w : Worlds) : Prop where
  other : u.unit.key ≠ key
  comes : u.code.ComesTo scope u.entry op w
  invoked : op.invoked? = some key

section

variable {reader : GuardReader} {body : Operation} {key : CallableKey}

/-- What invokes a callable is recorded, unless it asserts. -/
theorem WalkScope.calleeOf?_iff (hkey : key ∈ body.definitions.map (·.key)) {op : Operation} :
    (ofBody reader body).calleeOf? op = some key ↔
      op.invoked? = some key ∧ (ofBody reader body).asserts op = false := by
  cases op with
  | invocation span target receiver arguments =>
    rw [calleeOf?, asserts, Operation.invoked?]
    constructor
    · intro h
      split_ifs at h with hcall
      exact ⟨h, (Bool.not_eq_true' _).mp (Bool.and_eq_true_iff.1 hcall).2⟩
    · rintro ⟨h, hcall⟩
      rw [← Option.some.inj h, mem_keys_definitions_function,
        ← CallableIndex.isLocalFunction_ofBody] at hkey
      have hlocal : (ofBody reader body).callables.isLocalFunction target = true := hkey
      rw [hlocal, hcall]
      exact h
  | delegateInvocation span target arguments =>
    cases target with
    | localReference span' x =>
      have own :
          (ofBody reader body).calleeOf? (.delegateInvocation span (.localReference span' x)
            arguments) =
          if (ofBody reader body).callables.isLambda x then some (.lambda x) else none := rfl
      rw [own, Operation.invoked?]
      constructor
      · intro h
        split_ifs at h
        exact ⟨h, rfl⟩
      · rintro ⟨h, -⟩
        rw [← Option.some.inj h, mem_keys_definitions_lambda,
          ← CallableIndex.isLambda_ofBody] at hkey
        exact (if_pos hkey).trans h
    | _ => simp [calleeOf?, Operation.local?, Operation.invoked?]
  | _ => simp [calleeOf?, Operation.invoked?]

/-- The invocations that a walk records, one by one. -/
theorem UnitWalk.mem_invocationsOf_iff (hkey : key ∈ body.definitions.map (·.key)) {u : UnitWalk}
    {w : Worlds} : w ∈ u.invocationsOf (.ofBody reader body) key ↔
      ∃ op, u.Invokes (.ofBody reader body) key op w ∧
        (WalkScope.ofBody reader body).asserts op = false := by
  have event : .invoke key w ∈ u.events (.ofBody reader body) ↔
      ∃ op, u.code.ComesTo (.ofBody reader body) u.entry op w ∧
        (WalkScope.ofBody reader body).markOf? op = some (.call key) :=
    Operation.mem_events_iff (m := .call key)
  rw [mem_invocationsOf, event]
  constructor
  · rintro ⟨hne, op, comes, hmark⟩
    have hcallee : (WalkScope.ofBody reader body).calleeOf? op = some key := by
      rw [← WalkScope.markOf?_bind_callee?, hmark]
      rfl
    obtain ⟨hinvoked, hasserts⟩ := (WalkScope.calleeOf?_iff hkey).1 hcallee
    exact ⟨op, ⟨hne, comes, hinvoked⟩, hasserts⟩
  · rintro ⟨op, h, hasserts⟩
    exact ⟨h.other, op, h.comes,
      WalkScope.markOf?_of_calleeOf? ((WalkScope.calleeOf?_iff hkey).2 ⟨h.invoked, hasserts⟩)⟩

end

/-- A walk meets each invocation of a callable in its unit once, assertions apart. -/
theorem UnitWalk.countP_callee? {reader : GuardReader} {body : Operation} {key : CallableKey}
    (hkey : key ∈ body.definitions.map (·.key)) (u : UnitWalk) :
    (u.events (.ofBody reader body)).countP (fun e => e.callee? == some key) =
      u.code.ownNodes.countP fun op =>
        op.invoked? == some key && !(WalkScope.ofBody reader body).asserts op := by
  have counts := (u.code.walk_calls (.ofBody reader body) u.entry).count_eq key
  rw [List.count_filterMap, List.count_filterMap] at counts
  refine counts.trans (List.countP_congr fun op _ => ?_)
  rw [beq_iff_eq, WalkScope.calleeOf?_iff hkey, Bool.and_eq_true, beq_iff_eq, Bool.not_eq_true']

theorem foldl_joinWorlds_eq_none {added : List Worlds} :
    added.foldl joinWorlds none = none ↔ added = [] := by
  have kept : ∀ (rest : List Worlds) (w : Worlds),
      (rest.foldl joinWorlds (some w)).isSome = true := by
    intro rest
    induction rest with
    | nil => exact fun w => rfl
    | cons v rest ih => exact fun w => ih _
  cases added with
  | nil => simp
  | cons w rest =>
    have hsome := kept rest w
    constructor
    · intro hnone
      rw [show rest.foldl joinWorlds (some w) = none from hnone] at hsome
      cases hsome
    · intro h
      cases h

/-! ## The record when a walk starts -/

namespace MethodBody

variable {body : MethodBody} {reader : GuardReader} {contractOf : SymbolId → Contract}
  {session : Session} {order earlier later : List (CallableKey × Bool)} {key : CallableKey}

/-- The analysis of a body that walks its callables in the given order. -/
def analyzeInOrder (body : MethodBody) (reader : GuardReader) (session : Session)
    (order : List (CallableKey × Bool)) : Except AnalysisError (List Diagnostic) × Session :=
  match body.runUpTo reader session order with
  | (s, .ok ()) => (.ok s.diagnostics, s.session)
  | (s, .error e) => (.error e, s.session)

/-- Walks after that of a callable on no cycle with others do not invoke it. -/
theorem invokedIn?_walksUpTo (first : body.body.InvokersFirst (earlier ++ (key, false) :: later)) :
    (body.analysis reader contractOf).invokedIn? (body.walksUpTo reader contractOf earlier) key =
      (body.analysis reader contractOf).invokedIn?
        (body.walksUpTo reader contractOf (earlier ++ (key, false) :: later)) key := by
  obtain ⟨rest, hrest⟩ : body.walksUpTo reader contractOf earlier <+:
      body.walksUpTo reader contractOf (earlier ++ (key, false) :: later) := walksUpTo_isPrefix _ _
  have silent : ∀ u ∈ rest, u.invocationsOf (body.analysis reader contractOf).scope key = [] := by
    intro u hu
    rw [List.eq_nil_iff_forall_not_mem]
    intro w hw
    obtain ⟨hne, hevent⟩ := UnitWalk.mem_invocationsOf.1 hw
    have hwalks : u ∈ body.walksUpTo reader contractOf (earlier ++ (key, false) :: later) :=
      hrest ▸ List.mem_append_right _ hu
    have hearlier := first.mem_earlier rfl (unitInvokes_of_invoke first hwalks hevent).1 hne
    -- the walk would stand both before and after that of the callable
    have nodup : ((body.walksUpTo reader contractOf (earlier ++ (key, false) :: later)).map
        fun u => u.unit.key).Nodup := walksUpTo_keys_nodup first
    rw [← hrest, List.map_append] at nodup
    exact absurd rfl ((List.nodup_append.1 nodup).2.2 _
      (List.mem_map_of_mem (mem_walksUpTo first hwalks hearlier)) _ (List.mem_map_of_mem hu))
  rw [← hrest, BodyAnalysis.invokedIn?, BodyAnalysis.invokedIn?, List.flatMap_append,
    List.flatMap_eq_nil_iff.2 silent, List.append_nil]

theorem runUpTo_agrees
    (agrees : (body.runUpTo reader session (earlier ++ later)).1.session.cache.Agrees contractOf) :
    (body.runUpTo reader session earlier).1.session.cache.Agrees contractOf := by
  rw [runUpTo, BodyAnalysis.runUpTo_append] at agrees
  exact BodyAnalysis.andThen_agrees agrees fun _ => BodyAnalysis.walkCallables_agrees

/-- What is on record of a callable on no cycle with others when its walk starts: all invocations of
it that are recorded. -/
theorem record_of_runUpTo (first : body.body.InvokersFirst (earlier ++ (key, false) :: later))
    (reached : (body.runUpTo reader session earlier).2 = .ok ())
    (agrees : (body.runUpTo reader session earlier).1.session.cache.Agrees contractOf) :
    let recorded := (body.runUpTo reader session earlier).1.invokedIn? key
    let walks := body.walksUpTo reader contractOf (earlier ++ (key, false) :: later)
    let scope := WalkScope.ofBody reader body.body
    (recorded = none ↔
      ∀ u ∈ walks, ∀ op w, u.Invokes scope key op w → scope.asserts op = true) ∧
    ∀ invoked ∈ recorded, ∀ x, x ∈ invoked ↔ ∃ u ∈ walks, ∃ op w,
      u.Invokes scope key op w ∧ scope.asserts op = false ∧ x ∈ w := by
  intro recorded walks scope
  have hkey : key ∈ body.body.definitions.map (·.key) :=
    (first.mem_iff key).1 (by simp)
  have hrecorded : recorded =
      (walks.flatMap fun u => u.invocationsOf scope key).foldl joinWorlds none :=
    ((runUpTo_records reached agrees).2.invoked key).trans (invokedIn?_walksUpTo first)
  have members : ∀ w, w ∈ (walks.flatMap fun u => u.invocationsOf scope key) ↔
      ∃ u ∈ walks, ∃ op, u.Invokes scope key op w ∧ scope.asserts op = false := by
    intro w
    rw [List.mem_flatMap]
    exact exists_congr fun u => and_congr_right fun _ => UnitWalk.mem_invocationsOf_iff hkey
  refine ⟨?_, fun invoked hinvoked x => ?_⟩
  · rw [hrecorded, foldl_joinWorlds_eq_none, List.eq_nil_iff_forall_not_mem]
    constructor
    · intro none u hu op w h
      rw [← Bool.not_eq_false]
      exact fun hasserts => none w ((members w).2 ⟨u, hu, op, h, hasserts⟩)
    · intro all w hw
      obtain ⟨u, hu, op, h, hasserts⟩ := (members w).1 hw
      cases (all u hu op w h).symm.trans hasserts
  · rw [mem_foldl_joinWorlds (hrecorded.symm.trans hinvoked)]
    constructor
    · rintro (⟨w, hw, -⟩ | ⟨w, hw, hx⟩)
      · cases hw
      · obtain ⟨u, hu, op, h, hasserts⟩ := (members w).1 hw
        exact ⟨u, hu, op, w, h, hasserts, hx⟩
    · rintro ⟨u, hu, op, w, h, hasserts, hx⟩
      exact .inr ⟨w, (members w).2 ⟨u, hu, op, h, hasserts⟩, hx⟩

end MethodBody

/-- Invokers are walked first. Components in reverse topological order, however they were found,
give an order that lists each callable of a body once, marks those on a cycle with another one, and
has every unit before what it invokes, cycles apart. So when the walk of a callable that is not
marked starts, the worlds recorded for it are those of all invocations of it in other units, each of
which is met once; assertions apart, which are not recorded. With these the record is still right
just if each of them is reached in worlds that are recorded. -/
theorem invokers_walked_first (reader : GuardReader) (body : MethodBody) (session : Session) :
    (∃ components, body.body.ListsComponents components ∧
      analyzeBody reader body session =
        body.analyzeInOrder reader session (CallableIndex.orderOf components.reverse)) ∧
    ∀ components, body.body.ListsComponents components →
      let order := CallableIndex.orderOf components.reverse
      let ran := body.runUpTo reader session order
      let contractOf := ran.1.session.cache.contractOf reader.declarations
      let scope := WalkScope.ofBody reader body.body
      let walks := body.walksUpTo reader contractOf order
      body.body.InvokersFirst order ∧
      (session.cancellation = .never → ran.2 = .ok ()) ∧
      (walks.map fun u => (u.unit.key, u.code)).Perm (CallableIndex.unitsOf body.body) ∧
      ∀ earlier key later, order = earlier ++ (key, false) :: later →
        let before := body.runUpTo reader session earlier
        let recorded := before.1.invokedIn? key
        ran = BodyAnalysis.andThen before ((body.analysis reader fun _ =>
          (ownerContract reader body session).1).walkCallables ((key, false) :: later)) ∧
        (∀ u ∈ walks, (u.events scope).countP (fun e => e.callee? == some key) =
          u.code.ownNodes.countP fun op => op.invoked? == some key && !scope.asserts op) ∧
        (before.2 = .ok () →
          (recorded = none ↔
            ∀ u ∈ walks, ∀ op w, u.Invokes scope key op w → scope.asserts op = true) ∧
          (∀ invoked ∈ recorded, ∀ x, x ∈ invoked ↔ ∃ u ∈ walks, ∃ op w,
            u.Invokes scope key op w ∧ scope.asserts op = false ∧ x ∈ w) ∧
          (((recorded = none ↔ ∀ u ∈ walks, ∀ op w, ¬ u.Invokes scope key op w) ∧
            ∀ invoked ∈ recorded, ∀ x, x ∈ invoked ↔
              ∃ u ∈ walks, ∃ op w, u.Invokes scope key op w ∧ x ∈ w) ↔
            ∀ u ∈ walks, ∀ op w, u.Invokes scope key op w → scope.asserts op = true →
              ∃ invoked ∈ recorded, w.isSubset invoked = true)) := by
  refine ⟨⟨_, CallableIndex.listsComponents body.body, ?_⟩, fun components lists => ?_⟩
  · rw [List.reverse_reverse]
    rfl
  intro order ran contractOf scope walks
  have first : body.body.InvokersFirst order := lists.invokersFirst
  refine ⟨first, fun never => MethodBody.reached_of_never never _,
    MethodBody.walksUpTo_perm first, ?_⟩
  intro earlier key later split before recorded
  have agrees : ran.1.session.cache.Agrees contractOf :=
    ContractCache.agrees_contractOf _ reader.declarations
  clear_value contractOf
  clear_value order
  subst split
  have hkey : key ∈ body.body.definitions.map (·.key) := (first.mem_iff key).1 (by simp)
  refine ⟨BodyAnalysis.runUpTo_append _ _ _, fun u _ => u.countP_callee? hkey, fun reached => ?_⟩
  obtain ⟨unrecorded, members⟩ :=
    MethodBody.record_of_runUpTo first reached (MethodBody.runUpTo_agrees agrees)
  refine ⟨unrecorded, members, fun ⟨absent, all⟩ u hu op w h _ => ?_, fun within => ⟨?_, ?_⟩⟩
  · cases hrecorded : recorded with
    | none => exact absurd h (absent.1 hrecorded u hu op w)
    | some invoked =>
      exact ⟨invoked, rfl, Worlds.isSubset_iff.2 fun x hx =>
        (all invoked hrecorded x).2 ⟨u, hu, op, w, h, hx⟩⟩
  · constructor
    · intro hnone u hu op w h
      obtain ⟨invoked, hinvoked, -⟩ := within u hu op w h (unrecorded.1 hnone u hu op w h)
      cases hnone.symm.trans hinvoked
    · exact fun hnone => unrecorded.2 fun u hu op w h => absurd h (hnone u hu op w)
  · intro invoked hinvoked x
    constructor
    · intro hx
      obtain ⟨u, hu, op, w, h, -, hx⟩ := (members invoked hinvoked x).1 hx
      exact ⟨u, hu, op, w, h, hx⟩
    · rintro ⟨u, hu, op, w, h, hx⟩
      cases hasserts : scope.asserts op with
      | false => exact (members invoked hinvoked x).2 ⟨u, hu, op, w, h, hasserts, hx⟩
      | true =>
        obtain ⟨invoked', hinvoked', subset⟩ := within u hu op w h hasserts
        obtain rfl : invoked' = invoked := Option.some.inj (hinvoked'.symm.trans hinvoked)
        exact Worlds.isSubset_iff.1 subset x hx

/-- `void Assert(bool b) { _ = OnlyOnWindows; } if (IsOSPlatform("windows")) Assert(true);` -/
def assertedCall : MethodBody where
  owner := ⟨3⟩
  body := .block {} [.localFunction {} ⟨11⟩ (.memberReference {} ⟨4⟩ none),
    .conditional {} (platformCheck "windows")
      (.invocation {} ⟨11⟩ none [.literal {} (.bool true)]) none]

theorem assertedCall_listsComponents :
    assertedCall.body.ListsComponents [[.function ⟨11⟩], [.body]] := by
  have found : Search.components (CallableIndex.ofBody assertedCall.body).callees
      (CallableIndex.ofBody assertedCall.body).units = [[.body], [.function ⟨11⟩]] := by decide
  have lists := CallableIndex.listsComponents assertedCall.body
  rw [found] at lists
  exact lists

/-- What invokes the local function is an assertion. -/
theorem assertedCall_asserts {op : Operation} (hop : op ∈ assertedCall.body.ownNodes)
    (h : op.invoked? = some (.function ⟨11⟩)) :
    (WalkScope.ofBody checkReader assertedCall.body).asserts op = true := by
  have hassertion : (WalkScope.ofBody checkReader assertedCall.body).isAssertion ⟨11⟩ = true :=
    (checkReader_isAssertion _ ⟨11⟩).trans (by decide)
  have calls : assertedCall.body.ownNodes.filter (fun op => op.invoked? = some (.function ⟨11⟩)) =
      [.invocation {} ⟨11⟩ none [.literal {} (.bool true)]] := rfl
  have hcall : op ∈ assertedCall.body.ownNodes.filter
      (fun op => op.invoked? = some (.function ⟨11⟩)) := List.mem_filter.2 ⟨hop, decide_eq_true h⟩
  rw [calls, List.mem_singleton] at hcall
  rw [hcall, WalkScope.asserts, hassertion]
  rfl

theorem assertedCall_comesTo (scope : WalkScope) (w : Worlds) :
    assertedCall.body.ComesTo scope w (.invocation {} ⟨11⟩ none [.literal {} (.bool true)])
      (((platformCheck "windows").walk scope).split true w).whenTrue :=
  ((Operation.ComesTo.refl _ _).part (List.mem_cons_of_mem _ List.mem_cons_self)).part
    (List.mem_cons_of_mem _ List.mem_cons_self)

/-- The body invokes the local function and is walked before it; but as this is an assertion,
nothing is recorded. -/
theorem invokers_walked_first_assertedCall :
    let order := CallableIndex.orderOf [[.body], [.function ⟨11⟩]]
    let contractOf := (assertedCall.runUpTo checkReader {} order).1.session.cache.contractOf
      checkReader.declarations
    assertedCall.body.ListsComponents [[.function ⟨11⟩], [.body]] ∧
    order = [(.function ⟨11⟩, false)] ∧
    (assertedCall.runUpTo checkReader {} []).2 = .ok () ∧
    (assertedCall.runUpTo checkReader {} []).1.invokedIn? (.function ⟨11⟩) = none ∧
    ∃ u ∈ assertedCall.walksUpTo checkReader contractOf order, ∃ op w,
      u.Invokes (.ofBody checkReader assertedCall.body) (.function ⟨11⟩) op w := by
  intro order contractOf
  obtain ⟨-, walked⟩ := invokers_walked_first checkReader assertedCall {}
  obtain ⟨-, completes, perm, record⟩ := walked _ assertedCall_listsComponents
  obtain ⟨ran, -, recorded⟩ := record [] (.function ⟨11⟩) [] rfl
  have reached := completes rfl
  rw [ran] at reached
  have reached := BodyAnalysis.reached_of_andThen reached
  refine ⟨assertedCall_listsComponents, rfl, reached, ?_, ?_⟩
  · refine (recorded reached).1.2 fun u hu op w h => ?_
    have hunit := perm.mem_iff.1 (List.mem_map.2 ⟨u, hu, rfl⟩)
    have units : CallableIndex.unitsOf assertedCall.body = [(.body, assertedCall.body),
      (.function ⟨11⟩, .memberReference {} ⟨4⟩ none)] := rfl
    rw [units, List.mem_pair] at hunit
    rcases hunit with hbody | hfunction
    · have hop := Operation.exists_comesTo_iff.1 ⟨w, h.comes⟩
      rw [(Prod.mk.inj hbody).2] at hop
      exact assertedCall_asserts hop h.invoked
    · exact absurd (Prod.mk.inj hfunction).1 h.other
  · exact ⟨_, (MethodBody.walksUpTo_isPrefix [] order).subset (List.mem_singleton_self _), _, _,
      by decide, assertedCall_comesTo _ _, rfl⟩

end PlatformGuard
