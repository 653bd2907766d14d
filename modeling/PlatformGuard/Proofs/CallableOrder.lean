import Mathlib.Data.List.Basic
import PlatformGuard.Proofs.DepthFirst
import PlatformGuard.Proofs.Units

/-!
# The order in which callables are walked

The index of a body has one definition for each key. Who invokes whom makes a graph over the body
and its callables, all of whose edges lead to callables (`CallableIndex.closed_callees`), so that
what is known of depth-first searches applies.

* `Operation.InvokersFirst`: what is asked of the order in which callables are walked.
* `Operation.ListsComponents.invokersFirst`: an order made of strongly connected components, as any
  search for them may list them, is one.
* `listsComponents`: the search of this library is such a search.
-/

namespace PlatformGuard

namespace CallableIndex

/-! ## Definitions -/

/-- The keys of a body with what each runs. -/
def codeOf (body : Operation) : List (CallableKey × Operation) :=
  (firstDefinitions body.definitions).map fun d => (d.key, d.body)

theorem ofBody_code (body : Operation) :
    ((ofBody body).defs.map fun d => (d.key, d.body)) = codeOf body := by
  show List.map _ (List.map _ _) = _
  rw [List.map_map]
  rfl

theorem ofBody_keys (body : Operation) :
    (ofBody body).defs.map (·.key) = (firstDefinitions body.definitions).map (·.key) := by
  show List.map _ (List.map _ _) = _
  rw [List.map_map]
  rfl

theorem ofBody_keys_nodup (body : Operation) : ((ofBody body).defs.map (·.key)).Nodup := by
  rw [ofBody_keys]
  exact firstDefinitions_nodup body.definitions

theorem body_not_mem_keys (body : Operation) :
    CallableKey.body ∉ (ofBody body).defs.map (·.key) := by
  rw [ofBody_keys]
  intro h
  obtain ⟨d, hd, hkey⟩ := List.mem_map.1 h
  exact body_ne_key_defineFrom (mem_of_mem_firstDefinitions hd) hkey

theorem get?_eq_some {body : Operation} {key : CallableKey} {d : CallableDef} :
    (ofBody body).get? key = some d ↔ d ∈ (ofBody body).defs ∧ d.key = key := by
  constructor
  · intro h
    exact ⟨List.mem_of_find?_eq_some h, by simpa using List.find?_some h⟩
  · rintro ⟨hd, rfl⟩
    cases hfound : (ofBody body).get? d.key with
    | none => exact absurd (List.find?_eq_none.1 hfound d hd) (by simp)
    | some e =>
      have hkey : e.key = d.key := by simpa using List.find?_some hfound
      rw [List.inj_on_of_nodup_map (ofBody_keys_nodup body)
        (List.mem_of_find?_eq_some hfound) hd hkey]

theorem get?_isSome {body : Operation} {key : CallableKey} :
    ((ofBody body).get? key).isSome = true ↔ key ∈ (ofBody body).defs.map (·.key) := by
  rw [Option.isSome_iff_exists, List.mem_map]
  exact exists_congr fun d => get?_eq_some

/-! ## Invocations -/

theorem mem_foldl_addInvocation {pairs known : List (CallableKey × CallableKey)}
    {pair : CallableKey × CallableKey} :
    pair ∈ pairs.foldl addInvocation known ↔ pair ∈ known ∨ pair ∈ pairs := by
  induction pairs generalizing known with
  | nil => simp
  | cons first rest ih =>
    have added : pair ∈ addInvocation known first ↔ pair ∈ known ∨ pair = first := by
      rw [addInvocation]
      split
      case isTrue h =>
        constructor
        · exact .inl
        · rintro (hknown | rfl)
          · exact hknown
          · exact h
      case isFalse => rw [List.mem_append, List.mem_singleton]
    rw [List.foldl_cons, ih, added, List.mem_cons, or_assoc]

def defines (body : Operation) (key : CallableKey) : Bool :=
  (firstDefinitions body.definitions).any fun d => d.key = key

theorem defines_iff {body : Operation} {key : CallableKey} :
    defines body key = true ↔ key ∈ (ofBody body).defs.map (·.key) := by
  rw [ofBody_keys, defines, List.any_eq_true, List.mem_map]
  simp only [decide_eq_true_eq]

/-- The units of a body with what each runs: the body first, then the callables. -/
def unitsOf (body : Operation) : List (CallableKey × Operation) :=
  (.body, body) :: codeOf body

theorem units_ofBody (body : Operation) : (ofBody body).units = (unitsOf body).map (·.1) := by
  rw [units, ofBody_keys, unitsOf, codeOf, List.map_cons, List.map_map]
  rfl

def usesOf (body : Operation) : List (CallableKey × CallableUse) :=
  (unitsOf body).flatMap fun u => (u.2.callableUses (defines body)).map fun use => (u.1, use)

theorem mem_usesOf {body : Operation} {unit : CallableKey} {use : CallableUse} :
    (unit, use) ∈ usesOf body ↔ ∃ code, (unit, code) ∈ unitsOf body ∧
    use ∈ code.callableUses (defines body) := by
  rw [usesOf, List.mem_flatMap]
  constructor
  · rintro ⟨⟨key, code⟩, hunit, hmap⟩
    obtain ⟨use', huse, heq⟩ := List.mem_map.1 hmap
    obtain ⟨rfl, rfl⟩ := Prod.mk.inj heq
    exact ⟨code, hunit, huse⟩
  · rintro ⟨code, hunit, huse⟩
    exact ⟨(unit, code), hunit, List.mem_map_of_mem huse⟩

/-- A unit invokes the callables that are so used in it. -/
theorem mem_callees {body : Operation} {unit callee : CallableKey} :
    callee ∈ (ofBody body).callees unit ↔
      ∃ code, (unit, code) ∈ unitsOf body ∧
      CallableUse.invoke callee ∈ code.callableUses (defines body) := by
  have pairs : (unit, callee) ∈ (ofBody body).invocations ↔
      (unit, CallableUse.invoke callee) ∈ usesOf body := by
    refine mem_foldl_addInvocation.trans ?_
    show (unit, callee) ∈ [] ∨ (unit, callee) ∈ (usesOf body).filterMap _ ↔ _
    rw [List.mem_filterMap]
    constructor
    · rintro (hnone | ⟨⟨unit', use⟩, huse, hpair⟩)
      · exact absurd hnone List.not_mem_nil
      · cases use with
        | invoke callee' =>
          obtain ⟨rfl, rfl⟩ := Prod.mk.inj (Option.some.inj hpair)
          exact huse
        | escape callee' => exact absurd hpair (by simp)
    · exact fun huse => .inr ⟨_, huse, rfl⟩
  rw [callees, List.mem_reverse, List.mem_map, ← mem_usesOf, ← pairs]
  constructor
  · rintro ⟨⟨unit', callee'⟩, hpair, rfl⟩
    obtain ⟨hmem, hunit⟩ := List.mem_filter.1 hpair
    rw [← of_decide_eq_true hunit]
    exact hmem
  · intro h
    exact ⟨(unit, callee), List.mem_filter.2 ⟨h, decide_eq_true rfl⟩, rfl⟩

end CallableIndex

namespace Operation

/-- The callable that an operation invokes, if it is one of the body. -/
def invoked? : Operation → Option CallableKey
  | .invocation _ target _ _ => some (.function target)
  | .delegateInvocation _ (.localReference _ x) _ => some (.lambda x)
  | _ => none

theorem mem_ownNodes {op node : Operation} :
    node ∈ op.ownNodes ↔ node = op ∨
    (op.isCallableDefinition = false ∧ ∃ child ∈ op.children, node ∈ child.ownNodes) := by
  rw [ownNodes_eq]
  cases op.isCallableDefinition with
  | true => simp
  | false => simp [or_comm]

/-- The invocations in a unit are those of an operation and those in its parts. -/
theorem invoke_mem_callableUses_iff {defined : CallableKey → Bool} {callee : CallableKey}
    {op : Operation} :
    CallableUse.invoke callee ∈ op.callableUses defined ↔
      (defined callee = true ∧ op.invoked? = some callee) ∨ (op.isCallableDefinition = false ∧
        ∃ child ∈ op.children, CallableUse.invoke callee ∈ child.callableUses defined) := by
  have parts : ∀ ops : List Operation,
    CallableUse.invoke callee ∈ (ops.map (callableUses defined)).flatten ↔
      ∃ child ∈ ops, CallableUse.invoke callee ∈ child.callableUses defined := by
    intro ops
    rw [← List.flatMap_def, List.mem_flatMap]
  have other : op.isCallableDefinition = false → op.invoked? = none →
      op.callableUses defined = (op.children.map (callableUses defined)).flatten →
      (CallableUse.invoke callee ∈ op.callableUses defined ↔
        (defined callee = true ∧ op.invoked? = some callee) ∨
        (op.isCallableDefinition = false ∧
          ∃ child ∈ op.children, CallableUse.invoke callee ∈ child.callableUses defined)) := by
    intro hdef hnone huses
    rw [huses, parts, hnone, hdef]
    simp
  cases op with
  | invocation span target receiver arguments =>
    rw [callableUses, fold_eq, ← callableUses, List.mem_append, parts]
    have own : CallableUse.invoke
      callee ∈ (if defined (.function target) then [CallableUse.invoke (.function target)]
        else []) ↔ defined callee = true ∧ CallableKey.function target = callee := by
      constructor
      · intro h
        split at h
        case isTrue hdefined =>
          obtain rfl : callee = .function target := by simpa using h
          exact ⟨hdefined, rfl⟩
        case isFalse => exact absurd h List.not_mem_nil
      · rintro ⟨hdefined, rfl⟩
        simp [hdefined]
    simp [own, invoked?, isCallableDefinition]
  | delegateInvocation span target arguments =>
    cases target with
    | localReference span' x =>
      have escape : (localReference span' x).callableUses defined = [.escape (.lambda x)] := by
        rw [callableUses, fold_eq]
      rw [callableUses, fold_eq, ← callableUses]
      by_cases hdefined : defined (.lambda x) = true
      · have own : callee = .lambda x ↔ defined callee = true ∧ CallableKey.lambda x = callee :=
          ⟨fun h => ⟨h ▸ hdefined, h.symm⟩, fun h => h.2.symm⟩
        simp [hdefined, children, invoked?, isCallableDefinition, escape, own]
      · have own : ¬ (defined callee = true ∧ CallableKey.lambda x = callee) := by
          rintro ⟨h, rfl⟩
          exact hdefined h
        simp [hdefined, children, invoked?, isCallableDefinition, escape, own]
    | _ =>
      refine other rfl rfl ?_
      rw [callableUses, fold_eq, ← callableUses]
  | methodReference span method =>
    rw [callableUses, fold_eq]
    simp [invoked?, children]
  | localReference span x =>
    rw [callableUses, fold_eq]
    simp [invoked?, children]
  | localFunction span symbol body =>
    rw [callableUses, fold_eq]
    simp [invoked?, isCallableDefinition]
  | lambda span body =>
    rw [callableUses, fold_eq]
    simp [invoked?, isCallableDefinition]
  | _ =>
    refine other rfl rfl ?_
    rw [callableUses, fold_eq, ← callableUses]

/-- A unit invokes what one of its operations invokes. -/
theorem invoke_mem_callableUses {defined : CallableKey → Bool} {callee : CallableKey}
    {op : Operation} :
    CallableUse.invoke callee ∈ op.callableUses defined ↔
      defined callee = true ∧ ∃ node ∈ op.ownNodes, node.invoked? = some callee := by
  induction op using children_induction with
  | step op ih =>
    rw [invoke_mem_callableUses_iff]
    constructor
    · rintro (⟨hdefined, hop⟩ | ⟨hdef, child, hchild, huse⟩)
      · exact ⟨hdefined, op, mem_ownNodes.2 (.inl rfl), hop⟩
      · obtain ⟨hdefined, node, hnode, hinvoked⟩ := (ih child hchild).1 huse
        exact ⟨hdefined, node, mem_ownNodes.2 (.inr ⟨hdef, child, hchild, hnode⟩), hinvoked⟩
    · rintro ⟨hdefined, node, hnode, hinvoked⟩
      rcases mem_ownNodes.1 hnode with rfl | ⟨hdef, child, hchild, hnode⟩
      · exact .inl ⟨hdefined, hinvoked⟩
      · exact .inr ⟨hdef, child, hchild, (ih child hchild).2 ⟨hdefined, node, hnode, hinvoked⟩⟩

end Operation

/-- One unit of a body invokes a callable of the body: one of its operations does. -/
def Operation.UnitInvokes (body : Operation) (unit callee : CallableKey) : Prop :=
  callee ∈ body.definitions.map (·.key) ∧
    ∃ code, (unit, code) ∈ CallableIndex.unitsOf body ∧ ∃ op ∈ code.ownNodes,
    op.invoked? = some callee

namespace CallableIndex

theorem mem_callees_iff {body : Operation} {unit callee : CallableKey} :
    callee ∈ (ofBody body).callees unit ↔ body.UnitInvokes unit callee := by
  have defined : defines body callee = true ↔ callee ∈ body.definitions.map (·.key) := by
    rw [defines_iff, ofBody_keys, mem_firstDefinitions_keys]
  rw [mem_callees]
  constructor
  · rintro ⟨code, hcode, huse⟩
    obtain ⟨hdefined, hop⟩ := Operation.invoke_mem_callableUses.1 huse
    exact ⟨defined.1 hdefined, code, hcode, hop⟩
  · rintro ⟨hdefined, code, hcode, hop⟩
    exact ⟨code, hcode, Operation.invoke_mem_callableUses.2 ⟨defined.2 hdefined, hop⟩⟩

theorem reaches_eq (body : Operation) :
    Search.Reaches (ofBody body).callees = Relation.ReflTransGen body.UnitInvokes := by
  have edges : Search.Edge (ofBody body).callees = body.UnitInvokes :=
    funext fun unit => funext fun callee => propext mem_callees_iff
  rw [← edges]
  rfl

theorem closed_callees (body : Operation) :
    Search.Closed (ofBody body).callees (ofBody body).units := by
  intro unit _ callee hcallee
  obtain ⟨code, -, huse⟩ := mem_callees.1 hcallee
  exact List.mem_cons_of_mem _ (defines_iff.1 (Operation.invoke_mem_callableUses.1 huse).1)

/-! ## Orders of walks -/

end CallableIndex

namespace Operation

variable {body : Operation} {order : List (CallableKey × Bool)}
    {components : List (List CallableKey)}

theorem body_notMem_definitions (body : Operation) : .body ∉ body.definitions.map (·.key) := by
  rw [← mem_firstDefinitions_keys, ← CallableIndex.ofBody_keys]
  exact CallableIndex.body_not_mem_keys body

/-- Nothing invokes the body. -/
theorem mem_definitions_of_reaches {key other : CallableKey} (hne : other ≠ key)
    (h : Relation.ReflTransGen body.UnitInvokes key other) :
    other ∈ body.definitions.map (·.key) := by
  rcases Relation.ReflTransGen.cases_tail h with rfl | ⟨unit, -, hinvokes⟩
  · exact absurd rfl hne
  · exact hinvokes.1

/-- An order of the callables of a body in which invokers come first: each callable stands in it
once, with whether it is on a cycle with another one, and after all units that invoke it, unless
these are on a cycle with it. -/
structure InvokersFirst (body : Operation) (order : List (CallableKey × Bool)) : Prop where
  nodup : (order.map (·.1)).Nodup
  mem_iff : ∀ key, key ∈ order.map (·.1) ↔ key ∈ body.definitions.map (·.key)
  body_notMem : .body ∉ order.map (·.1)
  cyclic_iff : ∀ key cyclic, (key, cyclic) ∈ order → (cyclic = true ↔
    ∃ other ∈ body.definitions.map (·.key), other ≠ key ∧
      Relation.ReflTransGen body.UnitInvokes key other ∧
      Relation.ReflTransGen body.UnitInvokes other key)
  invoker : ∀ unit key, body.UnitInvokes unit key →
    ¬ Relation.ReflTransGen body.UnitInvokes key unit →
    ∀ earlier cyclic later, order = earlier ++ (key, cyclic) :: later →
      unit = .body ∨ unit ∈ earlier.map (·.1)

/-- A callable on no cycle with others comes after all that invoke it. -/
theorem InvokersFirst.mem_earlier (first : body.InvokersFirst order)
    {earlier later : List (CallableKey × Bool)} {unit callee : CallableKey}
    (split : order = earlier ++ (callee, false) :: later) (h : body.UnitInvokes unit callee)
    (hne : unit ≠ callee) : unit = .body ∨ unit ∈ earlier.map (·.1) := by
  refine first.invoker unit callee h (fun hreach => ?_) earlier false later split
  have cycle : false = true := (first.cyclic_iff callee false (by simp [split])).2
    ⟨unit, mem_definitions_of_reaches hne hreach, hne, hreach, .single h⟩
  exact Bool.false_ne_true cycle

/-- What a search for strongly connected components gives for the units of a body: each unit is in
one component, with those that it reaches and that reach it, and components stand in reverse
topological order, so that none invokes what is in a later one. -/
structure ListsComponents (body : Operation) (components : List (List CallableKey)) : Prop where
  nodup : components.flatten.Nodup
  mem_iff : ∀ unit, unit ∈ components.flatten ↔
    unit = .body ∨ unit ∈ body.definitions.map (·.key)
  linked : ∀ component ∈ components, ∀ unit ∈ component, ∀ other, other ∈ component ↔
    Relation.ReflTransGen body.UnitInvokes unit other ∧
      Relation.ReflTransGen body.UnitInvokes other unit
  reverseTopological : components.Pairwise fun earlier later =>
    ∀ unit ∈ earlier, ∀ callee ∈ later, ¬ body.UnitInvokes unit callee

end Operation

namespace CallableIndex

theorem orderOf_keys (components : List (List CallableKey)) :
    (orderOf components).map (·.1) = components.flatten.filter fun key => key ≠ .body := by
  induction components with
  | nil => rfl
  | cons component rest ih =>
    have first : ((component.map fun key => (key, decide (1 < component.length))).filter
        fun e => e.1 ≠ .body).map (·.1) = component.filter fun key => key ≠ .body := by
      rw [List.filter_map, List.map_map]
      exact List.map_id _
    rw [orderOf, List.flatMap_cons, List.filter_append, List.map_append, first, List.flatten_cons,
      List.filter_append, ← ih, orderOf]

theorem mem_orderOf {components : List (List CallableKey)} {key : CallableKey} {cyclic : Bool} :
    (key, cyclic) ∈ orderOf components ↔ key ≠ .body ∧
      ∃ component ∈ components, key ∈ component ∧ decide (1 < component.length) = cyclic := by
  rw [orderOf, List.mem_filter, List.mem_flatMap, and_comm, decide_eq_true_eq]
  refine and_congr_right fun _ => exists_congr fun component => and_congr_right fun _ => ?_
  rw [List.mem_map]
  constructor
  · rintro ⟨key', hkey, heq⟩
    obtain ⟨rfl, hcyclic⟩ := Prod.mk.inj heq
    exact ⟨hkey, hcyclic⟩
  · rintro ⟨hkey, rfl⟩
    exact ⟨key, hkey, rfl⟩

end CallableIndex

namespace Operation.ListsComponents

variable {body : Operation} {components : List (List CallableKey)}

/-- A unit that invokes what stands before it in the order is on a cycle with it. -/
theorem pairwise_orderOf (h : body.ListsComponents components) :
    (CallableIndex.orderOf components.reverse).Pairwise fun callee unit =>
      body.UnitInvokes unit.1 callee.1 →
      Relation.ReflTransGen body.UnitInvokes callee.1 unit.1 := by
  refine List.Pairwise.filter _ (List.pairwise_flatMap.2 ⟨fun component hcomponent => ?_, ?_⟩)
  · -- within a component all are on cycles with each other
    refine List.pairwise_map.2
      (List.pairwise_of_forall_mem_list fun callee hcallee unit hunit _ => ?_)
    exact ((h.linked component (List.mem_reverse.1 hcomponent) callee hcallee unit).1 hunit).1
  · refine List.pairwise_reverse.2 (h.reverseTopological.imp fun apart => ?_)
    intro callee hcallee unit hunit hinvokes
    obtain ⟨callee', hcallee', rfl⟩ := List.mem_map.1 hcallee
    obtain ⟨unit', hunit', rfl⟩ := List.mem_map.1 hunit
    exact absurd hinvokes (apart unit' hunit' callee' hcallee')

/-- Components in topological order give an order in which invokers come first. -/
theorem invokersFirst (h : body.ListsComponents components) :
    body.InvokersFirst (CallableIndex.orderOf components.reverse) := by
  have units : components.reverse.flatten.Perm components.flatten :=
    (List.reverse_perm components).flatten
  have keys : ∀ key, key ∈ (CallableIndex.orderOf components.reverse).map (·.1) ↔
      key ∈ body.definitions.map (·.key) := by
    intro key
    rw [CallableIndex.orderOf_keys, List.mem_filter, units.mem_iff, h.mem_iff, decide_eq_true_eq]
    constructor
    · rintro ⟨hunit, hne⟩
      exact hunit.resolve_left hne
    · intro hkey
      exact ⟨.inr hkey, fun heq => body_notMem_definitions body (heq ▸ hkey)⟩
  refine ⟨?_, keys, fun hbody => body_notMem_definitions body ((keys _).1 hbody), ?_, ?_⟩
  · rw [CallableIndex.orderOf_keys]
    exact (units.nodup_iff.2 h.nodup).filter _
  · intro key cyclic hmem
    obtain ⟨-, component, hcomponent, hkey, rfl⟩ := CallableIndex.mem_orderOf.1 hmem
    rw [List.mem_reverse] at hcomponent
    have nodup : component.Nodup := (List.nodup_flatten.1 h.nodup).1 component hcomponent
    have others : 1 < component.length ↔ ∃ other, other ∈ component.erase key := by
      rw [← List.length_pos_iff_exists_mem, List.length_erase_of_mem hkey]
      omega
    rw [decide_eq_true_eq, others]
    refine exists_congr fun other => ?_
    rw [nodup.mem_erase_iff, h.linked component hcomponent key hkey]
    exact ⟨fun ⟨hne, cycle⟩ => ⟨mem_definitions_of_reaches hne cycle.1, hne, cycle⟩, And.right⟩
  · intro unit key hinvokes apart earlier cyclic later split
    by_cases hbody : unit = .body
    · exact .inl hbody
    have hunit : unit ∈ (CallableIndex.orderOf components.reverse).map (·.1) := by
      obtain ⟨-, code, hcode, -⟩ := hinvokes
      have hmem : unit ∈ (CallableIndex.ofBody body).units := by
        rw [CallableIndex.units_ofBody]
        exact List.mem_map_of_mem hcode
      rw [keys, ← mem_firstDefinitions_keys, ← CallableIndex.ofBody_keys]
      exact (List.mem_cons.1 hmem).resolve_left hbody
    have later_apart :=
      (List.pairwise_cons.1 (List.pairwise_append.1 (split ▸ h.pairwise_orderOf)).2.1).1
    rw [split, List.map_append, List.map_cons, List.mem_append, List.mem_cons] at hunit
    rcases hunit with hearlier | rfl | hlater
    · exact .inr hearlier
    · exact absurd .refl apart
    · obtain ⟨entry, hentry, rfl⟩ := List.mem_map.1 hlater
      exact absurd (later_apart entry hentry hinvokes) apart

end Operation.ListsComponents

namespace CallableIndex

/-- The search lists the components, the last one first. -/
theorem listsComponents (body : Operation) :
    body.ListsComponents (Search.components (ofBody body).callees (ofBody body).units).reverse := by
  have closed := closed_callees body
  have units : (Search.components (ofBody body).callees (ofBody body).units).reverse.flatten.Perm
      (Search.components (ofBody body).callees (ofBody body).units).flatten :=
    (List.reverse_perm _).flatten
  have mem_units : ∀ unit, unit ∈ (ofBody body).units ↔
      unit = .body ∨ unit ∈ body.definitions.map (·.key) := by
    intro unit
    rw [CallableIndex.units, List.mem_cons, ofBody_keys, mem_firstDefinitions_keys]
  refine ⟨units.nodup_iff.2 (Search.components_flatten_nodup closed), fun unit => ?_, ?_, ?_⟩
  · rw [units.mem_iff, Search.mem_components_flatten closed, mem_units]
  · intro component hcomponent unit hunit other
    have linked := fun {key} => Search.mem_iff_of_mem_components closed
      (List.mem_reverse.1 hcomponent) (b := key) hunit
    rw [linked, reaches_eq]
    refine and_iff_right_of_imp fun cycle => ?_
    rw [← reaches_eq] at cycle
    exact cycle.1.mem closed (linked.1 hunit).1
  · refine List.pairwise_reverse.2 ((Search.components_pairwise closed).imp fun apart => ?_)
    intro unit hunit callee hcallee hinvokes
    exact apart callee hcallee unit hunit (mem_callees_iff.2 hinvokes)

theorem walkOrder_invokersFirst (body : Operation) :
    body.InvokersFirst (ofBody body).walkOrder := by
  have first := (listsComponents body).invokersFirst
  rw [List.reverse_reverse] at first
  exact first

end CallableIndex

end PlatformGuard
