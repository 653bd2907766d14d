import PlatformGuard.Proofs.CallableOrder
import PlatformGuard.Proofs.ConditionSplit

/-!
# Callables that escape

A callable may run at any time when it is used as a value: a local function that is referred to, a
lambda whose local is read or assigned something else, a lambda that is not assigned to a local at
all. Here this is told by the operations of the body (`Operation.Escapes`). The index of the body
finds all of these (`CallableIndex.exists_escaping`).
-/

namespace PlatformGuard

namespace Operation

/-- The locals read by the children of an operation, without the one that is invoked. -/
def readLocals : Operation → List LocalId
  | .delegateInvocation _ _ arguments => arguments.filterMap local?
  | op => op.children.filterMap local?

/-- The body defines a callable that is used in other ways than to invoke it; the code is what it
runs. -/
inductive Escapes (body : Operation) : Operation → Prop
  | referred {span span' : Span} {f : SymbolId} {code : Operation} :
      localFunction span f code ∈ body.subterms → methodReference span' f ∈ body.subterms →
      Escapes body code
  /-- The local is assigned something else, too. -/
  | reassigned {span span' : Span} {y : LocalId} {code : Operation} :
      localAssignment span y (some (lambda span' code)) ∈ body.subterms →
      1 < (body.assignedValues y).length →
      Escapes body code
  | read {span span' : Span} {y : LocalId} {code op : Operation} :
      localAssignment span y (some (lambda span' code)) ∈ body.subterms → op ∈ body.subterms →
      y ∈ op.readLocals →
      Escapes body code
  /-- The lambda stands where it is not assigned to a local. -/
  | value {span : Span} {code op : Operation} :
      op ∈ body.subterms → lambda span code ∈ op.children →
      (∀ span' y, op ≠ localAssignment span' y (some (lambda span code))) → Escapes body code
  | whole {span : Span} {code : Operation} : body = lambda span code → Escapes body code

theorem mem_subterms {op node : Operation} :
    node ∈ op.subterms ↔ node = op ∨ ∃ child ∈ op.children, node ∈ child.subterms := by
  rw [subterms_eq, List.mem_cons, List.mem_flatMap]

/-! ## Uses that make a callable escape -/

/-- The uses in the parts of an operation are uses in it, but for a local that is invoked. -/
theorem mem_callableUses_of_child {defined : CallableKey → Bool} {op child : Operation}
    {use : CallableUse} (hdef : op.isCallableDefinition = false) (hchild : child ∈ op.children)
    (hinvoked : ∀ span y arguments, op = delegateInvocation span child arguments →
      child.local? ≠ some y)
    (huse : use ∈ child.callableUses defined) : use ∈ op.callableUses defined := by
  have parts : use ∈ (op.children.map (callableUses defined)).flatten :=
    List.mem_flatten.2 ⟨_, List.mem_map_of_mem hchild, huse⟩
  cases op with
  | localFunction => exact absurd hdef (by simp [isCallableDefinition])
  | lambda => exact absurd hdef (by simp [isCallableDefinition])
  | methodReference => exact absurd hchild List.not_mem_nil
  | localReference => exact absurd hchild List.not_mem_nil
  | invocation =>
    rw [callableUses, fold_eq, ← callableUses]
    exact List.mem_append_right _ parts
  | delegateInvocation span target arguments =>
    rw [callableUses, fold_eq, ← callableUses]
    cases target with
    | localReference span' y =>
      rcases List.mem_cons.1 hchild with rfl | hargument
      · exact absurd rfl (hinvoked span y arguments rfl)
      · show use ∈ if _ then _ else _
        split
        · exact List.mem_cons_of_mem _ (List.mem_flatten.2 ⟨_, List.mem_map_of_mem hargument, huse⟩)
        · exact parts
    | _ => exact parts
  | _ =>
    rw [callableUses, fold_eq, ← callableUses]
    exact parts

/-- The uses in an operation of a unit are uses in the unit. -/
theorem mem_callableUses_of_mem_ownNodes {defined : CallableKey → Bool} {op node : Operation}
    {use : CallableUse} (hnode : node ∈ op.ownNodes) (hlocal : node.local? = none)
    (huse : use ∈ node.callableUses defined) :
    use ∈ op.callableUses defined := by
  induction op using children_induction with
  | step op ih =>
    rcases mem_ownNodes.1 hnode with rfl | ⟨hdef, child, hchild, hbelow⟩
    · exact huse
    · refine mem_callableUses_of_child hdef hchild ?_ (ih child hchild hbelow)
      -- a local that is invoked has no operations but itself
      rintro span y arguments rfl hy
      cases child with
      | localReference span' y' =>
        rw [ownNodes_eq] at hbelow
        obtain rfl : node = localReference span' y' := by
          simpa [isCallableDefinition, children] using hbelow
        exact absurd hlocal (by simp [local?])
      | _ => exact absurd hy (by simp [local?])

theorem exists_localReference_of_mem {ops : List Operation} {y : LocalId}
    (h : y ∈ ops.filterMap local?) :
    ∃ span, localReference span y ∈ ops := by
  obtain ⟨op, hop, hlocal⟩ := List.mem_filterMap.1 h
  cases op with
  | localReference span y' =>
    obtain rfl : y' = y := Option.some.inj hlocal
    exact ⟨span, hop⟩
  | _ => exact absurd hlocal (by simp [local?])

theorem escape_mem_callableUses_localReference {defined : CallableKey → Bool} (span : Span)
    (y : LocalId) :
    CallableUse.escape (.lambda y) ∈ (localReference span y).callableUses defined := by
  rw [callableUses, fold_eq]
  exact List.mem_singleton_self _

/-- A local that is read in an operation escapes there. -/
theorem escape_mem_callableUses {defined : CallableKey → Bool} {op : Operation} {y : LocalId}
    (hdef : op.isCallableDefinition = false) (hy : y ∈ op.readLocals) :
    CallableUse.escape (.lambda y) ∈ op.callableUses defined := by
  by_cases hdelegate : ∃ span target arguments, op = delegateInvocation span target arguments
  · obtain ⟨span, target, arguments, rfl⟩ := hdelegate
    obtain ⟨span', hargument⟩ := exists_localReference_of_mem hy
    rw [callableUses, fold_eq, ← callableUses]
    have inArguments : CallableUse.escape
        (.lambda y) ∈ (arguments.map (callableUses defined)).flatten :=
      List.mem_flatten.2
        ⟨_, List.mem_map_of_mem hargument, escape_mem_callableUses_localReference span' y⟩
    cases target with
    | localReference =>
      show _ ∈ if _ then _ else _
      split
      · exact List.mem_cons_of_mem _ inArguments
      · exact List.mem_append_right _ inArguments
    | _ => exact List.mem_append_right _ inArguments
  · have hchildren : op.readLocals = op.children.filterMap local? := by
      cases op with
      | delegateInvocation span target arguments =>
        exact absurd ⟨span, target, arguments, rfl⟩ hdelegate
      | _ => rfl
    rw [hchildren] at hy
    obtain ⟨span, hchild⟩ := exists_localReference_of_mem hy
    refine mem_callableUses_of_child hdef hchild ?_ (escape_mem_callableUses_localReference span y)
    intro span' y' arguments h
    exact absurd ⟨span', _, arguments, h⟩ hdelegate

/-! ## Definitions below an operation -/

/-- What a definition runs is among the code of the callables. -/
theorem mem_definedBodies {op node code : Operation} (hnode : node ∈ op.subterms)
    (hdef : node.isCallableDefinition = true) (hcode : code ∈ node.children) :
    code ∈ op.definedBodies := by
  induction op using children_induction with
  | step op ih =>
    rw [definedBodies_eq, List.mem_append]
    rcases mem_subterms.1 hnode with rfl | ⟨child, hchild, hbelow⟩
    · rw [hdef]
      exact .inl hcode
    · exact .inr (List.mem_flatMap.2 ⟨child, hchild, ih child hchild hbelow⟩)

/-- The definition sites of an operation other than an assigned lambda include those below it. -/
theorem below_subset_all {op : Operation}
    (h : ∀ span y span' code, op ≠ localAssignment span y (some (lambda span' code))) :
    op.definitionSites.below ⊆ op.definitionSites.all := by
  intro site hsite
  rw [definitionSites, fold_eq] at hsite ⊢
  split at hsite
  case h_1 => exact List.mem_cons_of_mem _ hsite
  case h_2 => exact absurd rfl (h _ _ _ _)
  case h_3 => exact List.mem_cons_of_mem _ hsite
  case h_4 => exact hsite

/-- An assigned lambda has the definition sites below the lambda. -/
theorem assigned_definitionSites (span : Span) (y : LocalId) (span' : Span) (code : Operation) :
    (localAssignment span y (some (lambda span' code))).definitionSites.all =
      .lambda y code :: (lambda span' code).definitionSites.below := by
  rw [definitionSites, fold_eq, ← definitionSites]
  simp [children]

/-- A lambda that is not assigned to a local is a definition of its own. -/
theorem anonymous_mem_definitionSites {op node code : Operation} {span : Span}
    (hnode : node ∈ op.subterms) (hlambda : lambda span code ∈ node.children)
    (hvalue : ∀ span' y, node ≠ localAssignment span' y (some (lambda span code))) :
    .anonymous code ∈ op.definitionSites.below ∧ .anonymous code ∈ op.definitionSites.all := by
  induction op using children_induction with
  | step op ih =>
    have below : ∀ child ∈ op.children, DefinitionSite.anonymous code ∈ child.definitionSites.all →
        .anonymous code ∈ op.definitionSites.below := by
      intro child hchild h
      rw [definitionSites_below]
      exact List.mem_flatMap.2 ⟨child, hchild, h⟩
    rcases mem_subterms.1 hnode with rfl | ⟨child, hchild, hbelow⟩
    · have own : DefinitionSite.anonymous code ∈ (lambda span code).definitionSites.all := by
        rw [lambda_definitionSites]
        exact List.mem_cons_self
      have inner := below _ hlambda own
      refine ⟨inner, below_subset_all ?_ inner⟩
      rintro span' y span'' code' rfl
      obtain ⟨rfl, rfl⟩ : span = span'' ∧ code = code' := by simpa [children] using hlambda
      exact hvalue span' y rfl
    · obtain ⟨inChild, atChild⟩ := ih child hchild hbelow
      refine ⟨below child hchild atChild, ?_⟩
      by_cases hassigned : ∃ span y span' code,
        op = localAssignment span y (some (lambda span' code))
      · obtain ⟨span', y, span'', code', rfl⟩ := hassigned
        obtain rfl : child = lambda span'' code' := by simpa [children] using hchild
        rw [assigned_definitionSites]
        exact List.mem_cons_of_mem _ inChild
      · push Not at hassigned
        exact below_subset_all hassigned (below child hchild atChild)

end Operation

/-! ## The index finds them -/

namespace CallableIndex

variable {body code : Operation}

/-- What a callable runs is a unit. -/
theorem exists_unit_of_mem_definedBodies (distinct : (body.definitions.map (·.key)).Nodup)
    (hcode : code ∈ body.definedBodies) : ∃ unit, (unit, code) ∈ unitsOf body := by
  have bodies : body.definedBodies = body.definitions.map (·.body) := (defineFrom_map_body 0 _).symm
  rw [bodies] at hcode
  obtain ⟨d, hd, rfl⟩ := List.mem_map.1 hcode
  refine ⟨d.key, List.mem_cons_of_mem _ ?_⟩
  rw [codeOf, firstDefinitions_of_nodup distinct]
  exact List.mem_map_of_mem (f := fun d => (d.key, d.body)) hd

/-- What is used in an operation is used in a unit. -/
theorem exists_mem_usesOf (distinct : (body.definitions.map (·.key)).Nodup) {node : Operation}
    {use : CallableUse} (hnode : node ∈ body.subterms) (hlocal : node.local? = none)
    (huse : use ∈ node.callableUses (defines body)) :
    ∃ unit, (unit, use) ∈ usesOf body := by
  rcases List.mem_append.1 (body.subterms_perm.mem_iff.1 hnode) with hown | hdefined
  · exact ⟨.body, mem_usesOf.2 ⟨body, List.mem_cons_self,
      Operation.mem_callableUses_of_mem_ownNodes hown hlocal huse⟩⟩
  · obtain ⟨code, hcode, hown⟩ := List.mem_flatMap.1 hdefined
    obtain ⟨unit, hunit⟩ := exists_unit_of_mem_definedBodies distinct hcode
    exact ⟨unit, mem_usesOf.2
      ⟨code, hunit, Operation.mem_callableUses_of_mem_ownNodes hown hlocal huse⟩⟩

/-- Where a local is read, it escapes from a unit. -/
theorem exists_escape_of_mem_readLocals (distinct : (body.definitions.map (·.key)).Nodup)
    {op : Operation} {y : LocalId} (hop : op ∈ body.subterms) (hy : y ∈ op.readLocals) :
    ∃ unit, (unit, CallableUse.escape (.lambda y)) ∈ usesOf body := by
  cases hdef : op.isCallableDefinition with
  | false =>
    have hlocal : op.local? = none := by
      cases op with
      | localReference => exact absurd hy List.not_mem_nil
      | _ => rfl
    exact exists_mem_usesOf distinct hop hlocal (Operation.escape_mem_callableUses hdef hy)
  | true =>
    -- the callable does nothing but read the local
    have hchild : ∃ span, Operation.localReference span y ∈ op.children := by
      have hchildren : op.readLocals = op.children.filterMap Operation.local? := by
        cases op with
        | delegateInvocation => exact absurd hdef Bool.false_ne_true
        | _ => rfl
      rw [hchildren] at hy
      exact Operation.exists_localReference_of_mem hy
    obtain ⟨span, hchild⟩ := hchild
    obtain ⟨unit, hunit⟩ :=
      exists_unit_of_mem_definedBodies distinct (Operation.mem_definedBodies hop hdef hchild)
    exact ⟨unit, mem_usesOf.2 ⟨_, hunit, Operation.escape_mem_callableUses_localReference span y⟩⟩

theorem length_assignedValues (y : LocalId) :
    (body.assignedValues y).length = body.assignmentCount y := by
  rw [Operation.assignedValues, Operation.assignmentCount, List.length_filterMap_eq_countP]
  refine List.countP_congr fun op _ => ?_
  split
  case h_1 => split <;> simp_all
  case h_2 => simp_all

theorem exists_mem_defs (distinct : (body.definitions.map (·.key)).Nodup) {d : CallableDef}
    (hd : d ∈ body.definitions) :
    ∃ e ∈ (ofBody body).defs, e.key = d.key ∧ e.body = d.body := by
  rw [← firstDefinitions_of_nodup distinct] at hd
  exact ⟨_, List.mem_map_of_mem hd, rfl, rfl⟩

/-- A definition is marked where it escapes by itself, by a second assignment or by a use. -/
theorem exists_marked (distinct : (body.definitions.map (·.key)).Nodup) {d : CallableDef}
    (hd : d ∈ body.definitions)
    (h : d.escapes = true ∨ (∃ y, d.key = .lambda y ∧ 1 < body.assignmentCount y) ∨
      ∃ unit, (unit, CallableUse.escape d.key) ∈ usesOf body) :
    ∃ e ∈ (ofBody body).defs, e.body = d.body ∧ e.escapes = true := by
  rw [← firstDefinitions_of_nodup distinct] at hd
  refine ⟨_, List.mem_map_of_mem hd, rfl, ?_⟩
  rw [Bool.or_eq_true, Bool.or_eq_true]
  rcases h with hself | ⟨y, hkey, hcount⟩ | ⟨unit, huse⟩
  · exact .inl (.inl hself)
  · refine .inl (.inr ?_)
    rw [hkey]
    exact decide_eq_true hcount
  · refine .inr (List.contains_iff_mem.2 ?_)
    exact List.mem_filterMap.2 ⟨_, huse, rfl⟩

/-- Whatever escapes is marked so in the index. -/
theorem exists_escaping (distinct : (body.definitions.map (·.key)).Nodup) (h : body.Escapes code) :
    ∃ d ∈ (ofBody body).defs, d.body = code ∧ d.escapes = true := by
  cases h with
  | @referred span span' f code hdefined hreferred =>
    refine exists_marked distinct (mem_definitions_function.2 ⟨span, hdefined⟩) (.inr (.inr ?_))
    refine exists_mem_usesOf distinct hreferred rfl ?_
    rw [Operation.callableUses, Operation.fold_eq]
    exact List.mem_singleton_self _
  | @reassigned span span' y code hassigned hcount =>
    rw [length_assignedValues] at hcount
    exact exists_marked distinct (mem_definitions_lambda.2 ⟨span, span', hassigned⟩)
      (.inr (.inl ⟨y, rfl, hcount⟩))
  | @read span span' y code op hassigned hop hread =>
    exact exists_marked distinct (mem_definitions_lambda.2 ⟨span, span', hassigned⟩)
      (.inr (.inr (exists_escape_of_mem_readLocals distinct hop hread)))
  | @value span code op hop hlambda hvalue =>
    obtain ⟨d, hd, n, rfl⟩ :=
      exists_mem_defineFrom (n := 0) (Operation.anonymous_mem_definitionSites hop hlambda hvalue).2
    exact exists_marked distinct hd (.inl rfl)
  | @whole span code hbody =>
    subst hbody
    have hsite : DefinitionSite.anonymous
        code ∈ (Operation.lambda span code).definitionSites.all := by
      rw [Operation.lambda_definitionSites]
      exact List.mem_cons_self
    obtain ⟨d, hd, n, rfl⟩ := exists_mem_defineFrom (n := 0) hsite
    exact exists_marked distinct hd (.inl rfl)

end CallableIndex

end PlatformGuard
