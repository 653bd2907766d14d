import Mathlib.Data.List.Perm.Basic
import PlatformGuard.Callable.Index
import PlatformGuard.Proofs.OperationTree

/-!
# The units of a body

A body falls into units: what it runs itself, and what each callable defined in it runs. Every
operation of the body belongs to one unit (`Operation.subterms_perm`). A definition belongs to the
unit it stands in, the operations below it to the callable.

A key may be defined more than once. The first definition counts;
`repeatedDefinitions` are the others.
-/

namespace PlatformGuard

/-- What the callable runs. -/
def DefinitionSite.body : DefinitionSite → Operation
  | function _ body | lambda _ body | anonymous body => body

/-- Whether the callable has a name by which it is invoked. -/
def DefinitionSite.isNamed : DefinitionSite → Bool
  | function .. | lambda .. => true
  | anonymous _ => false

namespace Operation

def ownNodes : Operation → List Operation :=
  fold fun op parts => if op.isCallableDefinition then [op] else parts.flatten ++ [op]

theorem ownNodes_eq (op : Operation) :
    op.ownNodes =
      if op.isCallableDefinition then [op] else op.children.flatMap ownNodes ++ [op] := by
  rw [ownNodes, fold_eq, ← ownNodes, List.flatMap_def]

/-- What the callables of an operation run, in the order of the text. -/
def definedBodies (op : Operation) : List Operation :=
  op.definitionSites.all.map DefinitionSite.body

theorem definitionSites_below (op : Operation) :
    op.definitionSites.below = op.children.flatMap fun child => child.definitionSites.all := by
  rw [definitionSites, fold_eq, ← definitionSites, List.flatMap_map]
  split <;> rfl

/-- A lambda that is not assigned comes before the definitions inside it. -/
theorem lambda_definitionSites (span : Span) (body : Operation) :
    (lambda span body).definitionSites.all = .anonymous body ::
    (lambda span body).definitionSites.below := by
  rw [definitionSites, fold_eq]

/-- A definition comes before those inside it, and a lambda that is assigned counts where it
stands. -/
theorem definedBodies_eq (op : Operation) :
    op.definedBodies = (if op.isCallableDefinition then op.children else []) ++
    op.children.flatMap definedBodies := by
  have inner : (op.children.flatMap fun child => child.definitionSites.all).map
    DefinitionSite.body =
      op.children.flatMap definedBodies := List.map_flatMap
  rw [definedBodies, definitionSites, fold_eq, ← definitionSites, List.flatMap_map, ← inner]
  split
  case h_1 => rfl
  case h_2 span x span' body =>
    -- the lambda below the assignment is a definition itself, with the same body
    simp [children, isCallableDefinition, lambda_definitionSites, DefinitionSite.body]
  case h_3 => rfl
  case h_4 function _ lambda => cases op <;>
    first | rfl | exact absurd rfl (function _ _ _) | exact absurd rfl (lambda _ _)

/-- Every operation belongs to one unit. -/
theorem subterms_perm (op : Operation) :
    op.subterms.Perm (op.ownNodes ++ op.definedBodies.flatMap ownNodes) := by
  induction op using children_induction with
  | step op ih =>
    have below : (op.children.flatMap subterms).Perm
        (op.children.flatMap ownNodes ++ (op.children.flatMap definedBodies).flatMap ownNodes) := by
      rw [List.flatMap_assoc]
      exact (List.Perm.flatMap_left _ ih).trans (List.flatMap_append_perm _ _ _).symm
    rw [subterms_eq, ownNodes_eq, definedBodies_eq]
    cases hdef : op.isCallableDefinition with
    | false =>
      simp only [Bool.false_eq_true, if_false, List.nil_append]
      exact (below.cons op).trans (by
        rw [List.append_assoc, List.singleton_append]
        exact List.perm_middle.symm)
    | true =>
      simp only [if_true, List.singleton_append, List.flatMap_append]
      exact below.cons op

/-- The definition of a callable that has a name: a local function, or a lambda
assigned to a local. -/
def namedSite? : Operation → Option DefinitionSite
  | localFunction _ symbol body => some (.function symbol body)
  | localAssignment _ x (some (lambda _ body)) => some (.lambda x body)
  | _ => none

/-- The callables with a name are defined by the operations of the tree. -/
theorem filter_isNamed_definitionSites (op : Operation) :
    op.definitionSites.all.filter DefinitionSite.isNamed = op.subterms.filterMap namedSite? := by
  induction op using children_induction with
  | step op ih =>
    have inner : (op.children.flatMap fun child => child.definitionSites.all).filter
      DefinitionSite.isNamed =
        (op.children.flatMap subterms).filterMap namedSite? := by
      rw [List.filter_flatMap, List.filterMap_flatMap]
      exact List.flatMap_congr ih
    rw [subterms_eq, List.filterMap_cons, ← inner]
    rw [definitionSites, fold_eq, ← definitionSites, List.flatMap_map]
    split
    case h_1 => rfl
    case h_2 span x span' body =>
      simp [children, namedSite?, lambda_definitionSites, DefinitionSite.isNamed, List.filter_cons]
    case h_3 => rfl
    case h_4 function assignment lambda =>
      have none : op.namedSite? = none := by
        unfold namedSite?
        split
        case h_1 => exact absurd rfl (function _ _ _)
        case h_2 => exact absurd rfl (assignment _ _ _ _)
        case h_3 => rfl
      rw [none]

/-- All definitions of a body, also those of keys that were defined before. -/
def definitions (body : Operation) : List CallableDef :=
  defineFrom 0 body.definitionSites.all

end Operation

/-! ## First definitions -/

theorem defineFrom_map_body (n : Nat) (sites : List DefinitionSite) :
    (defineFrom n sites).map (·.body) = sites.map DefinitionSite.body := by
  induction sites generalizing n with
  | nil => rfl
  | cons site rest ih =>
    cases site with
    | function symbol body => exact congrArg (body :: ·) (ih n)
    | lambda x body => exact congrArg (body :: ·) (ih n)
    | anonymous body => exact congrArg (body :: ·) (ih (n + 1))

def DefinitionSite.Defines : DefinitionSite → CallableDef → Prop
  | function symbol body, d => d = ⟨.function symbol, body, false⟩
  | lambda x body, d => d = ⟨.lambda x, body, false⟩
  | anonymous body, d => ∃ n, d = ⟨.anonymous n, body, true⟩

theorem exists_site_of_mem_defineFrom {n : Nat} {sites : List DefinitionSite} {d : CallableDef}
    (hd : d ∈ defineFrom n sites) : ∃ site ∈ sites, site.Defines d := by
  induction sites generalizing n with
  | nil => exact absurd hd List.not_mem_nil
  | cons site rest ih =>
    have later : ∀ {m}, d ∈ defineFrom m rest → ∃ site' ∈ site :: rest, site'.Defines d := by
      intro m hm
      obtain ⟨site', hsite, hdefines⟩ := ih hm
      exact ⟨site', List.mem_cons_of_mem _ hsite, hdefines⟩
    cases site with
    | function symbol body =>
      rcases List.mem_cons.1 hd with rfl | hd
      · exact ⟨_, List.mem_cons_self, rfl⟩
      · exact later hd
    | lambda x body =>
      rcases List.mem_cons.1 hd with rfl | hd
      · exact ⟨_, List.mem_cons_self, rfl⟩
      · exact later hd
    | anonymous body =>
      rcases List.mem_cons.1 hd with rfl | hd
      · exact ⟨_, List.mem_cons_self, n, rfl⟩
      · exact later hd

theorem exists_mem_defineFrom {n : Nat} {sites : List DefinitionSite} {site : DefinitionSite}
    (h : site ∈ sites) :
    ∃ d ∈ defineFrom n sites, site.Defines d := by
  induction sites generalizing n with
  | nil => exact absurd h List.not_mem_nil
  | cons first rest ih =>
    rcases List.mem_cons.1 h with rfl | hrest
    · cases site with
      | function | lambda => exact ⟨_, List.mem_cons_self, rfl⟩
      | anonymous => exact ⟨_, List.mem_cons_self, n, rfl⟩
    · cases first with
      | function | lambda =>
        obtain ⟨d, hd, hdefines⟩ := ih (n := n) hrest
        exact ⟨d, List.mem_cons_of_mem _ hd, hdefines⟩
      | anonymous =>
        obtain ⟨d, hd, hdefines⟩ := ih (n := n + 1) hrest
        exact ⟨d, List.mem_cons_of_mem _ hd, hdefines⟩

theorem body_ne_key_defineFrom {n : Nat} {sites : List DefinitionSite} {d : CallableDef}
    (hd : d ∈ defineFrom n sites) : d.key ≠ .body := by
  obtain ⟨site, -, hdefines⟩ := exists_site_of_mem_defineFrom hd
  cases site with
  | function | lambda =>
    rw [hdefines]
    exact CallableKey.noConfusion
  | anonymous =>
    obtain ⟨m, rfl⟩ := hdefines
    exact CallableKey.noConfusion

/-- The site of a callable with a name has one definition. -/
theorem DefinitionSite.Defines.definition_unique {site : DefinitionSite} {d e : CallableDef}
    (h : site.Defines d) (named : site.isNamed = true) (h' : site.Defines e) : e = d := by
  cases site with
  | function | lambda => exact Eq.trans h' (Eq.symm h)
  | anonymous => exact absurd named Bool.false_ne_true

/-- A callable with a name has one site. -/
theorem DefinitionSite.Defines.site_unique {site site' : DefinitionSite} {d : CallableDef}
    (h : site.Defines d) (named : site.isNamed = true) (h' : site'.Defines d) : site' = site := by
  cases site with
  | function | lambda =>
    obtain rfl := h
    cases site' with
    | function | lambda => cases h' <;> rfl
    | anonymous =>
      obtain ⟨n, hn⟩ := h'
      cases hn
  | anonymous => exact absurd named Bool.false_ne_true

/-- The callables with a name are defined by the operations of the body. -/
theorem mem_definitions_iff {body : Operation} {d : CallableDef} (site : DefinitionSite)
    (named : site.isNamed = true) (h : site.Defines d) :
    d ∈ body.definitions ↔ ∃ op ∈ body.subterms, op.namedSite? = some site := by
  have filtered : site ∈ body.definitionSites.all.filter DefinitionSite.isNamed ↔
      site ∈ body.definitionSites.all :=
    List.mem_filter.trans (and_iff_left named)
  rw [← List.mem_filterMap, ← Operation.filter_isNamed_definitionSites, filtered]
  constructor
  · intro hd
    obtain ⟨site', hsite, hdefines⟩ := exists_site_of_mem_defineFrom hd
    rw [← h.site_unique named hdefines]
    exact hsite
  · intro hsite
    obtain ⟨d', hd, hdefines⟩ := exists_mem_defineFrom hsite
    rw [← h.definition_unique named hdefines]
    exact hd

theorem mem_definitions_function {body code : Operation} {symbol : SymbolId} :
    (⟨.function symbol, code, false⟩ : CallableDef) ∈ body.definitions ↔
      ∃ span, Operation.localFunction span symbol code ∈ body.subterms := by
  rw [mem_definitions_iff (.function symbol code) rfl rfl]
  constructor
  · rintro ⟨op, hop, hsite⟩
    unfold Operation.namedSite? at hsite
    split at hsite
    case h_1 span symbol' code' =>
      obtain ⟨rfl, rfl⟩ := DefinitionSite.function.inj (Option.some.inj hsite)
      exact ⟨span, hop⟩
    case h_2 => exact absurd hsite (by simp)
    case h_3 => exact absurd hsite (by simp)
  · rintro ⟨span, hop⟩
    exact ⟨_, hop, rfl⟩

/-- Only anonymous lambdas escape by their definition. -/
theorem eq_of_key_ne_anonymous {body : Operation} {d : CallableDef} (hd : d ∈ body.definitions)
    (hkey : ∀ n, d.key ≠ .anonymous n) : d = ⟨d.key, d.body, false⟩ := by
  obtain ⟨site, -, hdefines⟩ := exists_site_of_mem_defineFrom hd
  cases site with
  | function | lambda =>
    obtain rfl := hdefines
    rfl
  | anonymous =>
    obtain ⟨n, rfl⟩ := hdefines
    exact absurd rfl (hkey n)

/-- Whether a local function is defined somewhere in a body. -/
def Operation.definesFunction (body : Operation) (symbol : SymbolId) : Bool :=
  body.subterms.any fun
    | .localFunction _ name _ => name = symbol
    | _ => false

theorem mem_keys_definitions_function {body : Operation} {symbol : SymbolId} :
    CallableKey.function symbol ∈ body.definitions.map (·.key) ↔
      body.definesFunction symbol = true := by
  rw [Operation.definesFunction, List.any_eq_true, List.mem_map]
  constructor
  · rintro ⟨d, hd, hkey⟩
    rw [eq_of_key_ne_anonymous hd (by simp [hkey]), hkey] at hd
    obtain ⟨span, hop⟩ := mem_definitions_function.1 hd
    exact ⟨_, hop, decide_eq_true rfl⟩
  · rintro ⟨op, hop, hfunction⟩
    split at hfunction
    case h_1 span name code =>
      obtain rfl := of_decide_eq_true hfunction
      exact ⟨_, mem_definitions_function.2 ⟨span, hop⟩, rfl⟩
    case h_2 => exact absurd hfunction Bool.false_ne_true

theorem mem_definitions_lambda {body code : Operation} {x : LocalId} :
    (⟨.lambda x, code, false⟩ : CallableDef) ∈ body.definitions ↔
      ∃ span span', Operation.localAssignment span x
        (some (.lambda span' code)) ∈ body.subterms := by
  rw [mem_definitions_iff (.lambda x code) rfl rfl]
  constructor
  · rintro ⟨op, hop, hsite⟩
    unfold Operation.namedSite? at hsite
    split at hsite
    case h_1 => exact absurd hsite (by simp)
    case h_2 span x' span' code' =>
      obtain ⟨rfl, rfl⟩ := DefinitionSite.lambda.inj (Option.some.inj hsite)
      exact ⟨span, span', hop⟩
    case h_3 => exact absurd hsite (by simp)
  · rintro ⟨span, span', hop⟩
    exact ⟨_, hop, rfl⟩

/-- Whether a lambda is assigned to a local somewhere in a body. -/
def Operation.holdsLambda (body : Operation) (x : LocalId) : Bool :=
  body.subterms.any fun
    | .localAssignment _ y (some (.lambda ..)) => y = x
    | _ => false

theorem mem_keys_definitions_lambda {body : Operation} {x : LocalId} :
    CallableKey.lambda x ∈ body.definitions.map (·.key) ↔ body.holdsLambda x = true := by
  rw [Operation.holdsLambda, List.any_eq_true, List.mem_map]
  constructor
  · rintro ⟨d, hd, hkey⟩
    rw [eq_of_key_ne_anonymous hd (by simp [hkey]), hkey] at hd
    obtain ⟨span, span', hop⟩ := mem_definitions_lambda.1 hd
    exact ⟨_, hop, decide_eq_true rfl⟩
  · rintro ⟨op, hop, hlambda⟩
    split at hlambda
    case h_1 span y span' code =>
      obtain rfl := of_decide_eq_true hlambda
      exact ⟨_, mem_definitions_lambda.2 ⟨span, span', hop⟩, rfl⟩
    case h_2 => exact absurd hlambda Bool.false_ne_true

theorem mem_of_mem_firstDefinitions {defs : List CallableDef} {d : CallableDef}
    (hd : d ∈ firstDefinitions defs) :
    d ∈ defs := by
  induction defs with
  | nil => exact hd
  | cons first rest ih =>
    rcases List.mem_cons.1 hd with rfl | hd
    · exact List.mem_cons_self
    · exact List.mem_cons_of_mem _ (ih (List.mem_filter.1 hd).1)

/-- Every key has a first definition. -/
theorem mem_firstDefinitions_keys {defs : List CallableDef} {key : CallableKey} :
    key ∈ (firstDefinitions defs).map (·.key) ↔ key ∈ defs.map (·.key) := by
  induction defs with
  | nil => rfl
  | cons first rest ih =>
    rw [firstDefinitions, List.map_cons, List.map_cons, List.mem_cons, List.mem_cons, ← ih]
    refine or_congr_right' fun hne => ?_
    rw [List.mem_map, List.mem_map]
    refine exists_congr fun d => and_congr_left fun hkey => ?_
    rw [List.mem_filter, decide_eq_true_eq, hkey]
    exact and_iff_left hne

theorem firstDefinitions_nodup (defs : List CallableDef) :
    ((firstDefinitions defs).map (·.key)).Nodup := by
  induction defs with
  | nil => exact List.nodup_nil
  | cons first rest ih =>
    rw [firstDefinitions, List.map_cons, List.nodup_cons]
    constructor
    · intro h
      obtain ⟨d, hd, hkey⟩ := List.mem_map.1 h
      exact of_decide_eq_true (List.mem_filter.1 hd).2 hkey
    · exact ih.sublist (List.filter_sublist.map _)

/-- The definitions of keys that were seen already or are defined before in the list. -/
def repeatedDefinitions (seen : List CallableKey) : List CallableDef → List CallableDef
  | [] => []
  | d :: rest =>
    if d.key ∈ seen then d :: repeatedDefinitions seen rest
    else repeatedDefinitions (d.key :: seen) rest

theorem firstDefinitions_filter_perm (seen : List CallableKey) (defs : List CallableDef) :
    (((firstDefinitions defs).filter fun d => d.key ∉ seen) ++
      repeatedDefinitions seen defs).Perm defs := by
  induction defs generalizing seen with
  | nil => exact .refl _
  | cons first rest ih =>
    rw [firstDefinitions, repeatedDefinitions, List.filter_cons, List.filter_filter]
    by_cases hseen : first.key ∈ seen
    · have same : ∀ d ∈ firstDefinitions rest,
          (decide (d.key ∉ seen) && decide (d.key ≠ first.key)) = decide (d.key ∉ seen) := by
        intro d _
        by_cases hd : d.key ∈ seen
        · simp [hd]
        · have hne : d.key ≠ first.key := fun h => hd (h ▸ hseen)
          simp [hd, hne]
      rw [List.filter_congr same]
      simp only [hseen, not_true_eq_false, decide_false, Bool.false_eq_true, if_false, if_true]
      exact List.perm_middle.trans ((ih seen).cons first)
    · have same : ∀ d ∈ firstDefinitions rest,
          (decide (d.key ∉ seen) && decide (d.key ≠ first.key)) =
            decide (d.key ∉ first.key :: seen) := by
        intro d _
        simp [Bool.and_comm]
      rw [List.filter_congr same]
      simp only [hseen, not_false_eq_true, decide_true, if_true, if_false, List.cons_append]
      exact (ih (first.key :: seen)).cons first

/-- The first definitions and the repeated ones are all definitions. -/
theorem firstDefinitions_perm (defs : List CallableDef) :
    (firstDefinitions defs ++ repeatedDefinitions [] defs).Perm defs := by
  have perm := firstDefinitions_filter_perm [] defs
  simpa using perm

/-- Nothing is repeated where the keys differ. -/
theorem firstDefinitions_of_nodup {defs : List CallableDef} (h : (defs.map (·.key)).Nodup) :
    firstDefinitions defs = defs := by
  induction defs with
  | nil => rfl
  | cons first rest ih =>
    rw [List.map_cons, List.nodup_cons] at h
    rw [firstDefinitions, ih h.2, List.filter_eq_self.2]
    intro d hd
    exact decide_eq_true fun hkey => h.1 (hkey ▸ List.mem_map_of_mem hd)

theorem repeatedDefinitions_of_nodup {defs : List CallableDef} (h : (defs.map (·.key)).Nodup) :
    repeatedDefinitions [] defs = [] := by
  have perm := firstDefinitions_perm defs
  rw [firstDefinitions_of_nodup h] at perm
  have length := perm.length_eq
  rw [List.length_append] at length
  exact List.length_eq_zero_iff.1 (by omega)

end PlatformGuard
