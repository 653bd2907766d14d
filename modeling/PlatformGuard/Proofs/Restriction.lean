import PlatformGuard.Proofs.Monotone
import PlatformGuard.Proofs.Simulation

/-!
# Statements restrict the worlds

Whatever the worlds before a statement, those after it are the ones among them in which control can
get past it, and these are the same for every entry: they follow from the tree
(`Operation.passable`). Whether control falls through at all does not even depend on the scope
(`Operation.fallsThrough`).

* `Operation.walk_restrictsTo`: the worlds after a statement are those before it,
  restricted to the passable ones.
* `Operation.passable_isSome`: a statement is passable somewhere iff control falls through it.
* `Operation.passable_of_undiverted`: a statement without assertions and jumps is passable
  everywhere.
* `statements_restrict_worlds`: all of this for the visits of a walk, with what
  follows for their order.
-/

namespace PlatformGuard

/-! ## Verdicts in a scope -/

namespace WalkScope

/-- The verdict on a local: that on the guard expression it stands for. -/
def localVerdict (scope : WalkScope) (x : LocalId) : Verdict :=
  match scope.cached.find? x with
  | some e => ⟨e.worlds, e.worlds.compl⟩
  | none => .unknown

def verdict (scope : WalkScope) (condition : Operation) : Verdict :=
  condition.verdictWith scope.reader scope.localVerdict

variable (scope : WalkScope)

theorem covers_localVerdict (x : LocalId) : (scope.localVerdict x).Covers := by
  intro y
  unfold localVerdict
  split
  · rw [Worlds.mem_compl]
    exact Classical.em _
  · exact .inl Worlds.mem_all

theorem covers_verdict (condition : Operation) : (scope.verdict condition).Covers :=
  Operation.covers_verdictWith scope.covers_localVerdict condition

theorem splitsBy_verdict (condition : Operation) :
    (condition.walk scope).SplitsBy (scope.verdict condition) := by
  refine Operation.walk_splitsBy_of_locals scope.covers_localVerdict (fun span x => ?_) condition
  rw [Operation.walk, localVerdict]
  cases scope.cached.find? x with
  | some e => exact Walk.splitsBy_cachedLocal fun y => ⟨Iff.rfl, Worlds.mem_compl⟩
  | none => exact Walk.splitsBy_ofVisit none _

end WalkScope

/-! ## Restrictions -/

/-- Of some worlds, the kept ones are left; nothing is left where nothing is kept. -/
def Worlds.RestrictedTo (w : Worlds) : (kept left : Option Worlds) → Prop :=
  Option.Rel fun kept left => ∀ x, x ∈ left ↔ x ∈ w ∧ x ∈ kept

namespace Worlds.RestrictedTo

variable {v w part : Worlds} {kept kept' left left' : Option Worlds}

theorem all (w : Worlds) : w.RestrictedTo (some .all) (some w) :=
  .some fun _ => ⟨fun h => ⟨h, mem_all⟩, And.left⟩

/-- What is left of a part of the worlds is left of all of them, if only that part is kept. -/
theorem of_part (hpart : ∀ x, x ∈ part ↔ x ∈ w ∧ x ∈ v) (h : part.RestrictedTo kept left) :
    w.RestrictedTo (kept.map v.inter) left := by
  cases h with
  | none => exact .none
  | some h => exact .some fun x => by rw [h, hpart, mem_inter, and_assoc]

theorem joinAfter (h : w.RestrictedTo kept left) (h' : w.RestrictedTo kept' left') :
    w.RestrictedTo (Walk.joinAfter kept kept') (Walk.joinAfter left left') := by
  cases h with
  | none => exact h'
  | some h =>
    cases h' with
    | none => exact .some h
    | some h' => exact .some fun x => by rw [mem_union, mem_union, h, h', and_or_left]

end Worlds.RestrictedTo

namespace Walk

/-- Of any worlds, a walk leaves those that are kept; it does not fall through
where nothing is kept. -/
def RestrictsTo (k : Walk) (kept : Option Worlds) : Prop :=
  ∀ w : Worlds, w.RestrictedTo kept (k.visit w).after

variable {k : Walk} {kept : Option Worlds}

theorem restrictsTo_all (h : ∀ w, (k.visit w).after = some w) : k.RestrictsTo (some .all) := by
  intro w
  rw [h]
  exact .all w

/-- What several statements keep together. -/
def keptByAll : List (Option Worlds) → Option Worlds
  | [] => some .all
  | kept :: rest => kept.bind fun first => (keptByAll rest).map first.inter

theorem isSome_keptByAll (kept : List (Option Worlds)) :
    (keptByAll kept).isSome = kept.all Option.isSome := by
  induction kept with
  | nil => rfl
  | cons first rest ih =>
    cases first with
    | none => rfl
    | some w => simp [keptByAll, ih]

theorem isSome_joinAfter (a b : Option Worlds) :
    (joinAfter a b).isSome = (a.isSome || b.isSome) := by
  cases a <;> cases b <;> rfl

def KeepsAll (kept : Option Worlds) : Prop := ∃ w, kept = some w ∧ ∀ x, x ∈ w

theorem keepsAll_all : KeepsAll (some .all) := ⟨.all, rfl, fun _ => Worlds.mem_all⟩

theorem keepsAll_keptByAll {kept : List (Option Worlds)} (h : ∀ k ∈ kept, KeepsAll k) :
    KeepsAll (keptByAll kept) := by
  induction kept with
  | nil => exact keepsAll_all
  | cons first rest ih =>
    obtain ⟨w, rfl, hw⟩ := h first List.mem_cons_self
    obtain ⟨w', hrest, hw'⟩ := ih fun k hk => h k (List.mem_cons_of_mem _ hk)
    refine ⟨w.inter w', ?_, fun x => Worlds.mem_inter.2 ⟨hw x, hw' x⟩⟩
    rw [keptByAll, hrest]
    rfl

/-- Where both branches keep everything, so does the condition between them: it has an
answer in every world. -/
theorem KeepsAll.joinAfter {v : Verdict} {kept kept' : Option Worlds} (covers : v.Covers)
    (h : KeepsAll kept) (h' : KeepsAll kept') :
    KeepsAll (joinAfter (kept.map v.canBeTrue.inter) (kept'.map v.canBeFalse.inter)) := by
  obtain ⟨w, rfl, hw⟩ := h
  obtain ⟨w', rfl, hw'⟩ := h'
  refine ⟨_, rfl, fun x => Worlds.mem_union.2 ?_⟩
  rcases covers x with ht | hf
  · exact .inl (Worlds.mem_inter.2 ⟨ht, hw x⟩)
  · exact .inr (Worlds.mem_inter.2 ⟨hf, hw' x⟩)

theorem restrictedTo_visitAll {ι : Type} {walk : ι → Walk} {kept : ι → Option Worlds}
    {parts : List ι} (h : ∀ i ∈ parts, (walk i).RestrictsTo (kept i)) (w : Worlds) :
    w.RestrictedTo (keptByAll (parts.map kept)) (visitAll (parts.map walk) w).after := by
  induction parts generalizing w with
  | nil => exact .all w
  | cons i rest ih =>
    have first := h i List.mem_cons_self w
    have others : ∀ j ∈ rest, (walk j).RestrictsTo (kept j) :=
      fun j hj => h j (List.mem_cons_of_mem _ hj)
    rw [List.map_cons, List.map_cons, visitAll, keptByAll]
    generalize ((walk i).visit w).after = left at first
    generalize kept i = keptFirst at first
    cases first with
    | none => exact .none
    | some hnext => exact .of_part hnext (ih others _)

/-- A missing branch is one where nothing happens. -/
theorem RestrictsTo.conditional {condition : Walk} {other : Option Walk}
    {keptOther : Option Worlds} {v : Verdict} (hcondition : condition.SplitsBy v)
    (hk : k.RestrictsTo kept) (hother : (other.getD idle).RestrictsTo keptOther) :
    (conditional condition k other).RestrictsTo
      (joinAfter (kept.map v.canBeTrue.inter) (keptOther.map v.canBeFalse.inter)) := by
  intro w
  have onTrue := Worlds.RestrictedTo.of_part (fun x => (hcondition true w x).1) (hk _)
  have onFalse := Worlds.RestrictedTo.of_part (fun x => (hcondition true w x).2) (hother _)
  cases other with
  | none => exact onTrue.joinAfter onFalse
  | some j => exact onTrue.joinAfter onFalse

theorem restrictsTo_assertion {condition : Walk} {v : Verdict} (h : condition.SplitsBy v)
    (guard : Option Worlds) (receiver : Option Walk) (rest : List Walk) :
    (assertion guard receiver condition rest).RestrictsTo (some v.canBeTrue) :=
  fun w => .some fun x => (h true w x).1

/-- Two visits of a walk that restricts: the one from everywhere tells what the other leaves. -/
theorem RestrictsTo.after_eq_inter (h : k.RestrictsTo kept) (w : Worlds) :
    Option.Rel (fun left fixed => (left == w.inter fixed) = true) (k.visit w).after
      (k.visit .all).after := by
  have here := h w
  have everywhere := h .all
  generalize (k.visit w).after = left at here
  generalize (k.visit .all).after = fixed at everywhere
  cases here with
  | none =>
    cases everywhere
    exact .none
  | some hleft =>
    cases everywhere with
    | some hfixed =>
      refine .some (Worlds.beq_iff_same_worlds.2 fun x => ?_)
      rw [hleft, Worlds.mem_inter, hfixed]
      exact and_congr_right fun _ => (and_iff_right Worlds.mem_all).symm

theorem RestrictsTo.after_isSome (h : k.RestrictsTo kept) (w : Worlds) :
    (k.visit w).after.isSome = kept.isSome := by
  have here := h w
  generalize (k.visit w).after = left at here
  cases here <;> rfl

/-- Where everything is kept, the worlds are as before. -/
theorem RestrictsTo.after_eq_of_keepsAll (h : k.RestrictsTo kept)
    (hkept : KeepsAll kept) (w : Worlds) :
    ∃ left, (k.visit w).after = some left ∧ (left == w) = true := by
  obtain ⟨all, rfl, hall⟩ := hkept
  have here := h w
  generalize (k.visit w).after = left at here
  cases here with
  | some hleft =>
    exact ⟨_, rfl, Worlds.beq_iff_same_worlds.2 fun x => (hleft x).trans (and_iff_left (hall x))⟩

end Walk

/-! ## What gets past a statement -/

namespace Operation

/-- Whether control can fall through an operation. -/
def fallsThrough : Operation → Bool :=
  fold fun op parts =>
    match op, parts with
    | .block .., parts | .other .., parts => parts.all id
    | .conditional .., _ :: whenTrue :: whenFalse => whenTrue || whenFalse.head?.getD true
    | .ret .., _ | .raise .., _ | .breakOut _, _ | .continueLoop _, _ => false
    | _, _ => true

/-- The worlds in which control can get past an operation; none if it never falls through. -/
def passable (scope : WalkScope) : Operation → Option Worlds :=
  fold fun op parts =>
    match op, parts with
    | .block .., parts | .other .., parts => Walk.keptByAll parts
    | .conditional _ condition _ _, _ :: whenTrue :: whenFalse =>
      let v := scope.verdict condition
      Walk.joinAfter (whenTrue.map v.canBeTrue.inter)
      ((whenFalse.head?.getD (some .all)).map v.canBeFalse.inter)
    | .ret .., _ | .raise .., _ | .breakOut _, _ | .continueLoop _, _ => none
    | .invocation _ target _ (condition :: _), _ =>
      some (if scope.isAssertion target then (scope.verdict condition).canBeTrue else .all)
    | _, _ => some .all

/-- Whether an operation can keep control from going on as before: an assertion or a jump. -/
def diverts (scope : WalkScope) : Operation → Bool
  | .ret .. | .raise .. | .breakOut _ | .continueLoop _ => true
  | .invocation _ target _ arguments => scope.isAssertion target && !arguments.isEmpty
  | _ => false

variable {scope : WalkScope}

theorem fallsThrough_conditional (span : Span) (condition whenTrue : Operation)
    (whenFalse : Option Operation) :
    (conditional span condition whenTrue whenFalse).fallsThrough =
      (whenTrue.fallsThrough || (whenFalse.map fallsThrough).getD true) := by
  cases whenFalse <;> rfl

theorem fallsThrough_block (span : Span) (operations : List Operation) :
    (block span operations).fallsThrough = operations.all fallsThrough := by
  rw [fallsThrough, fold_eq, ← fallsThrough]
  exact List.all_map

theorem fallsThrough_other (span : Span) (children : List Operation) :
    (other span children).fallsThrough = children.all fallsThrough := by
  rw [fallsThrough, fold_eq, ← fallsThrough]
  exact List.all_map

theorem passable_conditional (span : Span) (condition whenTrue : Operation)
    (whenFalse : Option Operation) :
    (conditional span condition whenTrue whenFalse).passable scope =
      Walk.joinAfter ((whenTrue.passable scope).map (scope.verdict condition).canBeTrue.inter)
        (((whenFalse.map (passable scope)).getD (some .all)).map
          (scope.verdict condition).canBeFalse.inter) := by
  cases whenFalse <;> rfl

theorem passable_block (span : Span) (operations : List Operation) :
    (block span operations).passable scope = Walk.keptByAll (operations.map (passable scope)) := by
  rw [passable, fold_eq]
  rfl

theorem passable_other (span : Span) (children : List Operation) :
    (other span children).passable scope = Walk.keptByAll (children.map (passable scope)) := by
  rw [passable, fold_eq]
  rfl

theorem passable_assertion {span : Span} {target : SymbolId} {receiver : Option Operation}
    {condition : Operation} {rest : List Operation} (h : scope.isAssertion target = true) :
    (invocation span target receiver (condition :: rest)).passable scope =
      some (scope.verdict condition).canBeTrue := by
  show some (if scope.isAssertion target then _ else _) = _
  rw [if_pos h]

theorem passable_call {span : Span} {target : SymbolId} {receiver : Option Operation}
    {arguments : List Operation} (h : (scope.isAssertion target && !arguments.isEmpty) = false) :
    (invocation span target receiver arguments).passable scope = some .all := by
  cases arguments with
  | nil => rfl
  | cons condition rest =>
    show some (if scope.isAssertion target then _ else _) = _
    rw [if_neg]
    simpa using h

/-- The worlds after a statement are those before it, restricted to the passable ones. -/
theorem walk_restrictsTo (scope : WalkScope) (op : Operation) :
    (op.walk scope).RestrictsTo (op.passable scope) := by
  induction op using children_induction with
  | step op ih =>
    cases op with
    | block span operations =>
      rw [walk, walkAll_eq_map, passable_block]
      exact Walk.restrictedTo_visitAll ih
    | other span children =>
      rw [walk, walkAll_eq_map, passable_other]
      exact Walk.restrictedTo_visitAll ih
    | conditional span condition whenTrue whenFalse =>
      rw [walk, walkOption_eq_map, passable_conditional]
      refine .conditional (scope.splitsBy_verdict condition) (ih whenTrue (by simp [children])) ?_
      cases whenFalse with
      | none => exact Walk.restrictsTo_all fun _ => rfl
      | some branch => exact ih branch (by simp [children])
    | invocation span target receiver arguments =>
      cases hassert : scope.isAssertion target && !arguments.isEmpty with
      | false =>
        rw [passable_call hassert]
        exact Walk.restrictsTo_all (after_call hassert)
      | true =>
        cases arguments with
        | nil => exact absurd hassert (by simp)
        | cons condition rest =>
          have h : scope.isAssertion target = true := by simpa using hassert
          rw [walk_assertion h, passable_assertion h]
          exact Walk.restrictsTo_assertion (scope.splitsBy_verdict condition) _ _ _
    | ret | raise | breakOut | continueLoop =>
      rw [walk]
      exact fun _ => .none
    | delegateInvocation span target arguments =>
      exact Walk.restrictsTo_all (after_delegateInvocation span target arguments)
    | methodReference span method => exact Walk.restrictsTo_all (after_methodReference span method)
    | literal span value => exact Walk.restrictsTo_all (after_literal span value)
    | localReference span x => exact Walk.restrictsTo_all (after_localReference span x)
    | unary span operator operand => exact Walk.restrictsTo_all (after_unary span operator operand)
    | binary span operator left right =>
      exact Walk.restrictsTo_all (after_binary span operator left right)
    | loop | switch | memberReference | objectCreation | localAssignment | localFunction | lambda =>
      rw [walk]
      exact Walk.restrictsTo_all fun _ => rfl

/-- Whether an operation is passable at all is told by the tree alone. -/
theorem passable_isSome (op : Operation) : (op.passable scope).isSome = op.fallsThrough := by
  induction op using children_induction with
  | step op ih =>
    have all : (op.children.map (passable scope)).all Option.isSome =
        op.children.all fallsThrough := by
      rw [List.all_map, Bool.eq_iff_iff, List.all_eq_true, List.all_eq_true]
      exact forall₂_congr fun child hchild => by rw [Function.comp_apply, ih child hchild]
    cases op with
    | block span operations =>
      rw [passable_block, Walk.isSome_keptByAll, fallsThrough_block]
      exact all
    | other span children =>
      rw [passable_other, Walk.isSome_keptByAll, fallsThrough_other]
      exact all
    | conditional span condition whenTrue whenFalse =>
      rw [passable_conditional, Walk.isSome_joinAfter, fallsThrough_conditional, Option.isSome_map,
        Option.isSome_map, ih whenTrue (by simp [children])]
      cases whenFalse with
      | none => rfl
      | some branch =>
        rw [Option.map_some, Option.map_some, Option.getD_some, ih branch (by simp [children])]; rfl
    | invocation span target receiver arguments => cases arguments <;> rfl
    | _ => rfl

/-- What holds no assertion and no jump is passable everywhere. -/
theorem passable_of_undiverted {op : Operation}
    (h : ∀ part ∈ op.subterms, part.diverts scope = false) :
    Walk.KeepsAll (op.passable scope) := by
  induction op using children_induction with
  | step op ih =>
    have self : op.diverts scope = false := h op (by rw [subterms_eq]; exact List.mem_cons_self)
    have below : ∀ child ∈ op.children, Walk.KeepsAll (child.passable scope) := by
      intro child hchild
      refine ih child hchild fun part hpart => h part ?_
      rw [subterms_eq]
      exact List.mem_cons_of_mem _ (List.mem_flatMap.2 ⟨child, hchild, hpart⟩)
    cases op with
    | block span operations =>
      rw [passable_block]
      exact Walk.keepsAll_keptByAll (List.forall_mem_map.2 below)
    | other span children =>
      rw [passable_other]
      exact Walk.keepsAll_keptByAll (List.forall_mem_map.2 below)
    | conditional span condition whenTrue whenFalse =>
      rw [passable_conditional]
      refine .joinAfter (scope.covers_verdict condition) (below whenTrue (by simp [children])) ?_
      cases whenFalse with
      | none => exact Walk.keepsAll_all
      | some branch => exact below branch (by simp [children])
    | invocation span target receiver arguments =>
      rw [passable_call self]
      exact Walk.keepsAll_all
    | ret | raise | breakOut | continueLoop => exact absurd self (by simp [diverts])
    | _ => exact Walk.keepsAll_all

/-- A conditional with undiverted branches is passable everywhere, whatever its condition. -/
theorem passable_conditional_of_undiverted (span : Span) (condition : Operation)
    {whenTrue : Operation} {whenFalse : Option Operation}
    (h : ∀ branch ∈ whenTrue :: whenFalse.toList, ∀ part ∈ branch.subterms,
      part.diverts scope = false) :
    Walk.KeepsAll ((conditional span condition whenTrue whenFalse).passable scope) := by
  rw [passable_conditional]
  refine .joinAfter (scope.covers_verdict condition)
    (passable_of_undiverted (h whenTrue List.mem_cons_self)) ?_
  cases whenFalse with
  | none => exact Walk.keepsAll_all
  | some branch => exact passable_of_undiverted (h branch (by simp))

end Operation

/-! ## Visits -/

/-- Nothing on a visit happens in other worlds than those it starts from, and it leaves no
others. -/
structure Visit.StaysIn (v : Visit) (w : Worlds) : Prop where
  events : ∀ e ∈ v.events, e.Fits (fun _ => True) w
  after : ∀ left ∈ v.after, left.Within w

theorem Operation.visit_staysIn (scope : WalkScope) (op : Operation) (w : Worlds) :
    ((op.walk scope).visit w).StaysIn w where
  events e he := ((op.walk_narrows scope).visit w e he).mono (.refl w) fun _ _ => trivial
  after := (op.walk_narrows scope).after w

theorem WalkScope.RecognisesMore.refl (scope : WalkScope) : scope.RecognisesMore scope :=
  ⟨rfl, rfl, fun _ _ _ h => h, fun _ _ h => h, fun _ _ h => h⟩

/-- A statement restricts the worlds by a fixed set: whether it falls through is told by the tree,
and what it leaves of any worlds is what it leaves of all, among them. So worlds are never gained on
a walk, walks are monotone, and a conditional without assertions and jumps in its branches leaves
the worlds as they were. -/
theorem statements_restrict_worlds (scope : WalkScope) :
    (∀ (op : Operation) (w : Worlds), ((op.walk scope).visit w).after.isSome = op.fallsThrough) ∧
    (∀ (op : Operation) (w : Worlds), Option.Rel (fun left fixed => (left == w.inter fixed) = true)
      ((op.walk scope).visit w).after ((op.walk scope).visit .all).after) ∧
    (∀ (op : Operation) (w : Worlds), ((op.walk scope).visit w).StaysIn w) ∧
    (∀ (op : Operation) (v w : Worlds), v.Within w →
      ((op.walk scope).visit v).Within ((op.walk scope).visit w)) ∧
    ∀ (span : Span) (condition whenTrue : Operation) (whenFalse : Option Operation),
      (∀ branch ∈ whenTrue :: whenFalse.toList, ∀ part ∈ branch.subterms,
        part.diverts scope = false) →
      ∀ w, ∃ left,
        (((Operation.conditional span condition whenTrue whenFalse).walk scope).visit w).after =
          some left ∧ (left == w) = true := by
  refine ⟨fun op w => ?_, fun op w => ?_, fun op w => op.visit_staysIn scope w, fun op v w hw => ?_,
    fun span condition whenTrue whenFalse undiverted w => ?_⟩
  · rw [(op.walk_restrictsTo scope).after_isSome, Operation.passable_isSome]
  · exact (op.walk_restrictsTo scope).after_eq_inter w
  · exact (op.walk_within (.refl scope)).visit hw
  · exact (Operation.walk_restrictsTo scope _).after_eq_of_keepsAll
      (Operation.passable_conditional_of_undiverted span condition undiverted) w

/-- `if (IsOSPlatform("windows")) new X();` leaves all worlds; and what stands in its branch is
visited on Windows within its visit from everywhere. -/
theorem statements_restrict_worlds_checkedCreation :
    let scope : WalkScope := .ofBody checkReader (.block {} [])
    let branch : Operation := .block {} [.objectCreation {} ⟨5⟩ []]
    let onWindows : Worlds := (GuardFact.atLeast (.canonical "windows") .zero).worlds
    (∀ part ∈ branch.subterms, part.diverts scope = false) ∧ onWindows.Within .all ∧
    (∃ left, (((Operation.conditional {} (platformCheck "windows") branch none).walk scope).visit
      .all).after = some left ∧
      (left == .all) = true) ∧
    ((branch.walk scope).visit onWindows).Within ((branch.walk scope).visit .all) := by
  intro scope branch onWindows
  have undiverted : ∀ part ∈ branch.subterms, part.diverts scope = false := by
    have parts : branch.subterms = [branch, .objectCreation {} ⟨5⟩ []] := rfl
    rw [parts]
    exact List.forall_mem_cons.2 ⟨rfl, List.forall_mem_singleton.2 rfl⟩
  have within : onWindows.Within .all := fun _ _ => Worlds.mem_all
  obtain ⟨-, -, -, monotone, conditional⟩ := statements_restrict_worlds scope
  exact ⟨undiverted, within,
    conditional {} _ branch none (List.forall_mem_singleton.2 undiverted) .all,
    monotone branch onWindows .all within⟩

end PlatformGuard
