import PlatformGuard.Proofs.UseSites

/-!
# The worlds from which callables are walked

A walk only narrows: each of its events is reached in worlds among those it starts from, and it
invokes only what the operations of its unit invoke (`Operation.walk_narrows`). A callable is walked
from the worlds in which the units before it invoke it, and all others that could invoke it are on a
cycle with it; so wherever it is invoked, its own walk starts (`MethodBody.exists_walk_of_invoke`).
-/

namespace PlatformGuard

def Worlds.Within (v w : Worlds) : Prop := ∀ x ∈ v, x ∈ w

namespace Worlds.Within

theorem refl (w : Worlds) : w.Within w := fun _ h => h

theorem trans {u v w : Worlds} (h : u.Within v) (h' : v.Within w) : u.Within w :=
    fun x hx => h' x (h x hx)

theorem none (w : Worlds) : Worlds.none.Within w := fun _ h => absurd h not_mem_none

theorem union {u v w : Worlds} (h : u.Within w) (h' : v.Within w) : (u.union v).Within w := by
  intro x hx
  rcases mem_union.1 hx with hx | hx
  · exact h x hx
  · exact h' x hx

end Worlds.Within

/-- An event that a walk from some worlds can have, if only the given callables are invoked on
it. -/
def WalkEvent.Fits (invoked : CallableKey → Prop) (w : Worlds) : WalkEvent → Prop
  | .poll => True
  | .use _ _ v => v.Within w
  | .invoke key v => v.Within w ∧ invoked key

theorem WalkEvent.Fits.mono {p q : CallableKey → Prop} {v w : Worlds} {e : WalkEvent}
    (h : e.Fits p v) (hw : v.Within w) (hq : ∀ key, p key → q key) : e.Fits q w := by
  cases e with
  | poll => trivial
  | use target span u => exact Worlds.Within.trans h hw
  | invoke key u => exact ⟨h.1.trans hw, hq key h.2⟩

/-! ## Walks narrow -/

namespace Walk

/-- Whatever the worlds from which it starts, a walk stays among them, and invokes
only the given callables. -/
structure Narrows (k : Walk) (invoked : CallableKey → Prop) : Prop where
  visit : ∀ w, ∀ e ∈ (k.visit w).events, e.Fits invoked w
  after : ∀ w, ∀ w' ∈ (k.visit w).after, w'.Within w
  split : ∀ report w, ∀ e ∈ (k.split report w).events, e.Fits invoked w
  whenTrue : ∀ report w, (k.split report w).whenTrue.Within w
  whenFalse : ∀ report w, (k.split report w).whenFalse.Within w

variable {p q : CallableKey → Prop} {k j condition : Walk}

theorem Narrows.mono (h : k.Narrows p) (hq : ∀ key, p key → q key) : k.Narrows q where
  visit w e he := (h.visit w e he).mono (.refl w) hq
  after := h.after
  split report w e he := (h.split report w e he).mono (.refl w) hq
  whenTrue := h.whenTrue
  whenFalse := h.whenFalse

theorem narrows_ofVisit {guard : Option Worlds} {visit : Worlds → Visit}
    (events : ∀ w, ∀ e ∈ (visit w).events, e.Fits p w)
    (after : ∀ w, ∀ w' ∈ (visit w).after, w'.Within w) :
    (ofVisit guard visit).Narrows p := by
  have polled : ∀ w, ∀ e ∈ WalkEvent.poll :: (visit w).events, e.Fits p w :=
    fun w => List.forall_mem_cons.2 ⟨trivial, events w⟩
  have seen : ∀ (report : Bool) (w : Worlds), ∀ e ∈ WalkEvent.poll :: (if report then
      WalkEvent.poll :: (visit w).events else []), e.Fits p w := by
    intro report w
    cases report with
    | true => exact List.forall_mem_cons.2 ⟨trivial, polled w⟩
    | false => exact List.forall_mem_cons.2 ⟨trivial, fun e he => absurd he List.not_mem_nil⟩
  cases guard with
  | none => exact ⟨polled, after, seen, fun _ w => .refl w, fun _ w => .refl w⟩
  | some g =>
    exact ⟨polled, after, seen, fun _ w x hx => (Worlds.mem_inter.1 hx).1, fun _ w x hx =>
      (Worlds.mem_sdiff.1 hx).1⟩

theorem within_of_mem_some {w : Worlds} : ∀ w' ∈ some w, w'.Within w := by
  intro w' hw'
  obtain rfl := Option.some.inj hw'
  exact .refl w

theorem narrows_through {events : Worlds → List WalkEvent} (h : ∀ w, ∀ e ∈ events w, e.Fits p w) :
    (through events).Narrows p :=
  narrows_ofVisit h fun _ => within_of_mem_some

theorem narrows_idle : idle.Narrows p := narrows_through fun _ _ h => absurd h List.not_mem_nil

theorem narrows_ofSplit {split : Bool → Worlds → Split}
    (events : ∀ report w, ∀ e ∈ (split report w).events, e.Fits p w)
    (whenTrue : ∀ report w, (split report w).whenTrue.Within w)
    (whenFalse : ∀ report w, (split report w).whenFalse.Within w) : (ofSplit split).Narrows p where
  visit w := List.forall_mem_cons.2 ⟨trivial, List.forall_mem_cons.2 ⟨trivial, events true w⟩⟩
  after _ := within_of_mem_some
  split report w := List.forall_mem_cons.2 ⟨trivial, events report w⟩
  whenTrue := whenTrue
  whenFalse := whenFalse

theorem narrows_visitAll {parts : List Walk} (h : ∀ k ∈ parts, k.Narrows p) (w : Worlds) :
    (∀ e ∈ (visitAll parts w).events, e.Fits p w) ∧ ∀ w' ∈ (visitAll parts w).after,
    w'.Within w := by
  induction parts generalizing w with
  | nil => exact ⟨fun e he => absurd he List.not_mem_nil, within_of_mem_some⟩
  | cons k rest ih =>
    have first := h k List.mem_cons_self
    have others : ∀ j ∈ rest, j.Narrows p := fun j hj => h j (List.mem_cons_of_mem _ hj)
    rw [visitAll]
    cases hafter : (k.visit w).after with
    | some next =>
      have narrower := first.after w next hafter
      obtain ⟨events, after⟩ := ih others next
      refine ⟨List.forall_mem_append.2 ⟨first.visit w, fun e he => ?_⟩, fun w' hw' =>
        (after w' hw').trans narrower⟩
      exact (events e he).mono narrower fun _ hkey => hkey
    | none =>
      refine ⟨List.forall_mem_append.2 ⟨first.visit w, fun e he => ?_⟩, fun w' hw' =>
        absurd hw' (by simp)⟩
      obtain ⟨j, hj, he⟩ := List.mem_flatMap.1 he
      exact ((others j hj).visit .none e he).mono (.none w) fun _ hkey => hkey

theorem fits_optionEvents {part : Option Walk} (h : ∀ k ∈ part, k.Narrows p) (w : Worlds) :
    ∀ e ∈ optionEvents part w, e.Fits p w := by
  cases part with
  | none => exact fun e he => absurd he List.not_mem_nil
  | some k => exact (h k rfl).visit w

theorem Narrows.conjunction (hk : k.Narrows p) (hj : j.Narrows p) :
    (conjunction k j).Narrows p := by
  refine narrows_ofSplit (fun report w => ?_) (fun report w => ?_) fun report w => ?_
  · refine List.forall_mem_append.2 ⟨hk.split report w, fun e he => ?_⟩
    exact (hj.split report _ e he).mono (hk.whenTrue report w) fun _ hkey => hkey
  · exact (hj.whenTrue report _).trans (hk.whenTrue report w)
  · exact (hk.whenFalse report w).union ((hj.whenFalse report _).trans (hk.whenTrue report w))

theorem Narrows.disjunction (hk : k.Narrows p) (hj : j.Narrows p) :
    (disjunction k j).Narrows p := by
  refine narrows_ofSplit (fun report w => ?_) (fun report w => ?_) fun report w => ?_
  · refine List.forall_mem_append.2 ⟨hk.split report w, fun e he => ?_⟩
    exact (hj.split report _ e he).mono (hk.whenFalse report w) fun _ hkey => hkey
  · exact (hk.whenTrue report w).union ((hj.whenTrue report _).trans (hk.whenFalse report w))
  · exact (hj.whenFalse report _).trans (hk.whenFalse report w)

theorem Narrows.negation (hk : k.Narrows p) : (negation k).Narrows p :=
  narrows_ofSplit hk.split hk.whenFalse hk.whenTrue

theorem Narrows.comparison {keeps : Bool} (hk : k.Narrows p) : (comparison keeps k).Narrows p := by
  cases keeps with
  | true => exact narrows_ofSplit hk.split hk.whenTrue hk.whenFalse
  | false => exact narrows_ofSplit hk.split hk.whenFalse hk.whenTrue

theorem narrows_plainOperator {operands : List Walk} (h : ∀ k ∈ operands, k.Narrows p) :
    (plainOperator operands).Narrows p := by
  refine narrows_ofSplit (fun report w => ?_) (fun _ w => .refl w) fun _ w => .refl w
  cases report with
  | true => exact (narrows_visitAll h w).1
  | false => exact fun e he => absurd he List.not_mem_nil

theorem narrows_truth (b : Bool) : (truth b).Narrows p := by
  have polled : ∀ w, ∀ e ∈ [WalkEvent.poll], e.Fits p w :=
    fun w => List.forall_mem_singleton.2 trivial
  cases b with
  | true =>
    exact ⟨polled, fun _ => within_of_mem_some, fun _ => polled,
      fun _ w => .refl w, fun _ w => .none w⟩
  | false =>
    exact ⟨polled, fun _ => within_of_mem_some, fun _ => polled,
      fun _ w => .none w, fun _ w => .refl w⟩

theorem joinAfter_within {a b : Option Worlds} {w : Worlds} (ha : ∀ w' ∈ a, w'.Within w)
    (hb : ∀ w' ∈ b, w'.Within w) :
    ∀ w' ∈ joinAfter a b, w'.Within w := by
  intro w' hw'
  cases a with
  | none => exact hb w' hw'
  | some u =>
    cases b with
    | none => exact ha w' hw'
    | some v =>
      obtain rfl := Option.some.inj hw'
      exact (ha u rfl).union (hb v rfl)

theorem Narrows.conditional {other : Option Walk} (hcondition : condition.Narrows p)
    (hk : k.Narrows p) (hother : ∀ j ∈ other, j.Narrows p) :
    (conditional condition k other).Narrows p := by
  have onTrue : ∀ w, ∀ e ∈ (k.visit (condition.split true w).whenTrue).events, e.Fits p w :=
    fun w e he => (hk.visit _ e he).mono (hcondition.whenTrue true w) fun _ h => h
  have afterTrue : ∀ w, ∀ w' ∈ (k.visit (condition.split true w).whenTrue).after, w'.Within w :=
    fun w w' hw' => (hk.after _ w' hw').trans (hcondition.whenTrue true w)
  cases other with
  | none =>
    refine narrows_ofVisit (fun w => ?_) fun w => joinAfter_within (afterTrue w) ?_
    · refine List.forall_mem_append.2
        ⟨List.forall_mem_append.2 ⟨hcondition.split true w, onTrue w⟩, ?_⟩
      exact fun e he => absurd he List.not_mem_nil
    · intro w' hw'
      obtain rfl := Option.some.inj hw'
      exact hcondition.whenFalse true w
  | some j =>
    have hj := hother j rfl
    refine narrows_ofVisit (fun w => ?_) fun w => joinAfter_within (afterTrue w) fun w' hw' => ?_
    · refine List.forall_mem_append.2
        ⟨List.forall_mem_append.2 ⟨hcondition.split true w, onTrue w⟩, fun e he => ?_⟩
      exact (hj.visit _ e he).mono (hcondition.whenFalse true w) fun _ h => h
    · exact (hj.after _ w' hw').trans (hcondition.whenFalse true w)

theorem Narrows.loop {condition : Option Walk} (hcondition : ∀ c ∈ condition, c.Narrows p)
    (hk : k.Narrows p) :
    (loop condition k).Narrows p := by
  cases condition with
  | none => exact narrows_through hk.visit
  | some c =>
    have hc := hcondition c rfl
    refine narrows_through fun w => List.forall_mem_append.2 ⟨hc.split true w, fun e he => ?_⟩
    exact (hk.visit _ e he).mono (hc.whenTrue true w) fun _ h => h

theorem Narrows.switch {cases : List Walk} (hk : k.Narrows p) (hcases : ∀ c ∈ cases, c.Narrows p) :
    (switch k cases).Narrows p := by
  refine narrows_through fun w => List.forall_mem_append.2 ⟨hk.visit w, fun e he => ?_⟩
  obtain ⟨c, hc, he⟩ := List.mem_flatMap.1 he
  exact (hcases c hc).visit w e he

theorem narrows_call {guard : Option Worlds} {event : Worlds → WalkEvent} {receiver : Option Walk}
    {arguments : List Walk} (hevent : ∀ w, (event w).Fits p w)
    (hreceiver : ∀ k ∈ receiver, k.Narrows p) (harguments : ∀ k ∈ arguments, k.Narrows p) :
    (call guard event receiver arguments).Narrows p := by
  refine narrows_ofVisit (fun w => ?_) fun w => within_of_mem_some
  refine List.forall_mem_append.2 ⟨List.forall_mem_append.2 ⟨fits_optionEvents hreceiver w, ?_⟩, ?_⟩
  · exact (narrows_visitAll harguments w).1
  · exact List.forall_mem_singleton.2 (hevent w)

theorem Narrows.assertion {guard : Option Worlds} {receiver : Option Walk} {rest : List Walk}
    (hreceiver : ∀ k ∈ receiver, k.Narrows p) (hk : k.Narrows p) (hrest : ∀ j ∈ rest, j.Narrows p) :
    (assertion guard receiver k rest).Narrows p := by
  refine narrows_ofVisit (fun w => ?_) fun w w' hw' => ?_
  · refine List.forall_mem_append.2
      ⟨List.forall_mem_append.2 ⟨fits_optionEvents hreceiver w, hk.split true w⟩,
      fun e he => ?_⟩
    exact ((narrows_visitAll hrest _).1 e he).mono (hk.whenTrue true w) fun _ h => h
  · obtain rfl := Option.some.inj hw'
    exact hk.whenTrue true w

theorem narrows_member {guard : Option Worlds} {event : Worlds → WalkEvent} {receiver : Option Walk}
    (hevent : ∀ w, (event w).Fits p w) (hreceiver : ∀ k ∈ receiver, k.Narrows p) :
    (member guard event receiver).Narrows p :=
  narrows_ofVisit (fun w => List.forall_mem_append.2 ⟨fits_optionEvents hreceiver w,
    List.forall_mem_singleton.2 (hevent w)⟩) fun _ => within_of_mem_some

theorem Narrows.delegate {arguments : List Walk} (hk : k.Narrows p)
    (harguments : ∀ j ∈ arguments, j.Narrows p) :
    (delegate k arguments).Narrows p :=
  narrows_through fun w => List.forall_mem_append.2 ⟨hk.visit w, (narrows_visitAll harguments w).1⟩

theorem narrows_lambdaCall {event : Worlds → WalkEvent} {arguments : List Walk}
    (hevent : ∀ w, (event w).Fits p w) (harguments : ∀ j ∈ arguments, j.Narrows p) :
    (lambdaCall event arguments).Narrows p :=
  narrows_through fun w => List.forall_mem_cons.2 ⟨hevent w, (narrows_visitAll harguments w).1⟩

/-- A guard expression has no events but polls. -/
theorem fits_guardExpr (g : GuardExpr) (w v : Worlds) : ∀ e ∈ (g.split w).events, e.Fits p v := by
  induction g generalizing w with
  | constant b => cases b <;> exact List.forall_mem_singleton.2 trivial
  | check g => exact List.forall_mem_singleton.2 trivial
  | not g ih => exact List.forall_mem_cons.2 ⟨trivial, ih w⟩
  | and a b iha ihb =>
    exact List.forall_mem_cons.2 ⟨trivial, List.forall_mem_append.2 ⟨iha w, ihb _⟩⟩
  | or a b iha ihb =>
    exact List.forall_mem_cons.2 ⟨trivial, List.forall_mem_append.2 ⟨iha w, ihb _⟩⟩
  | compare keeps g ih => cases keeps <;> exact List.forall_mem_cons.2 ⟨trivial, ih w⟩

theorem narrows_cachedLocal (g : GuardExpr) : (cachedLocal g.split).Narrows p where
  visit _ := List.forall_mem_singleton.2 trivial
  after _ := within_of_mem_some
  split _ w := List.forall_mem_cons.2 ⟨trivial, fits_guardExpr g w w⟩
  whenTrue _ _ _ hx := (GuardExpr.mem_split.1.1 hx).1
  whenFalse _ _ _ hx := (GuardExpr.mem_split.2.1 hx).1

end Walk

namespace Operation

variable {scope : WalkScope}

/-- What a walk of an operation can invoke: the callables of the body that its unit invokes. -/
def Invokes (scope : WalkScope) (op : Operation) (key : CallableKey) : Prop :=
  (scope.callables.get? key).isSome = true ∧ ∃ node ∈ op.ownNodes, node.invoked? = some key

theorem Invokes.of_child {op child : Operation} {key : CallableKey} (h : child.Invokes scope key)
    (hdef : op.isCallableDefinition = false) (hchild : child ∈ op.children) :
    op.Invokes scope key := by
  obtain ⟨hdefined, node, hnode, hinvoked⟩ := h
  exact ⟨hdefined, node, mem_ownNodes.2 (.inr ⟨hdef, child, hchild, hnode⟩), hinvoked⟩

/-- A walk only narrows, and invokes what its unit invokes. -/
theorem walk_narrows (scope : WalkScope) (op : Operation) :
    (op.walk scope).Narrows (op.Invokes scope) := by
  induction op using children_induction with
  | step op ih =>
    have parts : op.isCallableDefinition = false → ∀ child ∈ op.children,
        (child.walk scope).Narrows (op.Invokes scope) :=
      fun hdef child hchild => (ih child hchild).mono fun key h => h.of_child hdef hchild
    have all : op.isCallableDefinition = false → ∀ ops : List Operation,
      (∀ child ∈ ops, child ∈ op.children) →
        ∀ k ∈ ops.map (walk scope), k.Narrows (op.Invokes scope) := by
      intro hdef ops hops k hk
      obtain ⟨child, hchild, rfl⟩ := List.mem_map.1 hk
      exact parts hdef child (hops child hchild)
    have option : op.isCallableDefinition = false → ∀ part : Option Operation,
      (∀ child ∈ part, child ∈ op.children) →
        ∀ k ∈ part.map (walk scope), k.Narrows (op.Invokes scope) := by
      intro hdef part hpart k hk
      obtain ⟨child, hchild, rfl⟩ := Option.mem_map.1 hk
      exact parts hdef child (hpart child hchild)
    cases op with
    | block span operations =>
      rw [walk, walkAll_eq_map]
      have each := Walk.narrows_visitAll (all rfl operations fun _ h => h)
      exact Walk.narrows_ofVisit (fun w => (each w).1) fun w => (each w).2
    | other span children =>
      rw [walk, walkAll_eq_map]
      have each := Walk.narrows_visitAll (all rfl children fun _ h => h)
      exact Walk.narrows_ofVisit (fun w => (each w).1) fun w => (each w).2
    | conditional span condition whenTrue whenFalse =>
      rw [walk, walkOption_eq_map]
      exact (parts rfl condition (by simp [children])).conditional
        (parts rfl whenTrue (by simp [children]))
        (option rfl whenFalse fun branch h => by simp [children, Option.mem_toList.2 h])
    | loop span condition body =>
      rw [walk, walkOption_eq_map]
      exact Walk.Narrows.loop
        (option rfl condition fun c h => by simp [children, Option.mem_toList.2 h])
        (parts rfl body (by simp [children]))
    | switch span value cases =>
      rw [walk, walkAll_eq_map]
      exact (parts rfl value (by simp [children])).switch
        (all rfl cases fun c h => by simp [children, h])
    | ret span value =>
      rw [walk, walkOption_eq_map]
      exact Walk.narrows_ofVisit
        (Walk.fits_optionEvents (option rfl value fun v h => by simpa [children] using h))
        fun w w' hw' => absurd hw' (by simp)
    | raise span value =>
      rw [walk, walkOption_eq_map]
      exact Walk.narrows_ofVisit
        (Walk.fits_optionEvents (option rfl value fun v h => by simpa [children] using h))
        fun w w' hw' => absurd hw' (by simp)
    | breakOut span =>
      rw [walk]
      exact Walk.narrows_ofVisit (fun w e he => absurd he List.not_mem_nil) fun w w' hw' =>
        absurd hw' (by simp)
    | continueLoop span =>
      rw [walk]
      exact Walk.narrows_ofVisit (fun w e he => absurd he List.not_mem_nil) fun w w' hw' =>
        absurd hw' (by simp)
    | invocation span target receiver arguments =>
      have hreceiver := option rfl receiver fun op h =>
        List.mem_append_left _ (Option.mem_toList.2 h)
      have harguments := all rfl arguments fun op h => List.mem_append_right _ h
      cases hassert : scope.isAssertion target && !arguments.isEmpty with
      | false =>
        rw [walk_call hassert]
        refine Walk.narrows_call (fun w => ?_) hreceiver harguments
        cases hlocal : scope.callables.isLocalFunction target with
        | true => exact ⟨.refl w, hlocal, _, mem_ownNodes.2 (.inl rfl), rfl⟩
        | false => exact .refl w
      | true =>
        cases arguments with
        | nil => exact absurd hassert (by simp)
        | cons condition rest =>
          rw [walk_assertion (by simpa using hassert)]
          exact (harguments _ List.mem_cons_self).assertion hreceiver fun k hk =>
            harguments k (List.mem_cons_of_mem _ hk)
    | delegateInvocation span target arguments =>
      have harguments := all rfl arguments fun op h => List.mem_cons_of_mem _ h
      by_cases hlambda : ∃ y, target.local? = some y ∧ scope.callables.isLambda y = true
      · obtain ⟨y, hlocal, hlambda⟩ := hlambda
        cases target with
        | localReference span' y' =>
          obtain rfl : y' = y := Option.some.inj hlocal
          rw [walk_lambdaCall hlambda]
          exact Walk.narrows_lambdaCall
            (fun w => ⟨.refl w, hlambda, _, mem_ownNodes.2 (.inl rfl), rfl⟩) harguments
        | _ => exact absurd hlocal (by simp [local?])
      · rw [walk_delegate fun y hlocal => Bool.eq_false_iff.2 fun h => hlambda ⟨y, hlocal, h⟩]
        exact (parts rfl target List.mem_cons_self).delegate harguments
    | memberReference span member receiver =>
      rw [walk, walkOption_eq_map]
      exact Walk.narrows_member (fun w => .refl w)
        (option rfl receiver fun op h => Option.mem_toList.2 h)
    | methodReference span method =>
      rw [walk]
      split
      · exact Walk.narrows_idle
      · exact Walk.narrows_member (fun w => .refl w) fun k hk => absurd hk (by simp)
    | objectCreation span constructor arguments =>
      rw [walk, walkAll_eq_map]
      exact Walk.narrows_call (fun w => .refl w) (fun k hk => absurd hk (by simp))
        (all rfl arguments fun _ h => h)
    | literal span value =>
      cases value with
      | bool b =>
        rw [walk]
        exact Walk.narrows_truth b
      | _ =>
        rw [walk]
        · exact Walk.narrows_idle
        · intro b
          simp
    | localReference span x =>
      rw [walk]
      split
      · exact Walk.narrows_cachedLocal _
      · exact Walk.narrows_idle
    | localAssignment span x value =>
      rw [walk, walkOption_eq_map]
      exact Walk.narrows_through
        (Walk.fits_optionEvents (option rfl value fun v h => by simpa [children] using h))
    | unary span operator operand =>
      cases operator with
      | not =>
        rw [walk]
        exact (parts rfl operand (by simp [children])).negation
      | other =>
        rw [walk]
        exact Walk.narrows_plainOperator (all rfl [operand] fun _ h => h)
    | binary span operator left right =>
      have hleft := parts rfl left (by simp [children])
      have hright := parts rfl right (by simp [children])
      have plain := Walk.narrows_plainOperator (all rfl [left, right] fun _ h => h)
      cases operator using BinaryOperator.cases_comparison with
      | and =>
        rw [walk]
        exact hleft.conjunction hright
      | or =>
        rw [walk]
        exact hleft.disjunction hright
      | comparison operator hop =>
        rw [walk_comparison hop]
        split
        · exact hleft.comparison
        · exact hright.comparison
        · exact plain
      | other =>
        rw [walk]
        exact plain
    | localFunction span symbol body =>
      rw [walk]
      exact Walk.narrows_idle
    | lambda span body =>
      rw [walk]
      exact Walk.narrows_idle

end Operation

/-! ## Where callables are walked from -/

/-- The worlds joined are those known before and those added. -/
theorem mem_foldl_joinWorlds {added : List Worlds} {known : Option Worlds} {v : Worlds} {x : World}
    (h : added.foldl joinWorlds known = some v) :
    x ∈ v ↔ (∃ w ∈ known, x ∈ w) ∨ ∃ w ∈ added, x ∈ w := by
  induction added generalizing known with
  | nil =>
    obtain rfl : known = some v := h
    simp
  | cons w rest ih =>
    rw [ih h, List.exists_mem_cons_iff, ← or_assoc]
    refine or_congr_left ?_
    cases known with
    | none => simp [joinWorlds]
    | some u => simp [joinWorlds]

theorem UnitWalk.mem_invocationsOf {scope : WalkScope} {u : UnitWalk}
    {callee : CallableKey} {w : Worlds} :
    w ∈ u.invocationsOf scope callee ↔ u.unit.key ≠ callee ∧ .invoke callee w ∈ u.events scope := by
  rw [invocationsOf, WalkUnit.invocationsOf]
  by_cases hself : u.unit.key = callee
  · simp [hself]
  · rw [if_neg hself, and_iff_right hself, List.mem_filterMap]
    constructor
    · rintro ⟨e, he, hw⟩
      cases e with
      | invoke key v =>
        rw [WalkEvent.invokes?] at hw
        split_ifs at hw with hkey
        rw [← hkey, ← Option.some.inj hw]
        exact he
      | poll | use => cases hw
    · exact fun he => ⟨_, he, if_pos rfl⟩

namespace BodyAnalysis

variable {a : BodyAnalysis} {contractOf : SymbolId → Contract} {walks : List UnitWalk} {x : World}

/-- What is known of the invocations of a callable: the worlds of all of them, in units other
than the callable itself. -/
theorem mem_invokedIn?_iff {callee : CallableKey} {invoked : Worlds}
    (h : a.invokedIn? walks callee = some invoked) :
    x ∈ invoked ↔ ∃ u ∈ walks, u.unit.key ≠ callee ∧ ∃ w,
    .invoke callee w ∈ u.events a.scope ∧ x ∈ w := by
  rw [mem_foldl_joinWorlds h]
  constructor
  · rintro (⟨w, hw, -⟩ | ⟨w, hw, hx⟩)
    · cases hw
    · obtain ⟨u, hu, hw⟩ := List.mem_flatMap.1 hw
      obtain ⟨hne, hevent⟩ := UnitWalk.mem_invocationsOf.1 hw
      exact ⟨u, hu, hne, w, hevent, hx⟩
  · rintro ⟨u, hu, hne, w, hevent, hx⟩
    exact .inr ⟨w, List.mem_flatMap.2 ⟨u, hu, UnitWalk.mem_invocationsOf.2 ⟨hne, hevent⟩⟩, hx⟩

/-- A callable is walked from the worlds that its contract allows, unless it is
known where it is invoked. -/
theorem mem_callableWalk_entry {d : CallableDef} {cyclic : Bool}
    (allowed : x ∈ (a.enclosing contractOf d.key).allowedWorlds)
    (h : d.escapes = false → cyclic = false → ∀ w, a.invokedIn? walks d.key = some w → x ∈ w) :
    x ∈ (a.callableWalk contractOf walks d cyclic).entry := by
  rw [callableWalk]
  cases hinvoked : a.invokedIn? walks d.key with
  | none => exact allowed
  | some w =>
    show x ∈ if _ then _ else _
    split
    · exact allowed
    case isFalse hknown =>
      obtain ⟨hescapes, hcyclic⟩ : d.escapes = false ∧ cyclic = false := by simpa using hknown
      exact Worlds.mem_inter.2 ⟨h hescapes hcyclic w hinvoked, allowed⟩

/-- The walk of a unit is about code with the contract of the unit. -/
def OfUnit (a : BodyAnalysis) (contractOf : SymbolId → Contract) (u : UnitWalk) : Prop :=
  u.unit.file = a.file ∧ u.unit.enclosing = a.enclosing contractOf u.unit.key

end BodyAnalysis

namespace MethodBody

variable {body : MethodBody} {reader : GuardReader} {contractOf : SymbolId → Contract} {x : World}

theorem walks_ofUnit : ∀ u ∈ body.walks reader contractOf,
    (body.analysis reader contractOf).OfUnit contractOf u :=
  BodyAnalysis.forall_mem_walksFrom (fun _ _ _ => ⟨rfl, rfl⟩) _
    (List.forall_mem_singleton.2 ⟨rfl, rfl⟩)

theorem bodyWalk_mem_walks :
    (body.analysis reader contractOf).bodyWalk body.body ∈ body.walks reader contractOf :=
  (BodyAnalysis.walks_prefix_walksFrom _ _ _ _).subset (List.mem_singleton_self _)

theorem unitsOf_keys_nodup (body : Operation) : ((CallableIndex.unitsOf body).map (·.1)).Nodup := by
  rw [← CallableIndex.units_ofBody, CallableIndex.units, List.nodup_cons]
  exact ⟨CallableIndex.body_not_mem_keys body, CallableIndex.ofBody_keys_nodup body⟩

section AnyOrder

variable {order earlier later : List (CallableKey × Bool)}

theorem mem_unitsOf_of_walksUpTo (first : body.body.InvokersFirst order) {u : UnitWalk}
    (hu : u ∈ body.walksUpTo reader contractOf order) :
    (u.unit.key, u.code) ∈ CallableIndex.unitsOf body.body :=
  (walksUpTo_perm first).mem_iff.1 (List.mem_map.2 ⟨u, hu, rfl⟩)

theorem walksUpTo_keys_nodup (first : body.body.InvokersFirst order) :
    ((body.walksUpTo reader contractOf order).map fun u => u.unit.key).Nodup := by
  have keys : (body.walksUpTo reader contractOf order).map (fun u => u.unit.key) =
      ((body.walksUpTo reader contractOf order).map fun u => (u.unit.key, u.code)).map (·.1) := by
    rw [List.map_map]
    rfl
  rw [keys]
  exact (((walksUpTo_perm first).map _).nodup_iff).2 (unitsOf_keys_nodup body.body)

theorem walksUpTo_isPrefix (earlier later : List (CallableKey × Bool)) :
    body.walksUpTo reader contractOf earlier <+: body.walksUpTo reader contractOf
      (earlier ++ later) := by
  rw [walksUpTo, walksUpTo, BodyAnalysis.walksFrom_append]
  exact BodyAnalysis.walks_prefix_walksFrom _ _ _ _

/-- A walk of the body or of an earlier callable is among the walks up to there. -/
theorem mem_walksUpTo (first : body.body.InvokersFirst (earlier ++ later)) {u : UnitWalk}
    (hu : u ∈ body.walksUpTo reader contractOf (earlier ++ later))
    (hkey : u.unit.key = .body ∨ u.unit.key ∈ earlier.map (·.1)) :
    u ∈ body.walksUpTo reader contractOf earlier := by
  have code := BodyAnalysis.walksFrom_code (body.analysis reader contractOf) contractOf earlier
    [(body.analysis reader contractOf).bodyWalk body.body]
  have same : ∃ code', (u.unit.key, code') ∈
      (body.walksUpTo reader contractOf earlier).map fun u => (u.unit.key, u.code) := by
    rw [walksUpTo, code]
    by_cases hbody : u.unit.key = .body
    · rw [hbody]
      exact ⟨body.body, List.mem_append_left _ (List.mem_singleton_self _)⟩
    · have hunit : u.unit.key ∈ (CallableIndex.ofBody body.body).units := by
        rw [CallableIndex.units_ofBody]
        exact List.mem_map.2 ⟨_, mem_unitsOf_of_walksUpTo first hu, rfl⟩
      obtain ⟨d, hd, hdkey⟩ := List.mem_map.1 ((List.mem_cons.1 hunit).resolve_left hbody)
      refine ⟨d.body,
        List.mem_append_right _ (List.mem_filterMap.2 ⟨_, hkey.resolve_left hbody, ?_⟩)⟩
      have hget : (body.analysis reader contractOf).scope.callables.get? u.unit.key = some d :=
        CallableIndex.get?_eq_some.2 ⟨hd, hdkey⟩
      rw [hget, ← hdkey]
      rfl
  -- a walk with this key is among them, and no two walks have one key
  obtain ⟨code', hcode⟩ := same
  obtain ⟨u', hu', heq⟩ := List.mem_map.1 hcode
  have hsame : u'.unit.key = u.unit.key := (Prod.mk.inj heq).1
  rw [← List.inj_on_of_nodup_map (walksUpTo_keys_nodup first)
    ((walksUpTo_isPrefix earlier later).subset hu') hu hsame]
  exact hu'

/-- A walk of a unit that invokes a callable is that of an invoker. -/
theorem unitInvokes_of_invoke (first : body.body.InvokersFirst order) {u : UnitWalk}
    {callee : CallableKey} {w : Worlds} (hu : u ∈ body.walksUpTo reader contractOf order)
    (hevent : .invoke callee w ∈ u.events (.ofBody reader body.body)) :
    body.body.UnitInvokes u.unit.key callee ∧ w.Within u.entry := by
  obtain ⟨within, hdefined, hnode⟩ :=
    (u.code.walk_narrows (.ofBody reader body.body)).visit u.entry _ hevent
  have hkey := CallableIndex.get?_isSome.1 hdefined
  rw [CallableIndex.ofBody_keys, mem_firstDefinitions_keys] at hkey
  exact ⟨⟨hkey, u.code, mem_unitsOf_of_walksUpTo first hu, hnode⟩, within⟩

end AnyOrder

theorem mem_unitsOf {u : UnitWalk} (hu : u ∈ body.walks reader contractOf) :
    (u.unit.key, u.code) ∈ CallableIndex.unitsOf body.body :=
  mem_unitsOf_of_walksUpTo (CallableIndex.walkOrder_invokersFirst body.body) hu

/-- Each callable has a walk, after those of the callables before it. -/
theorem exists_callableWalk {d : CallableDef} (hd : d ∈ (CallableIndex.ofBody body.body).defs) :
    ∃ earlier cyclic later,
      (CallableIndex.ofBody body.body).walkOrder = earlier ++ (d.key, cyclic) :: later ∧
      (body.analysis reader contractOf).callableWalk contractOf
        (body.walksUpTo reader contractOf earlier) d
        cyclic ∈ body.walks reader contractOf := by
  have hkey : d.key ∈ (CallableIndex.ofBody body.body).walkOrder.map (·.1) := by
    rw [(CallableIndex.walkOrder_invokersFirst body.body).mem_iff, ← mem_firstDefinitions_keys,
      ← CallableIndex.ofBody_keys]
    exact List.mem_map_of_mem hd
  obtain ⟨⟨key, cyclic⟩, hentry, rfl⟩ := List.mem_map.1 hkey
  obtain ⟨earlier, later, horder⟩ := List.append_of_mem hentry
  have hget : (body.analysis reader contractOf).scope.callables.get? d.key = some d :=
    CallableIndex.get?_eq_some.2 ⟨hd, rfl⟩
  have next : body.walksUpTo reader contractOf (earlier ++ [(d.key, cyclic)]) =
      body.walksUpTo reader contractOf earlier ++ [(body.analysis reader contractOf).callableWalk
        contractOf (body.walksUpTo reader contractOf earlier) d cyclic] := by
    rw [walksUpTo, BodyAnalysis.walksFrom_append, BodyAnalysis.walksFrom, hget]
    rfl
  have hinitial : body.walksUpTo reader contractOf (earlier ++ [(d.key, cyclic)]) <+:
      body.walksUpTo reader contractOf (CallableIndex.ofBody body.body).walkOrder := by
    rw [horder, List.append_cons earlier _ later]
    exact walksUpTo_isPrefix _ later
  rw [next] at hinitial
  exact ⟨earlier, cyclic, later, horder, hinitial.subset (by simp)⟩

/-- Where a callable is invoked, its own walk starts. -/
theorem exists_walk_of_invoke {d : CallableDef} {u : UnitWalk} {w : Worlds}
    (hd : d ∈ (CallableIndex.ofBody body.body).defs)
    (allowed : x ∈ ((body.analysis reader contractOf).enclosing contractOf d.key).allowedWorlds)
    (hu : u ∈ body.walks reader contractOf)
    (hevent : .invoke d.key w ∈ u.events (.ofBody reader body.body)) (hx : x ∈ w) :
    ∃ v ∈ body.walks reader contractOf, v.code = d.body ∧ x ∈ v.entry := by
  have first := CallableIndex.walkOrder_invokersFirst body.body
  obtain ⟨earlier, cyclic, later, horder, hwalk⟩ := exists_callableWalk hd
  obtain ⟨hinvokes, within⟩ := unitInvokes_of_invoke first hu hevent
  by_cases hself : u.unit.key = d.key
  · -- what a unit knows of itself is known where its walk starts
    have same := List.inj_on_of_nodup_map (walksUpTo_keys_nodup first) hu hwalk hself
    exact ⟨u, hu, congrArg UnitWalk.code same, within x hx⟩
  · refine ⟨_, hwalk, rfl, BodyAnalysis.mem_callableWalk_entry allowed fun _ hcyclic v hv => ?_⟩
    -- off cycles every invoker is walked before, so that the event is among those that were joined
    rw [hcyclic] at horder
    have hearlier := first.mem_earlier horder hinvokes hself
    have hu : u ∈ body.walksUpTo reader contractOf (CallableIndex.ofBody body.body).walkOrder := hu
    rw [horder] at first hu
    exact (BodyAnalysis.mem_invokedIn?_iff hv).2
      ⟨u, mem_walksUpTo first hu hearlier, hself, w, hevent, hx⟩

/-- A callable that escapes is walked from all worlds that its contract allows. -/
theorem exists_walk_of_escapes {d : CallableDef} (hd : d ∈ (CallableIndex.ofBody body.body).defs)
    (hescapes : d.escapes = true)
    (allowed : x ∈ ((body.analysis reader contractOf).enclosing contractOf d.key).allowedWorlds) :
    ∃ v ∈ body.walks reader contractOf, v.code = d.body ∧ x ∈ v.entry := by
  obtain ⟨earlier, cyclic, later, horder, hwalk⟩ := exists_callableWalk hd
  refine ⟨_, hwalk, rfl, BodyAnalysis.mem_callableWalk_entry allowed fun hkept => ?_⟩
  exact absurd (hescapes.symm.trans hkept) (by simp)

end MethodBody

end PlatformGuard
