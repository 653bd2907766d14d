import PlatformGuard.Proofs.Entry

/-!
# Walks that recognise less

Two walks of one operation, in scopes of which one recognises every check that the other does and
maybe more. From worlds within those of the other, the walk that recognises more has the same
events in the same order, each in worlds within those of the other walk
(`Operation.walk_within`). Only polls may differ in number, since a local that stands for a guard
expression is split where it is recognised.

With one scope for both, this says that walks are monotone in the worlds they start from.
-/

namespace PlatformGuard

namespace Worlds.Within

variable {u v w x : Worlds}

theorem union_mono (h : u.Within w) (h' : v.Within x) : (u.union v).Within (w.union x) := by
  intro y hy
  rcases mem_union.1 hy with hy | hy
  · exact mem_union.2 (.inl (h y hy))
  · exact mem_union.2 (.inr (h' y hy))

theorem inter_mono (h : u.Within w) : (u.inter x).Within (w.inter x) := by
  intro y hy
  obtain ⟨hu, hx⟩ := mem_inter.1 hy
  exact mem_inter.2 ⟨h y hu, hx⟩

theorem sdiff_mono (h : u.Within w) : (u.sdiff x).Within (w.sdiff x) := by
  intro y hy
  obtain ⟨hu, hx⟩ := mem_sdiff.1 hy
  exact mem_sdiff.2 ⟨h y hu, hx⟩

theorem inter_left : (u.inter x).Within u := fun _ hy => (mem_inter.1 hy).1

theorem sdiff_left : (u.sdiff x).Within u := fun _ hy => (mem_sdiff.1 hy).1

end Worlds.Within

/-! ## Events, visits and splits -/

/-- The same events, polls apart, each in worlds within those of the other. -/
inductive EventsWithin : List WalkEvent → List WalkEvent → Prop where
  | nil : EventsWithin [] []
  | pollLeft {es fs : List WalkEvent} : EventsWithin es fs → EventsWithin (.poll :: es) fs
  | pollRight {es fs : List WalkEvent} : EventsWithin es fs → EventsWithin es (.poll :: fs)
  | use {es fs : List WalkEvent} (target : SymbolId) (span : Span) {v w : Worlds} :
      v.Within w → EventsWithin es fs →
      EventsWithin (.use target span v :: es) (.use target span w :: fs)
  | invoke {es fs : List WalkEvent} (callee : CallableKey) {v w : Worlds} :
      v.Within w → EventsWithin es fs →
      EventsWithin (.invoke callee v :: es) (.invoke callee w :: fs)

namespace EventsWithin

variable {es fs es' fs' : List WalkEvent}

theorem polls (h : EventsWithin es fs) : EventsWithin (.poll :: es) (.poll :: fs) :=
  .pollLeft (.pollRight h)

theorem append (h : EventsWithin es fs) (h' : EventsWithin es' fs') :
    EventsWithin (es ++ es') (fs ++ fs') := by
  induction h with
  | nil => exact h'
  | pollLeft _ ih => exact .pollLeft ih
  | pollRight _ ih => exact .pollRight ih
  | use target span hw _ ih => exact .use target span hw ih
  | invoke callee hw _ ih => exact .invoke callee hw ih

theorem of_polls (hes : ∀ e ∈ es, e = .poll) (hfs : ∀ f ∈ fs, f = .poll) : EventsWithin es fs := by
  induction es with
  | nil =>
    induction fs with
    | nil => exact .nil
    | cons f rest ih =>
      obtain ⟨rfl, hrest⟩ := List.forall_mem_cons.1 hfs
      exact .pollRight (ih hrest)
  | cons e rest ih =>
    obtain ⟨rfl, hrest⟩ := List.forall_mem_cons.1 hes
    exact .pollLeft (ih hrest)

theorem flatMap {ι : Type} {parts : List ι} {f g : ι → List WalkEvent}
    (h : ∀ i ∈ parts, EventsWithin (f i) (g i)) :
    EventsWithin (parts.flatMap f) (parts.flatMap g) := by
  induction parts with
  | nil => exact .nil
  | cons i rest ih =>
    rw [List.flatMap_cons, List.flatMap_cons]
    exact (h i List.mem_cons_self).append (ih fun j hj => h j (List.mem_cons_of_mem _ hj))

end EventsWithin

structure Visit.Within (a b : Visit) : Prop where
  events : EventsWithin a.events b.events
  after : Option.Rel Worlds.Within a.after b.after

structure Split.Within (a b : Split) : Prop where
  events : EventsWithin a.events b.events
  whenTrue : a.whenTrue.Within b.whenTrue
  whenFalse : a.whenFalse.Within b.whenFalse

theorem Split.Within.swap {a b : Split} (h : a.Within b) : a.swap.Within b.swap :=
  ⟨h.events, h.whenFalse, h.whenTrue⟩

/-! ## Combinators -/

namespace Walk

/-- From worlds within others, a walk stays within the other walk. -/
structure Within (k j : Walk) : Prop where
  visit : ∀ {v w : Worlds}, v.Within w → (k.visit v).Within (j.visit w)
  split : ∀ (report : Bool) {v w : Worlds}, v.Within w →
    (k.split report v).Within (j.split report w)

/-- The first walk may be split by a check that the second does not recognise. -/
theorem within_ofVisit {guard guard' : Option Worlds} {visit visit' : Worlds → Visit}
    (hguard : ∀ g, guard' = some g → guard = some g)
    (h : ∀ {v w : Worlds}, v.Within w → (visit v).Within (visit' w)) :
    (ofVisit guard visit).Within (ofVisit guard' visit') where
  visit hw := ⟨(h hw).events.polls, (h hw).after⟩
  split report v w hw := by
    have seen : EventsWithin (if report then .poll :: (visit v).events else [])
        (if report then .poll :: (visit' w).events else []) := by
      cases report with
      | true => exact (h hw).events.polls
      | false => exact .nil
    cases guard' with
    | some g =>
      obtain rfl := hguard g rfl
      exact ⟨seen.polls, hw.inter_mono, hw.sdiff_mono⟩
    | none =>
      cases guard with
      | none => exact ⟨seen.polls, hw, hw⟩
      | some g =>
        exact ⟨seen.polls, Worlds.Within.inter_left.trans hw, Worlds.Within.sdiff_left.trans hw⟩

theorem within_through {events events' : Worlds → List WalkEvent}
    (h : ∀ {v w : Worlds}, v.Within w → EventsWithin (events v) (events' w)) :
    (through events).Within (through events') :=
  within_ofVisit (fun _ => id) fun hw => ⟨h hw, .some hw⟩

theorem within_idle : idle.Within idle := within_through fun _ => .nil

theorem within_ofSplit {split split' : Bool → Worlds → Split}
    (h : ∀ (report : Bool) {v w : Worlds}, v.Within w → (split report v).Within (split' report w)) :
    (ofSplit split).Within (ofSplit split') where
  visit hw := ⟨(h true hw).events.polls.polls, .some hw⟩
  split report _ _ hw :=
    ⟨(h report hw).events.polls, (h report hw).whenTrue, (h report hw).whenFalse⟩

section Parts

variable {ι : Type} {walk walk' : ι → Walk} {v w : Worlds}

theorem within_visitAll {parts : List ι} (h : ∀ i ∈ parts, (walk i).Within (walk' i))
    (hw : v.Within w) :
    (visitAll (parts.map walk) v).Within (visitAll (parts.map walk') w) := by
  induction parts generalizing v w with
  | nil => exact ⟨.nil, .some hw⟩
  | cons i rest ih =>
    have first := (h i List.mem_cons_self).visit hw
    have others : ∀ j ∈ rest, (walk j).Within (walk' j) :=
      fun j hj => h j (List.mem_cons_of_mem _ hj)
    rw [List.map_cons, List.map_cons, visitAll, visitAll]
    -- both fall through, or neither does
    have after := first.after
    generalize hleft : ((walk i).visit v).after = left at after
    generalize hright : ((walk' i).visit w).after = right at after
    cases after with
    | some hnext =>
      have then' := ih others hnext
      exact ⟨first.events.append then'.events, then'.after⟩
    | none =>
      refine ⟨first.events.append ?_, .none⟩
      rw [List.flatMap_map, List.flatMap_map]
      exact EventsWithin.flatMap fun j hj => ((others j hj).visit (.refl .none)).events

theorem within_optionEvents {part : Option ι} (h : ∀ i ∈ part, (walk i).Within (walk' i))
    (hw : v.Within w) :
    EventsWithin (optionEvents (part.map walk) v) (optionEvents (part.map walk') w) := by
  cases part with
  | none => exact .nil
  | some i => exact ((h i rfl).visit hw).events

end Parts

variable {k j k' j' : Walk}

theorem within_joinAfter {a b a' b' : Option Worlds} (ha : Option.Rel Worlds.Within a a')
    (hb : Option.Rel Worlds.Within b b') :
    Option.Rel Worlds.Within (joinAfter a b) (joinAfter a' b') := by
  cases ha with
  | none => exact hb
  | some ha =>
    cases hb with
    | none => exact .some ha
    | some hb => exact .some (ha.union_mono hb)

theorem Within.conditional {other other' : Option Walk} {c c' : Walk} (hc : c.Within c')
    (hk : k.Within k') (hother : Option.Rel Within other other') :
    (conditional c k other).Within (conditional c' k' other') := by
  refine within_ofVisit (fun _ => id) fun hw => ?_
  have condition := hc.split true hw
  have onTrue := hk.visit condition.whenTrue
  cases hother with
  | none =>
    exact ⟨(condition.events.append onTrue.events).append .nil,
      within_joinAfter onTrue.after (.some condition.whenFalse)⟩
  | some hj =>
    have onFalse := hj.visit condition.whenFalse
    exact ⟨(condition.events.append onTrue.events).append onFalse.events,
      within_joinAfter onTrue.after onFalse.after⟩

theorem Within.loop {c c' : Option Walk} (hc : Option.Rel Within c c') (hk : k.Within k') :
    (loop c k).Within (loop c' k') := by
  cases hc with
  | none => exact within_through fun hw => (hk.visit hw).events
  | some hc =>
    refine within_through fun hw => ?_
    have condition := hc.split true hw
    exact condition.events.append (hk.visit condition.whenTrue).events

theorem within_truth (b : Bool) : (truth b).Within (truth b) where
  visit hw := ⟨.polls .nil, .some hw⟩
  split report v w hw := by
    cases b with
    | true => exact ⟨.polls .nil, hw, .refl .none⟩
    | false => exact ⟨.polls .nil, .refl .none, hw⟩

theorem Within.negation (hk : k.Within k') : (negation k).Within (negation k') :=
  within_ofSplit fun report _ _ hw => (hk.split report hw).swap

theorem Within.conjunction (hk : k.Within k') (hj : j.Within j') :
    (conjunction k j).Within (conjunction k' j') := by
  refine within_ofSplit fun report _ _ hw => ?_
  have left := hk.split report hw
  have right := hj.split report left.whenTrue
  exact ⟨left.events.append right.events, right.whenTrue, left.whenFalse.union_mono right.whenFalse⟩

theorem Within.disjunction (hk : k.Within k') (hj : j.Within j') :
    (disjunction k j).Within (disjunction k' j') := by
  refine within_ofSplit fun report _ _ hw => ?_
  have left := hk.split report hw
  have right := hj.split report left.whenFalse
  exact ⟨left.events.append right.events, left.whenTrue.union_mono right.whenTrue, right.whenFalse⟩

theorem Within.comparison {keeps : Bool} (hk : k.Within k') :
    (comparison keeps k).Within (comparison keeps k') := by
  cases keeps with
  | true => exact within_ofSplit fun report _ _ hw => hk.split report hw
  | false => exact within_ofSplit fun report _ _ hw => (hk.split report hw).swap

theorem within_plainOperator {ι : Type} {walk walk' : ι → Walk} {operands : List ι}
    (h : ∀ i ∈ operands, (walk i).Within (walk' i)) :
    (plainOperator (operands.map walk)).Within (plainOperator (operands.map walk')) := by
  refine within_ofSplit fun report _ _ hw => ⟨?_, hw, hw⟩
  cases report with
  | true => exact (within_visitAll h hw).events
  | false => exact .nil

/-- A guard expression has no events but polls. -/
theorem eq_poll_of_mem_guardExpr (g : GuardExpr) (v : Worlds) :
    ∀ e ∈ (g.split v).events, e = .poll := by
  induction g generalizing v with
  | constant b => cases b <;> exact List.forall_mem_singleton.2 rfl
  | check g => exact List.forall_mem_singleton.2 rfl
  | not g ih => exact List.forall_mem_cons.2 ⟨rfl, ih v⟩
  | and a b iha ihb => exact List.forall_mem_cons.2 ⟨rfl, List.forall_mem_append.2 ⟨iha v, ihb _⟩⟩
  | or a b iha ihb => exact List.forall_mem_cons.2 ⟨rfl, List.forall_mem_append.2 ⟨iha v, ihb _⟩⟩
  | compare keeps g ih => cases keeps <;> exact List.forall_mem_cons.2 ⟨rfl, ih v⟩

theorem within_cachedLocal (g : GuardExpr) :
    (cachedLocal g.split).Within (cachedLocal g.split) where
  visit hw := ⟨.polls .nil, .some hw⟩
  split _ v w hw := by
    refine ⟨.polls (.of_polls (eq_poll_of_mem_guardExpr g v) (eq_poll_of_mem_guardExpr g w)),
      fun x hx => ?_, fun x hx => ?_⟩
    · obtain ⟨hv, hg⟩ := GuardExpr.mem_split.1.1 hx
      exact GuardExpr.mem_split.1.2 ⟨hw x hv, hg⟩
    · obtain ⟨hv, hg⟩ := GuardExpr.mem_split.2.1 hx
      exact GuardExpr.mem_split.2.2 ⟨hw x hv, hg⟩

/-- A local that is not known to stand for a guard expression splits nothing. -/
theorem within_cachedLocal_idle (g : GuardExpr) : (cachedLocal g.split).Within idle where
  visit hw := ⟨.polls .nil, .some hw⟩
  split report v w hw := by
    refine ⟨.polls (.of_polls (eq_poll_of_mem_guardExpr g v) ?_), fun x hx =>
      hw x (GuardExpr.mem_split.1.1 hx).1,
      fun x hx => hw x (GuardExpr.mem_split.2.1 hx).1⟩
    cases report with
    | true => exact List.forall_mem_singleton.2 rfl
    | false => exact fun e he => absurd he List.not_mem_nil

end Walk

/-! ## Operations -/

/-- Two scopes of one body, of which the first recognises every check that the second does. -/
structure WalkScope.RecognisesMore (fine coarse : WalkScope) : Prop where
  callables : fine.callables = coarse.callables
  assertion : fine.isAssertion = coarse.isAssertion
  call : ∀ target arguments g, coarse.callWorlds? target arguments = some g →
    fine.callWorlds? target arguments = some g
  member : ∀ m g, coarse.memberWorlds? m = some g → fine.memberWorlds? m = some g
  cached : ∀ x e, coarse.cached.find? x = some e → fine.cached.find? x = some e

namespace Operation

variable {fine coarse : WalkScope}

theorem rel_map_walk {part : Option Operation}
    (h : ∀ op ∈ part, (op.walk fine).Within (op.walk coarse)) :
    Option.Rel Walk.Within (part.map (walk fine)) (part.map (walk coarse)) := by
  cases part with
  | none => exact .none
  | some op => exact .some (h op rfl)

theorem walk_invocation_within (more : fine.RecognisesMore coarse) {span : Span} {target : SymbolId}
    {receiver : Option Operation} {arguments : List Operation}
    (hreceiver : ∀ op ∈ receiver, (op.walk fine).Within (op.walk coarse))
    (harguments : ∀ op ∈ arguments, (op.walk fine).Within (op.walk coarse)) :
    ((invocation span target receiver arguments).walk fine).Within
      ((invocation span target receiver arguments).walk coarse) := by
  have guard := more.call target arguments
  cases hassert : coarse.isAssertion target && !arguments.isEmpty with
  | false =>
    rw [walk_call (more.assertion ▸ hassert), walk_call hassert, more.callables]
    refine Walk.within_ofVisit guard fun hw => ⟨?_, .some hw⟩
    refine ((Walk.within_optionEvents hreceiver hw).append
      (Walk.within_visitAll harguments hw).events).append ?_
    cases coarse.callables.isLocalFunction target with
    | true => exact .invoke (.function target) hw .nil
    | false => exact .use target span hw .nil
  | true =>
    cases arguments with
    | nil => exact absurd hassert (by simp)
    | cons condition rest =>
      have hcoarse : coarse.isAssertion target = true := by simpa using hassert
      rw [walk_assertion (more.assertion ▸ hcoarse), walk_assertion hcoarse]
      refine Walk.within_ofVisit guard fun hw => ?_
      have asserted := (harguments condition List.mem_cons_self).split true hw
      have others :=
        Walk.within_visitAll (fun op hop => harguments op (List.mem_cons_of_mem _ hop))
          asserted.whenTrue
      exact ⟨((Walk.within_optionEvents hreceiver hw).append asserted.events).append others.events,
        .some asserted.whenTrue⟩

theorem walk_delegateInvocation_within (more : fine.RecognisesMore coarse) {span : Span}
    {target : Operation} {arguments : List Operation}
    (htarget : (target.walk fine).Within (target.walk coarse))
    (harguments : ∀ op ∈ arguments, (op.walk fine).Within (op.walk coarse)) :
    ((delegateInvocation span target arguments).walk fine).Within
      ((delegateInvocation span target arguments).walk coarse) := by
  by_cases hlambda : ∃ y, target.local? = some y ∧ coarse.callables.isLambda y = true
  · obtain ⟨y, hlocal, hlambda⟩ := hlambda
    cases target with
    | localReference span' y' =>
      obtain rfl : y' = y := Option.some.inj hlocal
      rw [walk_lambdaCall (more.callables ▸ hlambda), walk_lambdaCall hlambda]
      exact Walk.within_through fun hw => .invoke _ hw (Walk.within_visitAll harguments hw).events
    | _ => exact absurd hlocal (by simp [local?])
  · have visited : ∀ y, target.local? = some y → coarse.callables.isLambda y = false :=
      fun y hlocal => Bool.eq_false_iff.2 fun h => hlambda ⟨y, hlocal, h⟩
    rw [walk_delegate (more.callables ▸ visited), walk_delegate visited]
    exact Walk.within_through fun hw =>
      (htarget.visit hw).events.append (Walk.within_visitAll harguments hw).events

theorem walk_binary_within {span : Span} {operator : BinaryOperator} {left right : Operation}
    (hleft : (left.walk fine).Within (left.walk coarse))
    (hright : (right.walk fine).Within (right.walk coarse)) :
    ((binary span operator left right).walk fine).Within
      ((binary span operator left right).walk coarse) := by
  have plain : (Walk.plainOperator ([left, right].map (walk fine))).Within
      (Walk.plainOperator ([left, right].map (walk coarse))) := by
    refine Walk.within_plainOperator fun op hop => ?_
    rcases List.mem_cons.1 hop with rfl | hop
    · exact hleft
    · exact List.mem_singleton.1 hop ▸ hright
  cases operator using BinaryOperator.cases_comparison with
  | and =>
    rw [walk, walk]
    exact hleft.conjunction hright
  | or =>
    rw [walk, walk]
    exact hleft.disjunction hright
  | comparison operator hop =>
    rw [walk_comparison hop, walk_comparison hop]
    cases comparedSide? left right with
    | none => exact plain
    | some side =>
      cases side with
      | left b => exact hleft.comparison
      | right b => exact hright.comparison
  | other =>
    rw [walk, walk]
    exact plain

/-- A walk that recognises more stays within one that recognises less. -/
theorem walk_within (more : fine.RecognisesMore coarse) (op : Operation) :
    (op.walk fine).Within (op.walk coarse) := by
  induction op using children_induction with
  | step op ih =>
    cases op with
    | block span operations =>
      rw [walk, walk, walkAll_eq_map, walkAll_eq_map]
      exact Walk.within_ofVisit (fun _ => id) (Walk.within_visitAll ih)
    | other span children =>
      rw [walk, walk, walkAll_eq_map, walkAll_eq_map]
      exact Walk.within_ofVisit (fun _ => id) (Walk.within_visitAll ih)
    | conditional span condition whenTrue whenFalse =>
      rw [walk, walk, walkOption_eq_map, walkOption_eq_map]
      exact (ih condition (by simp [children])).conditional (ih whenTrue (by simp [children]))
        (rel_map_walk fun op hop => ih op (by simp [children, Option.mem_toList.2 hop]))
    | loop span condition body =>
      rw [walk, walk, walkOption_eq_map, walkOption_eq_map]
      exact Walk.Within.loop
        (rel_map_walk fun op hop => ih op (by simp [children, Option.mem_toList.2 hop]))
        (ih body (by simp [children]))
    | switch span value cases =>
      rw [walk, walk, walkAll_eq_map, walkAll_eq_map]
      refine Walk.within_through fun hw =>
        ((ih value (by simp [children])).visit hw).events.append ?_
      rw [List.flatMap_map, List.flatMap_map]
      exact EventsWithin.flatMap fun c hc => ((ih c (by simp [children, hc])).visit hw).events
    | ret span value =>
      rw [walk, walk, walkOption_eq_map, walkOption_eq_map]
      exact Walk.within_ofVisit (fun _ => id) fun hw =>
        ⟨Walk.within_optionEvents (fun op hop => ih op (by simpa [children] using hop)) hw, .none⟩
    | raise span value =>
      rw [walk, walk, walkOption_eq_map, walkOption_eq_map]
      exact Walk.within_ofVisit (fun _ => id) fun hw =>
        ⟨Walk.within_optionEvents (fun op hop => ih op (by simpa [children] using hop)) hw, .none⟩
    | breakOut span =>
      rw [walk, walk]
      exact Walk.within_ofVisit (fun _ => id) fun _ => ⟨.nil, .none⟩
    | continueLoop span =>
      rw [walk, walk]
      exact Walk.within_ofVisit (fun _ => id) fun _ => ⟨.nil, .none⟩
    | invocation span target receiver arguments =>
      exact walk_invocation_within more
        (fun op hop => ih op (List.mem_append_left _ (Option.mem_toList.2 hop)))
        fun op hop => ih op (List.mem_append_right _ hop)
    | delegateInvocation span target arguments =>
      exact walk_delegateInvocation_within more (ih target List.mem_cons_self)
        fun op hop => ih op (List.mem_cons_of_mem _ hop)
    | memberReference span member receiver =>
      rw [walk, walk, walkOption_eq_map, walkOption_eq_map]
      refine Walk.within_ofVisit (more.member member) fun hw => ⟨?_, .some hw⟩
      exact (Walk.within_optionEvents (fun op hop => ih op (Option.mem_toList.2 hop)) hw).append
        (.use _ _ hw .nil)
    | methodReference span method =>
      rw [walk, walk, more.callables]
      split
      · exact Walk.within_idle
      · exact Walk.within_ofVisit (fun _ => id) fun hw => ⟨.use _ _ hw .nil, .some hw⟩
    | objectCreation span constructor arguments =>
      rw [walk, walk, walkAll_eq_map, walkAll_eq_map]
      exact Walk.within_ofVisit (fun _ => id) fun hw =>
        ⟨(Walk.within_visitAll ih hw).events.append (.use _ _ hw .nil), .some hw⟩
    | literal span value =>
      cases value with
      | bool b =>
        rw [walk, walk]
        exact Walk.within_truth b
      | _ =>
        rw [walk, walk]
        · exact Walk.within_idle
        · simp
        · simp
    | localReference span x =>
      rw [walk, walk]
      cases hcoarse : coarse.cached.find? x with
      | some e =>
        rw [more.cached x e hcoarse]
        exact Walk.within_cachedLocal e
      | none =>
        cases fine.cached.find? x with
        | none => exact Walk.within_idle
        | some e => exact Walk.within_cachedLocal_idle e
    | localAssignment span x value =>
      rw [walk, walk, walkOption_eq_map, walkOption_eq_map]
      exact Walk.within_through
        (Walk.within_optionEvents fun op hop => ih op (by simpa [children] using hop))
    | unary span operator operand =>
      have hoperand := ih operand (by simp [children])
      cases operator with
      | not =>
        rw [walk, walk]
        exact hoperand.negation
      | other =>
        rw [walk, walk]
        have one : ∀ op ∈ [operand], (op.walk fine).Within (op.walk coarse) :=
          List.forall_mem_singleton.2 hoperand
        exact Walk.within_plainOperator one
    | binary span operator left right =>
      exact walk_binary_within (ih left (by simp [children])) (ih right (by simp [children]))
    | localFunction span symbol body =>
      rw [walk, walk]
      exact Walk.within_idle
    | lambda span body =>
      rw [walk, walk]
      exact Walk.within_idle

end Operation

end PlatformGuard
