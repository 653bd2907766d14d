import PlatformGuard.Operation.Basic

/-!
# Induction over operation trees

What holds of an operation whenever it holds of its children holds of every operation. The lists and
options of children are seen through `Operation.children` only. Binary operators are taken by cases
with both comparisons in one.
-/

namespace PlatformGuard

/-- Binary operators by how they are read: the two comparisons are read alike. -/
@[elab_as_elim] theorem BinaryOperator.cases_comparison {P : BinaryOperator → Prop}
    (and : P .and) (or : P .or)
    (comparison : ∀ operator, operator = .equals ∨ operator = .notEquals → P operator)
    (other : P .other) (operator : BinaryOperator) : P operator := by
  cases operator with
  | and => exact and
  | or => exact or
  | equals => exact comparison .equals (.inl rfl)
  | notEquals => exact comparison .notEquals (.inr rfl)
  | other => exact other

namespace Operation

theorem sizeOf_lt_of_mem_children {op child : Operation} (h : child ∈ op.children) :
    sizeOf child < sizeOf op := by
  have inList : ∀ {ops : List Operation}, child ∈ ops → sizeOf child < sizeOf ops :=
    List.sizeOf_lt_of_mem
  have inOption : ∀ {o : Option Operation}, child ∈ o.toList → sizeOf child < sizeOf o := by
    intro o ho
    obtain rfl : o = some child := by simpa using ho
    simp
  cases op <;>
    simp only [children, List.mem_cons, List.mem_append, List.not_mem_nil, or_false] at h <;> grind

/-- Induction from the children of an operation to the operation. -/
@[elab_as_elim] theorem children_induction {P : Operation → Prop}
    (step : ∀ op, (∀ child ∈ op.children, P child) → P op) (op : Operation) : P op :=
  step op fun child _h => children_induction step child
termination_by sizeOf op
decreasing_by exact sizeOf_lt_of_mem_children _h

end Operation

end PlatformGuard
