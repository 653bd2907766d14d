import PlatformGuard.Proofs.OperationTree
import PlatformGuard.Proofs.WorldAlgebra
import PlatformGuard.Walk.Operation

/-!
# How conditions split the worlds

A condition has a verdict: the worlds in which it can be true, and those in which it can be false. A
platform check has one answer in each world; what is not understood can have both. The walk
evaluates with short circuits, the right operand in the worlds the left one leaves, and joins
afterwards. The verdict is symmetric in the operands. That the two agree rests on the fact that
every condition has an answer in every world (`Verdict.Covers`).

* `CachedGuards.find?_ofBody`: which locals stand for a guard expression, told by the
  operations of the body.
* `GuardExpr.mem_split`: a guard expression splits by its worlds.
* `Operation.walk_splitsBy_of_locals`: a condition splits by its verdict, in any scope.
* `Operation.walk_splitsBy`: so it does in the scope of a body.
* `split_by_verdict`: the two parts exactly, that they join to the whole, and when they are
  disjoint.
-/

namespace PlatformGuard

/-- What comes after the first of two answers adds nothing where the other answer is given
anyway. -/
theorem or_and_of_or {p t f g : Prop} (h : t ∨ f) : p ∧ f ∨ (p ∧ t) ∧ g ↔ p ∧ (f ∨ g) := by
  constructor
  · rintro (⟨hp, hf⟩ | ⟨⟨hp, _⟩, hg⟩)
    · exact ⟨hp, .inl hf⟩
    · exact ⟨hp, .inr hg⟩
  · rintro ⟨hp, hf | hg⟩
    · exact .inl ⟨hp, hf⟩
    · rcases h with ht | hf
      · exact .inr ⟨⟨hp, ht⟩, hg⟩
      · exact .inl ⟨hp, hf⟩

/-! ## Verdicts -/

/-- Where a condition can be true and where it can be false. -/
structure Verdict where
  canBeTrue : Worlds
  canBeFalse : Worlds

namespace Verdict

def unknown : Verdict := ⟨.all, .all⟩

def constant (b : Bool) : Verdict := if b then ⟨.all, .none⟩ else ⟨.none, .all⟩

/-- A check that answers true in some worlds and false in the others; nothing is known without
one. -/
def ofGuard? : Option Guard → Verdict
  | some (.fact f) => ⟨f.worlds, f.worlds.compl⟩
  | some (.member trueIn) => ⟨trueIn, trueIn.compl⟩
  | none => unknown

theorem ofGuard?_some (g : Guard) : ofGuard? (some g) = ⟨g.worlds, g.worlds.compl⟩ := by
  cases g <;> rfl

def swap (v : Verdict) : Verdict := ⟨v.canBeFalse, v.canBeTrue⟩

/-- True where both can be true, false where one can be false. -/
def and (v u : Verdict) : Verdict :=
    ⟨v.canBeTrue.inter u.canBeTrue, v.canBeFalse.union u.canBeFalse⟩

/-- True where one can be true, false where both can be false. -/
def or (v u : Verdict) : Verdict := ⟨v.canBeTrue.union u.canBeTrue, v.canBeFalse.inter u.canBeFalse⟩

def compared : BinaryOperator → Bool → Verdict → Verdict
  | .equals, true, v | .notEquals, false, v => v
  | _, _, v => v.swap

/-- There is an answer in every world. -/
def Covers (v : Verdict) : Prop := ∀ x, x ∈ v.canBeTrue ∨ x ∈ v.canBeFalse

/-- There is one answer in every world, and it is true in the given ones. -/
def Decides (v : Verdict) (w : Worlds) : Prop :=
  ∀ x, (x ∈ v.canBeTrue ↔ x ∈ w) ∧ (x ∈ v.canBeFalse ↔ x ∉ w)

end Verdict

/-- The verdict on a condition, given those on the locals it may read. -/
def Operation.verdictWith (r : GuardReader) (locals : LocalId → Verdict) : Operation → Verdict
  | .literal _ (.bool b) => .constant b
  | .invocation _ target _ arguments => .ofGuard? (r.ofCall? target arguments)
  | .memberReference _ member _ => .ofGuard? (r.ofMember? member)
  | .localReference _ x => locals x
  | .unary _ .not operand => (verdictWith r locals operand).swap
  | .binary _ operator left right =>
    let onLeft := verdictWith r locals left
    let onRight := verdictWith r locals right
    match operator with
    | .and => onLeft.and onRight
    | .or => onLeft.or onRight
    | .equals | .notEquals =>
      match left.bool?, right.bool? with
      | _, some b => onLeft.compared operator b
      | some b, none => onRight.compared operator b
      | none, none => .unknown
    | .other => .unknown
  | _ => .unknown

/-- Whether everything in a condition is understood, given which locals are. -/
def Operation.isUnderstood (r : GuardReader) (locals : LocalId → Bool) : Operation → Bool
  | .literal _ (.bool _) => true
  | .invocation _ target _ arguments => (r.ofCall? target arguments).isSome
  | .memberReference _ member _ => (r.ofMember? member).isSome
  | .localReference _ x => locals x
  | .unary _ .not operand => isUnderstood r locals operand
  | .binary _ operator left right =>
    let onLeft := isUnderstood r locals left
    let onRight := isUnderstood r locals right
    match operator with
    | .and | .or => onLeft && onRight
    | .equals | .notEquals =>
      match left.bool?, right.bool? with
      | _, some _ => onLeft
      | some _, none => onRight
      | none, none => false
    | .other => false
  | _ => false

/-! ## Locals that stand for a guard expression -/

def Operation.assignedValues (body : Operation) (x : LocalId) : List Operation :=
  body.subterms.filterMap fun
    | .localAssignment _ y (some value) => if y = x then some value else none
    | _ => none

def Operation.readCount (body : Operation) (x : LocalId) : Nat :=
  (body.subterms.filterMap local?).count x

/-- The value of a local that is assigned once, with a guard expression, and read once. -/
def Operation.initializer? (r : GuardReader) (body : Operation) (x : LocalId) : Option Operation :=
  match body.assignedValues x with
  | [value] =>
    if body.readCount x = 1 ∧ (GuardExpr.ofOperation? r value).isSome then some value else none
  | _ => none

/-- The verdict on a local of a body: that on the guard expression it stands for. Within the
expression no local counts. -/
def GuardReader.localVerdict (r : GuardReader) (body : Operation) (x : LocalId) : Verdict :=
  match body.initializer? r x with
  | some value => value.verdictWith r fun _ => .unknown
  | none => .unknown

/-- The verdict on a condition that stands in a body. -/
def GuardReader.verdict (r : GuardReader) (body condition : Operation) : Verdict :=
  condition.verdictWith r (r.localVerdict body)

/-- Whether everything in a condition that stands in a body is understood. -/
def GuardReader.isUnderstood (r : GuardReader) (body condition : Operation) : Bool :=
  condition.isUnderstood r fun x => (body.initializer? r x).isSome

namespace CachedGuards

/-- Looking up a local among the entries made of assignments. -/
theorem find?_filterMap (known : LocalId → Prop) [DecidablePred known]
    (read : Operation → Option GuardExpr) (x : LocalId) (assigned : List (LocalId × Operation)) :
    ((assigned.filterMap fun (y, value) =>
        if known y then (read value).map fun e => (y, e) else none).find?
        fun e => e.1 = x).map (·.2) =
      if known x then
        ((assigned.filterMap fun (y, value) =>
          if y = x then some value else none).filterMap read).head?
      else none := by
  induction assigned with
  | nil => split <;> rfl
  | cons a rest ih =>
    obtain ⟨y, value⟩ := a
    by_cases hy : y = x
    · subst hy
      by_cases hknown : known y
      · cases hread : read value with
        | none =>
          simp only [List.filterMap_cons, hknown, if_true, hread, Option.map_none] at ih ⊢
          exact ih
        | some e => simp [hknown, hread]
      · simp only [List.filterMap_cons, hknown, if_false] at ih ⊢
        exact ih
    · have other : ∀ e, ((y, e) : LocalId × GuardExpr).1 ≠ x := fun _ => hy
      rw [List.filterMap_cons, List.filterMap_cons]
      simp only [hy, if_false]
      rw [← ih]
      by_cases hknown : known y
      · cases hread : read value with
        | none => simp [hknown]
        | some e => simp [hknown, hy]
      · simp [hknown]

theorem count_map_fst {x : LocalId} (assigned : List (LocalId × Operation)) :
    (assigned.map (·.1)).count x =
      (assigned.filterMap fun (y, value) => if y = x then some value else none).length := by
  induction assigned with
  | nil => rfl
  | cons a rest ih =>
    obtain ⟨y, value⟩ := a
    by_cases hy : y = x <;> simp [hy, ih]

/-- A local stands for the guard expression that its initializer is. -/
theorem find?_ofBody (r : GuardReader) (body : Operation) (x : LocalId) :
    (ofBody r body).find? x = (body.initializer? r x).bind (GuardExpr.ofOperation? r) := by
  have values : (body.subterms.filterMap fun
        | .localAssignment _ y (some value) => some (y, value)
        | _ => none).filterMap (fun (y, value) => if y = x then some value else none) =
          body.assignedValues x := by
    rw [List.filterMap_filterMap, Operation.assignedValues]
    refine List.filterMap_congr fun op _ => ?_
    split <;> rfl
  have found := find?_filterMap
    (fun y => ((body.subterms.filterMap fun
        | .localAssignment _ y (some value) => some (y, value)
        | _ => none).map (·.1)).count y = 1 ∧
      (body.subterms.filterMap Operation.local?).count y = 1)
    (GuardExpr.ofOperation? r) x
    (body.subterms.filterMap fun
        | .localAssignment _ y (some value) => some (y, value)
        | _ => none)
  rw [count_map_fst, values] at found
  refine Eq.trans found ?_
  unfold Operation.initializer? Operation.readCount
  match body.assignedValues x with
  | [] => simp
  | [value] =>
    cases hread : GuardExpr.ofOperation? r value with
    | none => simp [hread]
    | some e => by_cases hreads : (body.subterms.filterMap Operation.local?).count x = 1 <;>
      simp [hread, hreads]
  | _ :: _ :: _ => simp

end CachedGuards

theorem WalkScope.find?_cached_ofBody (r : GuardReader) (body : Operation) (x : LocalId) :
    (ofBody r body).cached.find? x = (body.initializer? r x).bind (GuardExpr.ofOperation? r) :=
  CachedGuards.find?_ofBody r body x

/-! ## Guard expressions -/

/-- A guard expression splits by the worlds in which it answers true. -/
theorem GuardExpr.mem_split {e : GuardExpr} {w : Worlds} {x : World} :
    (x ∈ (e.split w).whenTrue ↔ x ∈ w ∧ x ∈ e.worlds) ∧
    (x ∈ (e.split w).whenFalse ↔ x ∈ w ∧ x ∉ e.worlds) := by
  induction e generalizing w with
  | constant b =>
    cases b with
    | true => simp [split, worlds]
    | false => simp [split, worlds]
  | check g => exact ⟨by simp [split, worlds], by simp [split, worlds]⟩
  | not e ih =>
    refine ⟨ih.2.trans ?_, ih.1.trans ?_⟩ <;> simp [worlds]
  | and a b iha ihb =>
    refine ⟨ihb.1.trans ?_, ?_⟩
    · rw [iha.1, worlds, Worlds.mem_inter, and_assoc]
    · show x ∈ ((a.split w).whenFalse.union (b.split (a.split w).whenTrue).whenFalse) ↔ _
      rw [Worlds.mem_union, iha.2, ihb.2, iha.1, worlds, Worlds.mem_inter, not_and_or]
      exact or_and_of_or (Classical.em _)
  | or a b iha ihb =>
    refine ⟨?_, ihb.2.trans ?_⟩
    · show x ∈ ((a.split w).whenTrue.union (b.split (a.split w).whenFalse).whenTrue) ↔ _
      rw [Worlds.mem_union, iha.1, ihb.1, iha.2, worlds, Worlds.mem_union]
      exact or_and_of_or (Classical.em _).symm
    · rw [iha.2, worlds, Worlds.mem_union, not_or, and_assoc]
  | compare keeps e ih =>
    cases keeps with
    | true => exact ih
    | false => refine ⟨ih.2.trans ?_, ih.1.trans ?_⟩ <;> simp [worlds]

/-- What is joined is, on either side, a guard expression or a truth value. -/
theorem GuardExpr.join?_eq_some {op : GuardExpr → GuardExpr → GuardExpr}
    {left right : Option GuardExpr} {leftBool rightBool : Option Bool} {e : GuardExpr}
    (h : join? op left right leftBool rightBool = some e) :
    ∃ a b, e = op a b ∧ (left = some a ∨ ∃ v, leftBool = some v ∧ a = constant v) ∧
      (right = some b ∨ ∃ v, rightBool = some v ∧ b = constant v) := by
  unfold join? at h
  split at h
  case h_1 a b =>
    exact ⟨a, b, (Option.some.inj h).symm, .inl rfl, .inl rfl⟩
  case h_2 a =>
    obtain ⟨v, hv, rfl⟩ := Option.map_eq_some_iff.1 h
    exact ⟨a, constant v, rfl, .inl rfl, .inr ⟨v, hv, rfl⟩⟩
  case h_3 b =>
    obtain ⟨v, hv, rfl⟩ := Option.map_eq_some_iff.1 h
    exact ⟨constant v, b, rfl, .inr ⟨v, hv, rfl⟩, .inl rfl⟩
  case h_4 => simp at h

theorem Operation.eq_literal_of_bool? {c : Operation} {b : Bool} (h : c.bool? = some b) :
    ∃ span, c = .literal span (.bool b) := by
  unfold bool? at h
  split at h
  case h_1 span v => exact ⟨span, by rw [Option.some.inj h]⟩
  case h_2 => simp at h

/-- A comparison is with a truth value on the right, or else on the left, or with none. -/
theorem comparedSide?_cases (left right : Operation) :
    (∃ b, comparedSide? left right = some (.left b) ∧ right.bool? = some b) ∨
    (∃ b, comparedSide? left right = some (.right b) ∧ right.bool? = none ∧ left.bool? = some b) ∨
    (comparedSide? left right = none ∧ right.bool? = none ∧ left.bool? = none) := by
  unfold comparedSide?
  cases hr : right.bool? with
  | some b => exact .inl ⟨b, rfl, rfl⟩
  | none =>
    cases hl : left.bool? with
    | some b => exact .inr (.inl ⟨b, rfl, rfl, rfl⟩)
    | none => exact .inr (.inr ⟨rfl, rfl, rfl⟩)

/-! ## The operators on verdicts -/

namespace Verdict

@[simp] theorem mem_canBeTrue_and {v u : Verdict} {x : World} :
    x ∈ (v.and u).canBeTrue ↔ x ∈ v.canBeTrue ∧ x ∈ u.canBeTrue := Worlds.mem_inter

@[simp] theorem mem_canBeFalse_and {v u : Verdict} {x : World} :
    x ∈ (v.and u).canBeFalse ↔ x ∈ v.canBeFalse ∨ x ∈ u.canBeFalse := Worlds.mem_union

@[simp] theorem mem_canBeTrue_or {v u : Verdict} {x : World} :
    x ∈ (v.or u).canBeTrue ↔ x ∈ v.canBeTrue ∨ x ∈ u.canBeTrue := Worlds.mem_union

@[simp] theorem mem_canBeFalse_or {v u : Verdict} {x : World} :
    x ∈ (v.or u).canBeFalse ↔ x ∈ v.canBeFalse ∧ x ∈ u.canBeFalse := Worlds.mem_inter

theorem Decides.swap {v : Verdict} {w : Worlds} (h : v.Decides w) : v.swap.Decides w.compl := by
  intro x
  rw [Worlds.mem_compl, not_not]
  exact ⟨(h x).2, (h x).1⟩

theorem Decides.and {v u : Verdict} {w w' : Worlds} (h : v.Decides w) (h' : u.Decides w') :
    (v.and u).Decides (w.inter w') := by
  intro x
  rw [mem_canBeTrue_and, mem_canBeFalse_and, Worlds.mem_inter, (h x).1, (h' x).1, (h x).2,
    (h' x).2, not_and_or]
  exact ⟨Iff.rfl, Iff.rfl⟩

theorem Decides.or {v u : Verdict} {w w' : Worlds} (h : v.Decides w) (h' : u.Decides w') :
    (v.or u).Decides (w.union w') := by
  intro x
  rw [mem_canBeTrue_or, mem_canBeFalse_or, Worlds.mem_union, (h x).1, (h' x).1, (h x).2,
    (h' x).2, not_or]
  exact ⟨Iff.rfl, Iff.rfl⟩

theorem decides_constant (b : Bool) : (constant b).Decides (GuardExpr.constant b).worlds := by
  intro x
  cases b <;> simp [constant, GuardExpr.worlds]

/-- A comparison keeps the operand or takes its opposite, as the walk has it. -/
theorem compared_eq {operator : BinaryOperator}
    (h : operator = .equals ∨ operator = .notEquals) (b : Bool) (v : Verdict) :
    v.compared operator b = if operator.keepsOperand b then v else v.swap := by
  rcases h with rfl | rfl <;> cases b <;> rfl

theorem Decides.compared {operator : BinaryOperator}
    (h : operator = .equals ∨ operator = .notEquals) (b : Bool) {v : Verdict} {e : GuardExpr}
    (hv : v.Decides e.worlds) :
    (v.compared operator b).Decides (GuardExpr.compare (operator.keepsOperand b) e).worlds := by
  rw [compared_eq h, GuardExpr.worlds]
  split
  case isTrue _ => exact hv
  case isFalse _ => exact hv.swap

theorem covers_ofGuard? (g : Option Guard) : (ofGuard? g).Covers := by
  intro x
  cases g with
  | none => exact .inl Worlds.mem_all
  | some g =>
    rw [ofGuard?_some, Worlds.mem_compl]
    exact Classical.em _

theorem covers_constant (b : Bool) : (constant b).Covers := by
  intro x
  cases b <;> simp [constant]

theorem Covers.swap {v : Verdict} (h : v.Covers) : v.swap.Covers := fun x => (h x).symm

theorem Covers.and {v u : Verdict} (h : v.Covers) (h' : u.Covers) : (v.and u).Covers := by
  intro x
  rw [mem_canBeTrue_and, mem_canBeFalse_and]
  rcases h x with ht | hf
  · rcases h' x with ht' | hf'
    · exact .inl ⟨ht, ht'⟩
    · exact .inr (.inr hf')
  · exact .inr (.inl hf)

theorem Covers.or {v u : Verdict} (h : v.Covers) (h' : u.Covers) : (v.or u).Covers := by
  intro x
  rw [mem_canBeTrue_or, mem_canBeFalse_or]
  rcases h x with ht | hf
  · exact .inl (.inl ht)
  · rcases h' x with ht' | hf'
    · exact .inl (.inr ht')
    · exact .inr ⟨hf, hf'⟩

theorem Covers.compared {v : Verdict} (h : v.Covers) (operator : BinaryOperator) (b : Bool) :
    (v.compared operator b).Covers := by
  unfold Verdict.compared
  split
  · exact h
  · exact h
  · exact h.swap

end Verdict

/-! ## Verdicts on conditions -/

namespace Operation

variable {r : GuardReader}

theorem verdictWith_comparison {locals : LocalId → Verdict} {span : Span}
    {operator : BinaryOperator} {left right : Operation}
    (hop : operator = .equals ∨ operator = .notEquals) :
    (binary span operator left right).verdictWith r locals =
      match left.bool?, right.bool? with
      | _, some b => (left.verdictWith r locals).compared operator b
      | some b, none => (right.verdictWith r locals).compared operator b
      | none, none => .unknown := by
  rcases hop with rfl | rfl <;> rfl

theorem ofOperation?_comparison {span : Span} {operator : BinaryOperator} {left right : Operation}
    (hop : operator = .equals ∨ operator = .notEquals) :
    GuardExpr.ofOperation? r (binary span operator left right) =
      match comparedSide? left right with
      | some (.left b) => (GuardExpr.ofOperation? r left).map (.compare (operator.keepsOperand b))
      | some (.right b) => (GuardExpr.ofOperation? r right).map (.compare (operator.keepsOperand b))
      | none => none := by
  rcases hop with rfl | rfl <;> rfl

theorem isUnderstood_comparison {known : LocalId → Bool} {span : Span} {operator : BinaryOperator}
    {left right : Operation} (hop : operator = .equals ∨ operator = .notEquals) :
    (binary span operator left right).isUnderstood r known =
      match left.bool?, right.bool? with
      | _, some _ => left.isUnderstood r known
      | some _, none => right.isUnderstood r known
      | none, none => false := by
  rcases hop with rfl | rfl <;> rfl

/-- A guard expression has one answer in each world, whatever the locals are. -/
theorem verdictWith_decides {locals : LocalId → Verdict} {c : Operation} {e : GuardExpr}
    (h : GuardExpr.ofOperation? r c = some e) : (c.verdictWith r locals).Decides e.worlds := by
  induction c using children_induction generalizing e with
  | step c ih =>
    -- an operand of a connective may also be a truth value, which is no guard expression on its own
    have side : ∀ {a : Operation} {d : GuardExpr}, a ∈ c.children →
        (GuardExpr.ofOperation? r a = some d ∨ ∃ v, a.bool? = some v ∧ d = .constant v) →
        (a.verdictWith r locals).Decides d.worlds := by
      rintro a d ha (hd | ⟨v, hv, rfl⟩)
      · exact ih a ha hd
      · obtain ⟨span, rfl⟩ := eq_literal_of_bool? hv
        exact Verdict.decides_constant v
    cases c with
    | invocation span target receiver arguments =>
      obtain ⟨g, hg, rfl⟩ := Option.map_eq_some_iff.1 h
      intro x
      simp [verdictWith, hg, Verdict.ofGuard?_some, GuardExpr.worlds]
    | memberReference span member receiver =>
      obtain ⟨g, hg, rfl⟩ := Option.map_eq_some_iff.1 h
      intro x
      simp [verdictWith, hg, Verdict.ofGuard?_some, GuardExpr.worlds]
    | unary span operator operand =>
      cases operator with
      | not =>
        obtain ⟨d, hd, rfl⟩ := Option.map_eq_some_iff.1 h
        exact (ih operand (by simp [children]) hd).swap
      | other => simp [GuardExpr.ofOperation?] at h
    | binary span operator left right =>
      have hleft : left ∈ (binary span operator left right).children := by simp [children]
      have hright : right ∈ (binary span operator left right).children := by simp [children]
      cases operator using BinaryOperator.cases_comparison with
      | and =>
        obtain ⟨a, b, rfl, ha, hb⟩ := GuardExpr.join?_eq_some h
        exact (side hleft ha).and (side hright hb)
      | or =>
        obtain ⟨a, b, rfl, ha, hb⟩ := GuardExpr.join?_eq_some h
        exact (side hleft ha).or (side hright hb)
      | comparison operator hop =>
        rcases comparedSide?_cases left right with
          ⟨b, hside, hr⟩ | ⟨b, hside, hr, hl⟩ | ⟨hside, _, _⟩
        · rw [ofOperation?_comparison hop, hside] at h
          obtain ⟨d, hd, rfl⟩ := Option.map_eq_some_iff.1 h
          rw [verdictWith_comparison hop, hr]
          exact (ih left hleft hd).compared hop b
        · rw [ofOperation?_comparison hop, hside] at h
          obtain ⟨d, hd, rfl⟩ := Option.map_eq_some_iff.1 h
          rw [verdictWith_comparison hop, hr, hl]
          exact (ih right hright hd).compared hop b
        · rw [ofOperation?_comparison hop, hside] at h
          simp at h
      | other => simp [GuardExpr.ofOperation?] at h
    | _ => simp [GuardExpr.ofOperation?] at h

/-- Every condition has an answer in every world, if the locals have. -/
theorem covers_verdictWith {locals : LocalId → Verdict} (hlocals : ∀ x, (locals x).Covers)
    (c : Operation) :
    (c.verdictWith r locals).Covers := by
  have unknown : Verdict.unknown.Covers := Verdict.covers_ofGuard? none
  induction c using children_induction with
  | step c ih =>
    cases c with
    | literal span value =>
      cases value with
      | bool b => exact Verdict.covers_constant b
      | _ => exact unknown
    | invocation span target receiver arguments => exact Verdict.covers_ofGuard? _
    | memberReference span member receiver => exact Verdict.covers_ofGuard? _
    | localReference span x => exact hlocals x
    | unary span operator operand =>
      cases operator with
      | not => exact (ih operand (by simp [children])).swap
      | other => exact unknown
    | binary span operator left right =>
      have hleft := ih left (by simp [children])
      have hright := ih right (by simp [children])
      cases operator using BinaryOperator.cases_comparison with
      | and => exact hleft.and hright
      | or => exact hleft.or hright
      | comparison operator hop =>
        rw [verdictWith_comparison hop]
        split
        · exact hleft.compared operator _
        · exact hright.compared operator _
        · exact unknown
      | other => exact unknown
    | _ => exact unknown

/-- What is understood has one answer in each world, if the locals that are understood have. -/
theorem exists_decides_of_isUnderstood {locals : LocalId → Verdict} {known : LocalId → Bool}
    (hlocals : ∀ x, known x = true → ∃ w, (locals x).Decides w) {c : Operation}
    (h : c.isUnderstood r known = true) : ∃ w, (c.verdictWith r locals).Decides w := by
  have guard : ∀ g : Option Guard, g.isSome = true → ∃ w, (Verdict.ofGuard? g).Decides w := by
    intro g hg
    obtain ⟨g, rfl⟩ := Option.isSome_iff_exists.1 hg
    rw [Verdict.ofGuard?_some]
    exact ⟨g.worlds, fun x => ⟨Iff.rfl, Worlds.mem_compl⟩⟩
  induction c using children_induction with
  | step c ih =>
    cases c with
    | literal span value =>
      cases value with
      | bool b => exact ⟨_, Verdict.decides_constant b⟩
      | _ => simp [isUnderstood] at h
    | invocation span target receiver arguments => exact guard _ h
    | memberReference span member receiver => exact guard _ h
    | localReference span x => exact hlocals x h
    | unary span operator operand =>
      cases operator with
      | not =>
        obtain ⟨w, hw⟩ := ih operand (by simp [children]) h
        exact ⟨w.compl, hw.swap⟩
      | other => simp [isUnderstood] at h
    | binary span operator left right =>
      have onLeft := ih left (by simp [children])
      have onRight := ih right (by simp [children])
      cases operator using BinaryOperator.cases_comparison with
      | and =>
        rw [isUnderstood, Bool.and_eq_true] at h
        obtain ⟨w, hw⟩ := onLeft h.1
        obtain ⟨w', hw'⟩ := onRight h.2
        exact ⟨w.inter w', hw.and hw'⟩
      | or =>
        rw [isUnderstood, Bool.and_eq_true] at h
        obtain ⟨w, hw⟩ := onLeft h.1
        obtain ⟨w', hw'⟩ := onRight h.2
        exact ⟨w.union w', hw.or hw'⟩
      | comparison operator hop =>
        have kept : ∀ {v : Verdict} (b : Bool), (∃ w, v.Decides w) → ∃ w,
            (v.compared operator b).Decides w := by
          rintro v b ⟨w, hw⟩
          rw [Verdict.compared_eq hop]
          split
          · exact ⟨w, hw⟩
          · exact ⟨w.compl, hw.swap⟩
        rw [isUnderstood_comparison hop] at h
        rw [verdictWith_comparison hop]
        split at h
        · exact kept _ (onLeft h)
        · exact kept _ (onRight h)
        · simp at h
      | other => simp [isUnderstood] at h
    | _ => simp [isUnderstood] at h

end Operation

/-! ## Walks of conditions -/

namespace Walk

/-- A walk splits any worlds into those of a verdict, whether or not uses are reported. -/
def SplitsBy (k : Walk) (v : Verdict) : Prop :=
  ∀ (report : Bool) (w : Worlds) (x : World),
    (x ∈ (k.split report w).whenTrue ↔ x ∈ w ∧ x ∈ v.canBeTrue) ∧
    (x ∈ (k.split report w).whenFalse ↔ x ∈ w ∧ x ∈ v.canBeFalse)

theorem splitsBy_ofVisit (g : Option Guard) (visit : Worlds → Visit) :
    (ofVisit (g.map Guard.worlds) visit).SplitsBy (.ofGuard? g) := by
  intro report w x
  cases g with
  | none => simp [ofVisit, Verdict.ofGuard?, Verdict.unknown]
  | some g => simp [ofVisit, Verdict.ofGuard?_some]

theorem splitsBy_truth (b : Bool) : (truth b).SplitsBy (.constant b) := by
  intro report w x
  cases b <;> simp [truth, Verdict.constant]

theorem splitsBy_plainOperator (operands : List Walk) :
    (plainOperator operands).SplitsBy .unknown := by
  intro report w x
  simp [plainOperator, ofSplit, Verdict.unknown]

theorem splitsBy_cachedLocal {e : GuardExpr} {v : Verdict} (h : v.Decides e.worlds) :
    (cachedLocal e.split).SplitsBy v := by
  intro report w x
  have exact_split := GuardExpr.mem_split (e := e) (w := w) (x := x)
  rw [(h x).1, (h x).2]
  exact exact_split

theorem SplitsBy.negation {k : Walk} {v : Verdict} (h : k.SplitsBy v) :
    (negation k).SplitsBy v.swap := by
  intro report w x
  exact ⟨(h report w x).2, (h report w x).1⟩

theorem SplitsBy.comparison {k : Walk} {v : Verdict} (h : k.SplitsBy v) {operator : BinaryOperator}
    (hop : operator = .equals ∨ operator = .notEquals) (b : Bool) :
    (comparison (operator.keepsOperand b) k).SplitsBy (v.compared operator b) := by
  intro report w x
  rw [Verdict.compared_eq hop]
  cases operator.keepsOperand b with
  | true => exact h report w x
  | false => exact ⟨(h report w x).2, (h report w x).1⟩

/-- The right operand is split only where the left one can be true; where it is not reached the left
one is false, since it has an answer everywhere. -/
theorem SplitsBy.conjunction {k j : Walk} {v u : Verdict} (hk : k.SplitsBy v) (hj : j.SplitsBy u)
    (covers : v.Covers) :
    (conjunction k j).SplitsBy (v.and u) := by
  intro report w x
  have left := hk report w x
  have right := hj report (k.split report w).whenTrue x
  constructor
  · show x ∈ (j.split report (k.split report w).whenTrue).whenTrue ↔ _
    rw [right.1, left.1, Verdict.mem_canBeTrue_and, and_assoc]
  · show x ∈ ((k.split report w).whenFalse.union
      (j.split report (k.split report w).whenTrue).whenFalse) ↔ _
    rw [Worlds.mem_union, left.2, right.2, left.1, Verdict.mem_canBeFalse_and]
    exact or_and_of_or (covers x)

theorem SplitsBy.disjunction {k j : Walk} {v u : Verdict} (hk : k.SplitsBy v) (hj : j.SplitsBy u)
    (covers : v.Covers) :
    (disjunction k j).SplitsBy (v.or u) := by
  intro report w x
  have left := hk report w x
  have right := hj report (k.split report w).whenFalse x
  constructor
  · show x ∈ ((k.split report w).whenTrue.union
      (j.split report (k.split report w).whenFalse).whenTrue) ↔ _
    rw [Worlds.mem_union, left.1, right.1, left.2, Verdict.mem_canBeTrue_or]
    exact or_and_of_or (covers x).symm
  · show x ∈ (j.split report (k.split report w).whenFalse).whenFalse ↔ _
    rw [right.2, left.2, Verdict.mem_canBeFalse_or, and_assoc]

end Walk

namespace Operation

variable {r : GuardReader} {body : Operation}

/-- A local that stands for a guard expression has the answers of the expression. -/
theorem localVerdict_decides {x : LocalId} {value : Operation} {e : GuardExpr}
    (h : body.initializer? r x = some value) (he : GuardExpr.ofOperation? r value = some e) :
    (r.localVerdict body x).Decides e.worlds := by
  rw [GuardReader.localVerdict, h]
  exact verdictWith_decides he

theorem exists_ofOperation?_of_initializer? {x : LocalId} {value : Operation}
    (h : body.initializer? r x = some value) : ∃ e, GuardExpr.ofOperation? r value = some e := by
  unfold initializer? at h
  split at h
  · split at h
    case isTrue known =>
      rw [← Option.some.inj h]
      exact Option.isSome_iff_exists.1 known.2
    case isFalse => simp at h
  · simp at h

theorem covers_localVerdict (x : LocalId) : (r.localVerdict body x).Covers := by
  unfold GuardReader.localVerdict
  split
  · exact covers_verdictWith (fun _ => Verdict.covers_ofGuard? none) _
  · exact Verdict.covers_ofGuard? none

theorem covers_verdict (c : Operation) : (r.verdict body c).Covers :=
  covers_verdictWith covers_localVerdict c

theorem walk_comparison {scope : WalkScope} {span : Span} {operator : BinaryOperator}
    {left right : Operation} (hop : operator = .equals ∨ operator = .notEquals) :
    (binary span operator left right).walk scope =
      match comparedSide? left right with
      | some (.left b) => .comparison (operator.keepsOperand b) (left.walk scope)
      | some (.right b) => .comparison (operator.keepsOperand b) (right.walk scope)
      | none => .plainOperator [left.walk scope, right.walk scope] := by
  cases hside : comparedSide? left right with
  | none => rcases hop with rfl | rfl <;> simp only [walk, hside]
  | some side => cases side <;> rcases hop with rfl | rfl <;> simp only [walk, hside]

/-- A condition splits by its verdict, if the locals it reads split by theirs. -/
theorem walk_splitsBy_of_locals {scope : WalkScope} {locals : LocalId → Verdict}
    (covers : ∀ x, (locals x).Covers)
    (hlocals : ∀ span x, ((localReference span x).walk scope).SplitsBy (locals x)) (c : Operation) :
    (c.walk scope).SplitsBy (c.verdictWith scope.reader locals) := by
  have unknown : ∀ visit, (Walk.ofVisit none visit).SplitsBy .unknown :=
    fun visit => Walk.splitsBy_ofVisit none visit
  induction c using children_induction with
  | step c ih =>
    cases c with
    | literal span value =>
      cases value with
      | bool b =>
        rw [walk]
        exact Walk.splitsBy_truth b
      | _ =>
        rw [walk]
        · exact unknown _
        · intro b h
          cases h
    | invocation span target receiver arguments =>
      rw [walk]
      split
      · exact Walk.splitsBy_ofVisit _ _
      · exact Walk.splitsBy_ofVisit _ _
    | memberReference span member receiver =>
      rw [walk]
      exact Walk.splitsBy_ofVisit _ _
    | methodReference span method =>
      rw [walk]
      split
      · exact unknown _
      · exact unknown _
    | delegateInvocation span target arguments =>
      rw [walk]
      split
      · split
        · exact unknown _
        · exact unknown _
      · exact unknown _
    | localReference span x => exact hlocals span x
    | unary span operator operand =>
      cases operator with
      | not =>
        rw [walk]
        exact (ih operand (by simp [children])).negation
      | other =>
        rw [walk]
        exact Walk.splitsBy_plainOperator _
    | binary span operator left right =>
      have hleft := ih left (by simp [children])
      have hright := ih right (by simp [children])
      cases operator using BinaryOperator.cases_comparison with
      | and =>
        rw [walk]
        exact hleft.conjunction hright (covers_verdictWith covers left)
      | or =>
        rw [walk]
        exact hleft.disjunction hright (covers_verdictWith covers left)
      | comparison operator hop =>
        rw [verdictWith_comparison hop, walk_comparison hop]
        rcases comparedSide?_cases left right with
          ⟨b, hside, hr⟩ | ⟨b, hside, hr, hl⟩ | ⟨hside, hr, hl⟩
        · rw [hside, hr]
          exact hleft.comparison hop b
        · rw [hside, hr, hl]
          exact hright.comparison hop b
        · rw [hside, hr, hl]
          exact Walk.splitsBy_plainOperator _
      | other =>
        rw [walk]
        exact Walk.splitsBy_plainOperator _
    | _ =>
      rw [walk]
      exact unknown _

/-- A condition splits by its verdict. -/
theorem walk_splitsBy (c : Operation) : (c.walk (.ofBody r body)).SplitsBy (r.verdict body c) := by
  refine walk_splitsBy_of_locals covers_localVerdict (fun span x => ?_) c
  rw [walk, WalkScope.find?_cached_ofBody]
  cases hx : body.initializer? r x with
  | none =>
    rw [GuardReader.localVerdict, hx]
    exact Walk.splitsBy_ofVisit none _
  | some value =>
    obtain ⟨e, he⟩ := exists_ofOperation?_of_initializer? hx
    rw [Option.bind_some, he]
    exact Walk.splitsBy_cachedLocal (localVerdict_decides hx he)

end Operation

/-- Verdicts that are true in the same worlds, and false in all others, are the same. -/
theorem Verdict.Decides.same {v u : Verdict} {w : Worlds} (hv : v.Decides w) (hu : u.Decides w) :
    (v.canBeTrue == u.canBeTrue) = true ∧ (v.canBeFalse == u.canBeFalse) = true :=
  ⟨Worlds.beq_iff_same_worlds.2 fun x => (hv x).1.trans (hu x).1.symm,
    Worlds.beq_iff_same_worlds.2 fun x => (hv x).2.trans (hu x).2.symm⟩

/-- A condition splits any worlds into exactly those of its verdict, with or without a report
of the uses in it. The two parts join to the whole, and they are disjoint if everything in the
condition is understood. A local that stands for a guard expression has the verdict on the
value it was assigned. -/
theorem split_by_verdict (r : GuardReader) (body : Operation) :
    (∀ (condition : Operation) (report : Bool) (w : Worlds),
      let s := (condition.walk (.ofBody r body)).split report w
      let v := r.verdict body condition
      (s.whenTrue == w.inter v.canBeTrue) = true ∧ (s.whenFalse == w.inter v.canBeFalse) = true ∧
        (s.whenTrue.union s.whenFalse == w) = true ∧
        (r.isUnderstood body condition = true →
          (s.whenTrue.inter s.whenFalse).isUnreachable = true)) ∧
    ∀ (span : Span) (x : LocalId) (value : Operation), body.initializer? r x = some value →
      let v := r.verdict body (.localReference span x)
      let u := r.verdict body value
      (v.canBeTrue == u.canBeTrue) = true ∧ (v.canBeFalse == u.canBeFalse) = true := by
  constructor
  · intro condition report w
    have exact_split :=
      (Operation.walk_splitsBy condition : (condition.walk (.ofBody r body)).SplitsBy _) report w
    refine ⟨?_, ?_, ?_, fun understood => ?_⟩
    · exact Worlds.beq_iff_same_worlds.2 fun x => (exact_split x).1.trans Worlds.mem_inter.symm
    · exact Worlds.beq_iff_same_worlds.2 fun x => (exact_split x).2.trans Worlds.mem_inter.symm
    · refine Worlds.beq_iff_same_worlds.2 fun x => ?_
      rw [Worlds.mem_union, (exact_split x).1, (exact_split x).2, ← and_or_left]
      exact and_iff_left (Operation.covers_verdict condition x)
    · have locals : ∀ x, (body.initializer? r x).isSome = true → ∃ w,
          (r.localVerdict body x).Decides w := by
        intro x hx
        obtain ⟨value, hvalue⟩ := Option.isSome_iff_exists.1 hx
        obtain ⟨e, he⟩ := Operation.exists_ofOperation?_of_initializer? hvalue
        exact ⟨e.worlds, Operation.localVerdict_decides hvalue he⟩
      obtain ⟨u, hu⟩ := Operation.exists_decides_of_isUnderstood locals understood
      refine Worlds.isUnreachable_iff.2 fun x hx => ?_
      rw [Worlds.mem_inter, (exact_split x).1, (exact_split x).2] at hx
      exact (hu x).2.1 hx.2.2 ((hu x).1.1 hx.1.2)
  · intro span x value hvalue
    obtain ⟨e, he⟩ := Operation.exists_ofOperation?_of_initializer? hvalue
    exact (Operation.localVerdict_decides hvalue he).same (Operation.verdictWith_decides he)

/-! ## A condition with a check and a local -/

/-- A platform check, the assertion method as a method and as a local function, and members and
local functions of a program, some of which work on some platforms only. -/
def checkSymbols : List Symbol :=
  [{ id := ⟨1⟩, name := CheckApi.operatingSystemType, kind := .type },
    { id := ⟨2⟩, name := CheckApi.isOSPlatform, kind := .method, containing := some ⟨1⟩ },
    { id := ⟨3⟩, name := "Run", kind := .method },
    { id := ⟨4⟩, name := "OnlyOnWindows", kind := .property
      attributes := [{ kind := .supported, platform := "windows" }] },
    { id := ⟨5⟩, name := "Helper", kind := .localFunction },
    { id := ⟨6⟩, name := "WindowsHelper", kind := .localFunction
      attributes := [{ kind := .supported, platform := "windows" }] },
    { id := ⟨7⟩, name := "NotOnWindows", kind := .property
      attributes := [{ kind := .unsupported, platform := "windows" }] },
    { id := ⟨8⟩, name := "PortableHelper", kind := .localFunction
      attributes := [{ kind := .unsupported, platform := "windows" }] },
    { id := ⟨9⟩, name := CheckApi.debugType, kind := .type },
    { id := ⟨10⟩, name := CheckApi.assert, kind := .method, containing := some ⟨9⟩ },
    { id := ⟨11⟩, name := CheckApi.assert, kind := .localFunction, containing := some ⟨9⟩ }]

def checkReader : GuardReader := .ofDeclarations ⟨.ofSymbols checkSymbols, {}⟩

/-- `IsOSPlatform("name")`. -/
def platformCheck (name : String) : Operation :=
    .invocation {} ⟨2⟩ none [.literal {} (.string name)]

theorem checkReader_get? (id : SymbolId) :
    checkReader.declarations.table.get? id = checkSymbols.reverse.find? (·.id = id) :=
  SymbolTable.get?_ofSymbols _ _

/-- Arguments after the first are not looked at. -/
theorem checkReader_ofCall?_cons (name : String) (rest : List Operation) :
    checkReader.ofCall? ⟨2⟩ (.literal {} (.string name) :: rest) =
      some (.fact (.atLeast (.canonical name) .zero)) := by
  have hget : checkReader.declarations.table.get? ⟨2⟩ =
      some { id := ⟨2⟩, name := CheckApi.isOSPlatform, kind := .method, containing := some ⟨1⟩ } :=
    checkReader_get? _
  have htype : (SymbolTable.ofSymbols checkSymbols).findType? CheckApi.operatingSystemType =
      some ⟨1⟩ := by
    rw [SymbolTable.findType?_ofSymbols]
    rfl
  have htypes : checkReader.types = CheckTypes.ofTable? (.ofSymbols checkSymbols) := rfl
  simp [GuardReader.ofCall?, htypes, CheckTypes.ofTable?, htype, GuardReader.callFact?, hget,
    CheckTypes.hasChecks, GuardReader.checkFact?, GuardReader.platformArgument?, Option.filter_some]

theorem checkReader_ofCall? (name : String) :
    checkReader.ofCall? ⟨2⟩ [.literal {} (.string name)] =
      some (.fact (.atLeast (.canonical name) .zero)) :=
  checkReader_ofCall?_cons name []

/-- `x = IsOSPlatform("windows"); if (IsOSPlatform("ios") && !x) ...` splits into disjoint parts. -/
theorem split_by_verdict_check_and_local :
    let condition : Operation :=
      .binary {} .and (platformCheck "ios") (.unary {} .not (.localReference {} ⟨7⟩))
    let body : Operation := .block {} [.localAssignment {} ⟨7⟩ (some (platformCheck "windows")),
      .conditional {} condition (.ret {} none) none]
    let s := (condition.walk (.ofBody checkReader body)).split true .all
    checkReader.isUnderstood body condition = true ∧
    (s.whenTrue.inter s.whenFalse).isUnreachable = true := by
  intro condition body s
  have hread : (GuardExpr.ofOperation? checkReader (platformCheck "windows")).isSome = true := by
    simp [platformCheck, GuardExpr.ofOperation?, checkReader_ofCall?]
  have hvalue : body.initializer? checkReader ⟨7⟩ = some (platformCheck "windows") := by
    have assigned : body.assignedValues ⟨7⟩ = [platformCheck "windows"] := rfl
    have reads : body.readCount ⟨7⟩ = 1 := rfl
    simp [Operation.initializer?, assigned, reads, hread]
  have understood : checkReader.isUnderstood body condition = true := by
    simp [GuardReader.isUnderstood, condition, Operation.isUnderstood, platformCheck,
      checkReader_ofCall?, hvalue]
  exact ⟨understood, ((split_by_verdict checkReader body).1 condition true .all).2.2.2 understood⟩

end PlatformGuard
