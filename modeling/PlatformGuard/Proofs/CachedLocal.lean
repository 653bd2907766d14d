import PlatformGuard.Proofs.ConditionSplit

/-!
# Locals that stand for their value

A local that is assigned once, with a guard expression, and read once is split on as if its value
stood in its place. Two things have to agree for this: which values count as guard expressions
(`Operation.isGuardExpression`, said without building any), and how the walk splits on such a value
where it stands inline.

* `Operation.ofOperation?_isSome`: the values that count are those from which a
  guard expression is built.
* `Operation.walk_splitsAs`: inline, such a value splits the worlds as the guard expression does.
* `Operation.isUnderstood_of_isGuardExpression`: nothing in such a value is unknown.
* `cached_local_splits_as_value`: which locals are cached, and that a read splits as the value does.
-/

namespace PlatformGuard

/-! ## Values that count as guard expressions -/

/-- Whether an operation is built from platform checks and truth values with `!`, `&&`, `||` and
comparisons with a truth value, with a check on at least one side of each operator. -/
def Operation.isGuardExpression (r : GuardReader) : Operation → Bool
  | .invocation _ target _ arguments => (r.ofCall? target arguments).isSome
  | .memberReference _ member _ => (r.ofMember? member).isSome
  | .unary _ .not operand => isGuardExpression r operand
  | .binary _ operator left right =>
    let onLeft := isGuardExpression r left
    let onRight := isGuardExpression r right
    match operator with
    | .and | .or =>
      (onLeft || left.bool?.isSome) && (onRight || right.bool?.isSome) && (onLeft || onRight)
    | .equals | .notEquals => (left.bool?.isSome && onRight) || (right.bool?.isSome && onLeft)
    | .other => false
  | _ => false

theorem GuardExpr.join?_isSome (op : GuardExpr → GuardExpr → GuardExpr)
    (left right : Option GuardExpr) (leftBool rightBool : Option Bool) :
    (join? op left right leftBool rightBool).isSome =
      ((left.isSome || leftBool.isSome) && (right.isSome || rightBool.isSome) &&
        (left.isSome || right.isSome)) := by
  cases left <;> cases right <;> simp [join?]

namespace Operation

variable {r : GuardReader}

theorem isGuardExpression_of_bool? {c : Operation} {b : Bool} (h : c.bool? = some b) :
    c.isGuardExpression r = false := by
  obtain ⟨span, rfl⟩ := eq_literal_of_bool? h
  rfl

theorem isGuardExpression_comparison {span : Span} {operator : BinaryOperator}
    {left right : Operation} (hop : operator = .equals ∨ operator = .notEquals) :
    (binary span operator left right).isGuardExpression r =
      ((left.bool?.isSome && right.isGuardExpression r) ||
        (right.bool?.isSome && left.isGuardExpression r)) := by
  rcases hop with rfl | rfl <;> rfl

/-- The operations that count as guard expressions are those from which one is built. -/
theorem ofOperation?_isSome (c : Operation) :
    (GuardExpr.ofOperation? r c).isSome = c.isGuardExpression r := by
  induction c using children_induction with
  | step c ih =>
    cases c with
    | invocation span target receiver arguments => exact Option.isSome_map
    | memberReference span member receiver => exact Option.isSome_map
    | unary span operator operand =>
      cases operator with
      | not => exact Option.isSome_map.trans (ih operand (by simp [children]))
      | other => rfl
    | binary span operator left right =>
      have onLeft := ih left (by simp [children])
      have onRight := ih right (by simp [children])
      cases operator using BinaryOperator.cases_comparison with
      | and => rw [GuardExpr.ofOperation?, GuardExpr.join?_isSome, onLeft, onRight]; rfl
      | or => rw [GuardExpr.ofOperation?, GuardExpr.join?_isSome, onLeft, onRight]; rfl
      | comparison operator hop =>
        rw [ofOperation?_comparison hop, isGuardExpression_comparison hop]
        -- the right side is looked at first; a truth value there is no guard expression itself
        rcases comparedSide?_cases left right with
          ⟨b, hside, hr⟩ | ⟨b, hside, hr, hl⟩ | ⟨hside, hr, hl⟩
        · simp [hside, hr, onLeft, isGuardExpression_of_bool? hr]
        · simp [hside, hr, hl, onRight]
        · simp [hside, hr, hl]
      | other => rfl
    | _ => rfl

/-- Nothing in a guard expression is unknown, whatever is known of locals. -/
theorem isUnderstood_of_isGuardExpression {known : LocalId → Bool} {c : Operation}
    (h : c.isGuardExpression r = true) :
    c.isUnderstood r known = true := by
  induction c using children_induction with
  | step c ih =>
    -- an operand of a connective may also be a truth value
    have side : ∀ a ∈ c.children, (a.isGuardExpression r || a.bool?.isSome) = true →
        a.isUnderstood r known = true := by
      intro a ha hside
      rcases Bool.or_eq_true_iff.1 hside with hguard | hbool
      · exact ih a ha hguard
      · obtain ⟨b, hb⟩ := Option.isSome_iff_exists.1 hbool
        obtain ⟨span, rfl⟩ := eq_literal_of_bool? hb
        rfl
    cases c with
    | invocation span target receiver arguments => exact h
    | memberReference span member receiver => exact h
    | unary span operator operand =>
      cases operator with
      | not => exact ih operand (by simp [children]) h
      | other => exact absurd h (by simp [isGuardExpression])
    | binary span operator left right =>
      have hleft : left ∈ (binary span operator left right).children := by simp [children]
      have hright : right ∈ (binary span operator left right).children := by simp [children]
      cases operator using BinaryOperator.cases_comparison with
      | and | or =>
        obtain ⟨⟨onLeft, onRight⟩, -⟩ : (_ ∧ _) ∧ _ := by
          simpa only [isGuardExpression, Bool.and_eq_true] using h
        exact Bool.and_eq_true_iff.2 ⟨side left hleft onLeft, side right hright onRight⟩
      | comparison operator hop =>
        rw [isGuardExpression_comparison hop] at h
        rw [isUnderstood_comparison hop]
        cases hr : right.bool? with
        | some b =>
          rw [hr, isGuardExpression_of_bool? hr, Bool.and_false, Bool.false_or] at h
          exact ih left hleft (Bool.and_eq_true_iff.1 h).2
        | none =>
          cases hl : left.bool? with
          | some b =>
            rw [hr, hl] at h
            exact ih right hright (by simpa using h)
          | none =>
            rw [hr, hl] at h
            exact absurd h (by simp)
      | other => exact absurd h (by simp [isGuardExpression])
    | _ => exact absurd h (by simp [isGuardExpression])

end Operation

/-! ## Splitting inline -/

namespace Walk

/-- A walk splits any worlds just as a guard expression does, whether or not uses are reported. -/
def SplitsAs (k : Walk) (e : GuardExpr) : Prop :=
  ∀ (report : Bool) (w : Worlds),
    (k.split report w).whenTrue = (e.split w).whenTrue ∧ (k.split report w).whenFalse =
      (e.split w).whenFalse

variable {k j : Walk} {e d : GuardExpr}

theorem splitsAs_ofVisit (g : Guard) (visit : Worlds → Visit) :
    (ofVisit (some g.worlds) visit).SplitsAs (.check g) :=
  fun _ _ => ⟨rfl, rfl⟩

theorem splitsAs_truth (b : Bool) : (truth b).SplitsAs (.constant b) := by
  intro report w
  cases b <;> exact ⟨rfl, rfl⟩

theorem SplitsAs.negation (h : k.SplitsAs e) : (negation k).SplitsAs (.not e) :=
  fun report w => (h report w).symm

theorem SplitsAs.conjunction (hk : k.SplitsAs e) (hj : j.SplitsAs d) :
    (conjunction k j).SplitsAs (.and e d) := by
  intro report w
  obtain ⟨leftTrue, leftFalse⟩ := hk report w
  obtain ⟨rightTrue, rightFalse⟩ := hj report (e.split w).whenTrue
  constructor
  · show (j.split report (k.split report w).whenTrue).whenTrue = _
    rw [leftTrue]
    exact rightTrue
  · show (k.split report w).whenFalse.union
      (j.split report (k.split report w).whenTrue).whenFalse = _
    rw [leftTrue, leftFalse, rightFalse]
    rfl

theorem SplitsAs.disjunction (hk : k.SplitsAs e) (hj : j.SplitsAs d) :
    (disjunction k j).SplitsAs (.or e d) := by
  intro report w
  obtain ⟨leftTrue, leftFalse⟩ := hk report w
  obtain ⟨rightTrue, rightFalse⟩ := hj report (e.split w).whenFalse
  constructor
  · show (k.split report w).whenTrue.union
      (j.split report (k.split report w).whenFalse).whenTrue = _
    rw [leftTrue, leftFalse, rightTrue]
    rfl
  · show (j.split report (k.split report w).whenFalse).whenFalse = _
    rw [leftFalse]
    exact rightFalse

theorem SplitsAs.comparison (h : k.SplitsAs e) (keeps : Bool) :
    (comparison keeps k).SplitsAs (.compare keeps e) := by
  intro report w
  cases keeps with
  | true => exact h report w
  | false => exact (h report w).symm

end Walk

namespace Operation

variable {scope : WalkScope}

/-- Inline, a guard expression splits the worlds by its checks, with no account of locals. -/
theorem walk_splitsAs {c : Operation} {e : GuardExpr}
    (h : GuardExpr.ofOperation? scope.reader c = some e) :
    (c.walk scope).SplitsAs e := by
  induction c using children_induction generalizing e with
  | step c ih =>
    have side : ∀ {a : Operation} {d : GuardExpr}, a ∈ c.children →
        (GuardExpr.ofOperation? scope.reader a = some d ∨ ∃ v, a.bool? = some v ∧ d = .constant v) →
        (a.walk scope).SplitsAs d := by
      rintro a d ha (hd | ⟨v, hv, rfl⟩)
      · exact ih a ha hd
      · obtain ⟨span, rfl⟩ := eq_literal_of_bool? hv
        rw [walk]
        exact Walk.splitsAs_truth v
    cases c with
    | invocation span target receiver arguments =>
      obtain ⟨g, hg, rfl⟩ := Option.map_eq_some_iff.1 h
      rw [walk, WalkScope.callWorlds?, hg]
      split <;> exact Walk.splitsAs_ofVisit g _
    | memberReference span member receiver =>
      obtain ⟨g, hg, rfl⟩ := Option.map_eq_some_iff.1 h
      rw [walk, WalkScope.memberWorlds?, hg]
      exact Walk.splitsAs_ofVisit g _
    | unary span operator operand =>
      cases operator with
      | not =>
        obtain ⟨d, hd, rfl⟩ := Option.map_eq_some_iff.1 h
        rw [walk]
        exact (ih operand (by simp [children]) hd).negation
      | other => exact absurd h (by simp [GuardExpr.ofOperation?])
    | binary span operator left right =>
      have hleft : left ∈ (binary span operator left right).children := by simp [children]
      have hright : right ∈ (binary span operator left right).children := by simp [children]
      cases operator using BinaryOperator.cases_comparison with
      | and =>
        obtain ⟨a, b, rfl, ha, hb⟩ := GuardExpr.join?_eq_some h
        rw [walk]
        exact (side hleft ha).conjunction (side hright hb)
      | or =>
        obtain ⟨a, b, rfl, ha, hb⟩ := GuardExpr.join?_eq_some h
        rw [walk]
        exact (side hleft ha).disjunction (side hright hb)
      | comparison operator hop =>
        rw [ofOperation?_comparison hop] at h
        rw [walk_comparison hop]
        cases hside : comparedSide? left right with
        | none =>
          rw [hside] at h
          exact absurd h (by simp)
        | some compared =>
          rw [hside] at h
          cases compared with
          | left b =>
            obtain ⟨d, hd, rfl⟩ := Option.map_eq_some_iff.1 h
            exact (ih left hleft hd).comparison _
          | right b =>
            obtain ⟨d, hd, rfl⟩ := Option.map_eq_some_iff.1 h
            exact (ih right hright hd).comparison _
      | other => exact absurd h (by simp [GuardExpr.ofOperation?])
    | _ => exact absurd h (by simp [GuardExpr.ofOperation?])

end Operation

/-! ## Reads of cached locals -/

section

variable {r : GuardReader} {body : Operation} {x : LocalId}

/-- The initializer of a local, by the operations of the body. -/
theorem Operation.initializer?_eq_some_iff {value : Operation} :
    body.initializer? r x = some value ↔
      body.assignedValues x = [value] ∧ body.readCount x = 1 ∧
      value.isGuardExpression r = true := by
  unfold initializer?
  match body.assignedValues x with
  | [] => simp
  | [assigned] =>
    show (if body.readCount x = 1 ∧ (GuardExpr.ofOperation? r assigned).isSome = true then _
      else _) = _ ↔ _
    rw [ofOperation?_isSome, List.singleton_inj]
    by_cases known : body.readCount x = 1 ∧ assigned.isGuardExpression r = true
    · rw [if_pos known, Option.some_inj]
      exact ⟨fun h => ⟨h, h ▸ known⟩, And.left⟩
    · rw [if_neg known]
      refine ⟨fun h => absurd h (by simp), ?_⟩
      rintro ⟨rfl, h⟩
      exact absurd h known
  | _ :: _ :: _ => simp

theorem CachedGuards.find?_isSome_iff :
    ((ofBody r body).find? x).isSome = true ↔ ∃ value, body.initializer? r x = some value := by
  rw [find?_ofBody]
  cases hvalue : body.initializer? r x with
  | none => simp
  | some value =>
    obtain ⟨e, he⟩ := Operation.exists_ofOperation?_of_initializer? hvalue
    simp [he]

end

/-- A local of a body is cached iff it is assigned once, with a guard expression, and read once.
Everything in its value is understood, and to split on a read of it is to split on the value where
it stands, by one set of worlds for all entries. -/
theorem cached_local_splits_as_value (r : GuardReader) (body : Operation) (x : LocalId) :
    (((CachedGuards.ofBody r body).find? x).isSome = true ↔
      ∃ value, body.assignedValues x = [value] ∧ body.readCount x = 1 ∧
        value.isGuardExpression r = true) ∧
    ∀ value, ((CachedGuards.ofBody r body).find? x).isSome = true →
      body.assignedValues x = [value] →
      (∀ span, r.isUnderstood body (.localReference span x) = true) ∧
      r.isUnderstood body value = true ∧
      ∃ trueIn : Worlds, ∀ (span : Span) (report reportInline : Bool) (w : Worlds),
        let read := ((Operation.localReference span x).walk (.ofBody r body)).split report w
        let inline := (value.walk (.ofBody r body)).split reportInline w
        read.whenTrue = inline.whenTrue ∧ read.whenFalse = inline.whenFalse ∧
          (inline.whenTrue == w.inter trueIn) = true ∧
          (inline.whenFalse == w.sdiff trueIn) = true := by
  constructor
  · rw [CachedGuards.find?_isSome_iff]
    exact exists_congr fun value => Operation.initializer?_eq_some_iff
  · intro value cached assigned
    obtain ⟨value', hvalue⟩ := CachedGuards.find?_isSome_iff.1 cached
    obtain ⟨assigned', -, isGuard⟩ := Operation.initializer?_eq_some_iff.1 hvalue
    obtain rfl : value = value' := List.singleton_inj.1 (assigned.symm.trans assigned')
    obtain ⟨e, he⟩ := Operation.exists_ofOperation?_of_initializer? hvalue
    refine ⟨fun span => ?_, Operation.isUnderstood_of_isGuardExpression isGuard, e.worlds,
      fun span report reportInline w => ?_⟩
    · show (body.initializer? r x).isSome = true
      rw [hvalue]
      rfl
    · intro read inline
      have found : (WalkScope.ofBody r body).cached.find? x = some e := by
        rw [← he]
        exact (CachedGuards.find?_ofBody r body x).trans (by rw [hvalue]; rfl)
      have onRead : read.whenTrue = (e.split w).whenTrue ∧ read.whenFalse =
          (e.split w).whenFalse := by
        have walked : (Operation.localReference span x).walk (.ofBody r body) =
            .cachedLocal e.split := by
          rw [Operation.walk, found]
        simp only [read, walked]
        exact ⟨rfl, rfl⟩
      have asValue : (value.walk (.ofBody r body)).SplitsAs e := Operation.walk_splitsAs he
      have onInline : inline.whenTrue = (e.split w).whenTrue ∧
          inline.whenFalse = (e.split w).whenFalse :=
        asValue reportInline w
      refine ⟨onRead.1.trans onInline.1.symm, onRead.2.trans onInline.2.symm, ?_, ?_⟩
      · rw [onInline.1]
        exact Worlds.beq_iff_same_worlds.2 fun y =>
          GuardExpr.mem_split.1.trans Worlds.mem_inter.symm
      · rw [onInline.2]
        exact Worlds.beq_iff_same_worlds.2 fun y =>
          GuardExpr.mem_split.2.trans Worlds.mem_sdiff.symm

/-- `x = !IsOSPlatform("windows") && true; if (x) return;` -/
theorem cached_local_splits_as_value_notWindows :
    let value : Operation :=
      .binary {} .and (.unary {} .not (platformCheck "windows")) (.literal {} (.bool true))
    let body : Operation := .block {} [.localAssignment {} ⟨7⟩ (some value),
      .conditional {} (.localReference {} ⟨7⟩) (.ret {} none) none]
    ((CachedGuards.ofBody checkReader body).find? ⟨7⟩).isSome = true ∧
    body.assignedValues ⟨7⟩ = [value] ∧
    ∃ trueIn : Worlds, ∀ w : Worlds,
      ((((Operation.localReference {} ⟨7⟩).walk (.ofBody checkReader body)).split
        true w).whenTrue ==
        w.inter trueIn) = true := by
  intro value body
  have assigned : body.assignedValues ⟨7⟩ = [value] := rfl
  have reads : body.readCount ⟨7⟩ = 1 := rfl
  have isGuard : value.isGuardExpression checkReader = true := by
    simp [value, platformCheck, Operation.isGuardExpression, checkReader_ofCall?, Operation.bool?]
  obtain ⟨cached_iff, splits⟩ := cached_local_splits_as_value checkReader body ⟨7⟩
  have cached := cached_iff.2 ⟨value, assigned, reads, isGuard⟩
  obtain ⟨-, -, trueIn, exact_split⟩ := splits value cached assigned
  refine ⟨cached, assigned, trueIn, fun w => ?_⟩
  obtain ⟨same, -, onTrue, -⟩ := exact_split {} true false w
  rw [same]
  exact onTrue

end PlatformGuard
