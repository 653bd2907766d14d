import PlatformGuard.Proofs.CheckSound

/-!
# The verdict on a use

A check goes through the platforms that the contract of the target names, and compares sets of
versions. Its verdict is told here without these sets, world by world: which versions the use is
reached at, and what the target and the code around the use say of them.

* `Use.check_eq`: the two shortcuts at the start of a check, for a contract that says nothing and
  for a use that is never reached, change nothing.
* `check_gives_verdict`: each rule has one finding where its condition holds, and none elsewhere.
-/

namespace PlatformGuard

/-! ## One entry of a map -/

/-- Of what the entries give, one entry gives all that belongs to its key. -/
theorem SortedMap.filter_filterMap_entries {κ β γ : Type} [LT κ] [LE κ] [Std.IsLinearOrder κ]
    [Std.LawfulOrderLT κ] [DecidableLT κ] [DecidableEq κ] {m : SortedMap κ β} {k : κ}
    {f : κ → β → Option γ} {belongs : γ → Bool}
    (hf : ∀ j b c, f j b = some c → (belongs c = true ↔ j = k)) :
    (m.entries.filterMap fun e => f e.1 e.2).filter belongs = ((m.find? k).bind (f k)).toList := by
  have kept : (fun b => (f k b).filter belongs) = f k := by
    funext b
    cases hc : f k b with
    | none => rfl
    | some c => rw [Option.filter_some, if_pos ((hf k b c hc).2 rfl)]
  have others : ∀ j b, j ≠ k → (f j b).filter belongs = none := by
    intro j b hj
    cases hc : f j b with
    | none => rfl
    | some c => rw [Option.filter_some, if_neg fun h => hj ((hf j b c hc).1 h)]
  rw [List.filter_filterMap, filterMap_entries others, kept]

namespace Use

variable {use : Use} {p : PlatformName} {a : Availability} {d : Diagnostic}

/-! ## Conditions of the rules -/

/-- The target is obsolete on a platform wherever the use is reached there, and the code around the
use is not obsolete itself from as early a version on. -/
def OnlyWhereObsolete (use : Use) (p : PlatformName) : Prop :=
  ∃ a o, use.contract.get? p = some a ∧ a.obsoleted = some o ∧
    (∃ v, (⟨p, v⟩ : World) ∈ use.worlds) ∧ (∀ v, (⟨p, v⟩ : World) ∈ use.worlds → o.version ≤ v) ∧
    ¬ ∃ b own, use.enclosing.get? p = some b ∧ b.obsoleted = some own ∧ own.version ≤ o.version

/-- The use is reached at a version of a platform that the target denies, and the code around the
use does not deny all that the target denies there. -/
def WhereDenied (use : Use) (p : PlatformName) : Prop :=
  ∃ a denied, use.contract.get? p = some a ∧ a.deniedRange? = some denied ∧
    (∃ v, (⟨p, v⟩ : World) ∈ use.worlds ∧ v ∈ denied) ∧
    ¬ ∃ b own, use.enclosing.get? p = some b ∧ b.deniedRange? = some own ∧ ∀ v, v ∈ denied → v ∈ own

/-- The use is reached in a world that the target does not allow. -/
def WhereNotAllowed (use : Use) : Prop :=
  ∃ x ∈ use.worlds, x ∉ use.contract.allowedWorlds

theorem isObsoleteOn_iff {o : Obsoletion} : use.isObsoleteOn p o = true ↔
    (∃ v, (⟨p, v⟩ : World) ∈ use.worlds) ∧ ∀ v, (⟨p, v⟩ : World) ∈ use.worlds → o.version ≤ v := by
  have reached : (!(use.worlds.versionsOf p).isEmpty) = true ↔ ∃ v,
      (⟨p, v⟩ : World) ∈ use.worlds := by
    rw [Bool.not_eq_true', ← Bool.not_eq_true, VersionSet.isEmpty_iff]
    push Not
    rfl
  have late : (use.worlds.versionsOf p).isSubset (.ofRange (.atLeast o.version)) = true ↔
      ∀ v, (⟨p, v⟩ : World) ∈ use.worlds → o.version ≤ v := by
    rw [VersionSet.isSubset_iff]
    refine forall_congr' fun v => imp_congr_right fun _ => ?_
    rw [VersionSet.mem_ofRange, VersionRange.mem_iff]
    exact and_iff_left fun _ h => absurd h (by simp [VersionRange.atLeast])
  rw [isObsoleteOn, Bool.and_eq_true, reached, late]

theorem declaresObsoletion_iff {o : Obsoletion} : use.declaresObsoletion p o = true ↔
    ∃ b own, use.enclosing.get? p = some b ∧ b.obsoleted = some own ∧ own.version ≤ o.version := by
  unfold declaresObsoletion
  cases use.enclosing.get? p with
  | none => simp
  | some b => cases hown : b.obsoleted <;> simp [hown]

theorem isDeniedOn_iff {denied : VersionRange} :
    use.isDeniedOn p denied = true ↔ ∃ v, (⟨p, v⟩ : World) ∈ use.worlds ∧ v ∈ denied := by
  rw [isDeniedOn, VersionSet.intersects_iff]
  exact exists_congr fun v => and_congr_right fun _ => VersionSet.mem_ofRange

theorem declaresDenial_iff {denied : VersionRange} : use.declaresDenial p denied = true ↔
    ∃ b own, use.enclosing.get? p = some b ∧ b.deniedRange? = some own ∧ ∀ v,
    v ∈ denied → v ∈ own := by
  unfold declaresDenial
  cases use.enclosing.get? p with
  | none => simp
  | some b => cases hown : b.deniedRange? <;> simp [hown, VersionRange.covers_iff]

/-! ## Findings of one platform -/

theorem platform_of_obsoleteOn? (h : use.obsoleteOn? p a = some d) : d.platform = p.text := by
  unfold obsoleteOn? at h
  split at h
  · cases h
  · split_ifs at h
    exact Option.some.inj h ▸ rfl

theorem obsoleteOn?_isSome : (use.obsoleteOn? p a).isSome = true ↔
    ∃ o, a.obsoleted = some o ∧ use.isObsoleteOn p o = true ∧
      ¬ use.declaresObsoletion p o = true := by
  unfold obsoleteOn?
  cases a.obsoleted with
  | none => simp
  | some o => simp

theorem onlyWhereObsolete_iff :
    use.OnlyWhereObsolete p ↔ ((use.contract.get? p).bind (use.obsoleteOn? p)).isSome = true := by
  unfold OnlyWhereObsolete
  cases use.contract.get? p with
  | none => simp
  | some a =>
    simp only [Option.some.injEq, exists_and_left, exists_eq_left', Option.bind_some,
      obsoleteOn?_isSome, isObsoleteOn_iff, declaresObsoletion_iff, and_assoc]

theorem deniedOn?_eq_some (h : use.deniedOn? p a = some d) :
    d.ruleKind = .unsupported ∧ d.platform = p.text := by
  unfold deniedOn? at h
  split at h
  · cases h
  · split_ifs at h
    exact Option.some.inj h ▸ ⟨rfl, rfl⟩

theorem deniedOn?_isSome : (use.deniedOn? p a).isSome = true ↔
    ∃ denied, a.deniedRange? = some denied ∧ use.isDeniedOn p denied = true ∧
      ¬ use.declaresDenial p denied = true := by
  unfold deniedOn?
  cases a.deniedRange? with
  | none => simp
  | some denied => simp

theorem whereDenied_iff :
    use.WhereDenied p ↔ ((use.contract.get? p).bind (use.deniedOn? p)).isSome = true := by
  unfold WhereDenied
  cases use.contract.get? p with
  | none => simp
  | some a =>
    simp only [Option.some.injEq, exists_and_left, exists_eq_left', Option.bind_some,
      deniedOn?_isSome, isDeniedOn_iff, declaresDenial_iff]

theorem notAllowed?_eq_some (h : use.notAllowed? = some d) : d.ruleKind = .onlySupported := by
  unfold notAllowed? at h
  split_ifs at h
  exact Option.some.inj h ▸ rfl

theorem whereNotAllowed_iff : use.WhereNotAllowed ↔ use.notAllowed?.isSome = true := by
  have outside : use.WhereNotAllowed ↔ ¬ use.worlds.isSubset use.contract.allowedWorlds = true := by
    rw [Worlds.isSubset_iff]
    push Not
    rfl
  rw [outside, notAllowed?]
  split_ifs with within
  · exact iff_of_false (not_not_intro within) Bool.false_ne_true
  · exact iff_of_true within rfl

/-! ## All findings -/

def obsoleteFindings (use : Use) : List Diagnostic :=
  use.contract.platforms.entries.filterMap fun e => use.obsoleteOn? e.1 e.2

def deniedFindings (use : Use) : List Diagnostic :=
  use.contract.platforms.entries.filterMap fun e => use.deniedOn? e.1 e.2

theorem exists_of_mem_obsoleteFindings (hd : d ∈ use.obsoleteFindings) :
    ∃ p, d.ruleKind = .obsoleted ∧ d.platform = p.text ∧ ∃ v, (⟨p, v⟩ : World) ∈ use.worlds := by
  obtain ⟨⟨p, a⟩, -, he⟩ := List.mem_filterMap.1 hd
  obtain ⟨o, -, hobsolete, -⟩ := obsoleteOn?_isSome.1 (Option.isSome_of_mem he)
  exact ⟨p, ruleKind_of_obsoleteOn? he, platform_of_obsoleteOn? he,
    (isObsoleteOn_iff.1 hobsolete).1⟩

theorem exists_of_mem_deniedFindings (hd : d ∈ use.deniedFindings) :
    ∃ p, d.ruleKind = .unsupported ∧ d.platform = p.text ∧ ∃ v, (⟨p, v⟩ : World) ∈ use.worlds := by
  obtain ⟨⟨p, a⟩, -, he⟩ := List.mem_filterMap.1 hd
  obtain ⟨hrule, hplatform⟩ := deniedOn?_eq_some he
  obtain ⟨denied, -, hdenied, -⟩ := deniedOn?_isSome.1 (Option.isSome_of_mem he)
  obtain ⟨v, hv, -⟩ := isDeniedOn_iff.1 hdenied
  exact ⟨p, hrule, hplatform, v, hv⟩

/-- A contract that says nothing gives no findings. -/
theorem findings_eq_nil_of_isEmpty (h : use.contract.isEmpty = true) :
    use.obsoleteFindings = [] ∧ use.deniedFindings = [] ∧ use.notAllowed? = none := by
  have silent : ∀ e ∈ use.contract.platforms.entries, e.2.isEmpty = true :=
    fun e he => List.all_eq_true.1 h e.2 (List.mem_map_of_mem he)
  refine ⟨List.filterMap_eq_nil_iff.2 fun e he => ?_,
    List.filterMap_eq_nil_iff.2 fun e he => ?_, ?_⟩
  · have hempty := silent e he
    rw [Availability.isEmpty, Bool.and_eq_true, Option.isNone_iff_eq_none] at hempty
    rw [obsoleteOn?, hempty.2]
  · have hempty := silent e he
    simp only [Availability.isEmpty, Availability.hasSupportFacts, Bool.and_eq_true,
      Bool.not_eq_true', Bool.or_eq_false_iff, Option.isSome_eq_false_iff,
      Option.isNone_iff_eq_none] at hempty
    rw [deniedOn?, Availability.deniedRange?, hempty.1.2]
  · rw [← Option.not_isSome_iff_eq_none, ← whereNotAllowed_iff]
    rintro ⟨x, -, hx⟩
    exact hx (Contract.mem_allowedWorlds_of_isEmpty h)

/-- A use that is never reached gives no findings. -/
theorem findings_eq_nil_of_unreached (h : ∀ x, x ∉ use.worlds) :
    use.obsoleteFindings = [] ∧ use.deniedFindings = [] ∧ use.notAllowed? = none := by
  refine ⟨List.eq_nil_iff_forall_not_mem.2 fun d hd => ?_,
    List.eq_nil_iff_forall_not_mem.2 fun d hd => ?_, ?_⟩
  · obtain ⟨p, -, -, v, hv⟩ := exists_of_mem_obsoleteFindings hd
    exact h _ hv
  · obtain ⟨p, -, -, v, hv⟩ := exists_of_mem_deniedFindings hd
    exact h _ hv
  · rw [← Option.not_isSome_iff_eq_none, ← whereNotAllowed_iff]
    rintro ⟨x, hx, -⟩
    exact h x hx

/-- What a check finds. Its shortcuts leave nothing out. -/
theorem check_eq (use : Use) : use.check = use.obsoleteFindings ++
    if use.contract.isAllowList then use.notAllowed?.toList else use.deniedFindings := by
  rw [check]
  split
  case isTrue shortcut =>
    obtain ⟨hobsolete, hdenied, hallowed⟩ :
        use.obsoleteFindings = [] ∧ use.deniedFindings = [] ∧ use.notAllowed? = none := by
      rcases Bool.or_eq_true_iff.1 shortcut with hempty | hunreached
      · exact findings_eq_nil_of_isEmpty hempty
      · exact findings_eq_nil_of_unreached (Worlds.isUnreachable_iff.1 hunreached)
    rw [hobsolete, hdenied, hallowed, Option.toList_none, ite_self, List.append_nil]
  case isFalse => rfl

/-! ## Findings by rule and platform -/

def findingsOf (use : Use) (rule : RuleKind) : List Diagnostic :=
  use.check.filter fun d => d.ruleKind = rule

def findingsOn (use : Use) (rule : RuleKind) (p : PlatformName) : List Diagnostic :=
  (use.findingsOf rule).filter fun d => d.platform = p.text

theorem findingsOf_obsoleted : use.findingsOf .obsoleted = use.obsoleteFindings := by
  rw [findingsOf, check_eq, List.filter_append, List.filter_eq_self.2, List.filter_eq_nil_iff.2,
    List.append_nil]
  · intro d hd hrule
    split at hd
    · rw [notAllowed?_eq_some (Option.mem_toList.1 hd)] at hrule
      cases of_decide_eq_true hrule
    · obtain ⟨p, hdenied, -⟩ := exists_of_mem_deniedFindings hd
      rw [hdenied] at hrule
      cases of_decide_eq_true hrule
  · intro d hd
    obtain ⟨p, hrule, -⟩ := exists_of_mem_obsoleteFindings hd
    exact decide_eq_true hrule

/-- Findings that are not about an obsolete platform come after those that are. -/
theorem findingsOf_of_ne {rule : RuleKind} (hrule : rule ≠ .obsoleted) : use.findingsOf rule =
    (if use.contract.isAllowList then use.notAllowed?.toList else use.deniedFindings).filter
      fun d => d.ruleKind = rule := by
  rw [findingsOf, check_eq, List.filter_append, List.filter_eq_nil_iff.2, List.nil_append]
  intro d hd heq
  obtain ⟨p, hobsolete, -⟩ := exists_of_mem_obsoleteFindings hd
  exact hrule (of_decide_eq_true heq ▸ hobsolete)

theorem findingsOf_onlySupported :
    use.findingsOf .onlySupported =
      if use.contract.isAllowList then use.notAllowed?.toList else [] := by
  rw [findingsOf_of_ne (by decide)]
  split
  · refine List.filter_eq_self.2 fun d hd => ?_
    exact decide_eq_true (notAllowed?_eq_some (Option.mem_toList.1 hd))
  · refine List.filter_eq_nil_iff.2 fun d hd heq => ?_
    obtain ⟨p, hdenied, -⟩ := exists_of_mem_deniedFindings hd
    rw [hdenied] at heq
    cases of_decide_eq_true heq

theorem findingsOf_unsupported :
    use.findingsOf .unsupported = if use.contract.isAllowList then [] else use.deniedFindings := by
  rw [findingsOf_of_ne (by decide)]
  split
  · refine List.filter_eq_nil_iff.2 fun d hd heq => ?_
    rw [notAllowed?_eq_some (Option.mem_toList.1 hd)] at heq
    cases of_decide_eq_true heq
  · refine List.filter_eq_self.2 fun d hd => ?_
    obtain ⟨p, hdenied, -⟩ := exists_of_mem_deniedFindings hd
    exact decide_eq_true hdenied

theorem findingsOn_obsoleted :
    use.findingsOn .obsoleted p = ((use.contract.get? p).bind (use.obsoleteOn? p)).toList := by
  rw [findingsOn, findingsOf_obsoleted]
  refine SortedMap.filter_filterMap_entries fun q a d hd => ?_
  rw [platform_of_obsoleteOn? hd, decide_eq_true_iff, PlatformName.ext_iff]

theorem findingsOn_unsupported :
    use.findingsOn .unsupported p =
      if use.contract.isAllowList then []
      else ((use.contract.get? p).bind (use.deniedOn? p)).toList := by
  rw [findingsOn, findingsOf_unsupported]
  split
  · rfl
  · refine SortedMap.filter_filterMap_entries fun q a d hd => ?_
    rw [(deniedOn?_eq_some hd).2, decide_eq_true_iff, PlatformName.ext_iff]

end Use

/-! ## The verdict -/

/-- There is one finding under a condition, and none otherwise. -/
structure OneWhere (findings : List Diagnostic) (condition : Prop) : Prop where
  one : condition → ∃ d, findings = [d]
  none : ¬ condition → findings = []

theorem oneWhere_toList {found : Option Diagnostic} {condition : Prop}
    (h : condition ↔ found.isSome = true) :
    OneWhere found.toList condition := by
  cases found with
  | none => exact ⟨fun hc => absurd (h.1 hc) Bool.false_ne_true, fun _ => rfl⟩
  | some d => exact ⟨fun _ => ⟨d, rfl⟩, fun hc => absurd (h.2 rfl) hc⟩

theorem oneWhere_nil {condition : Prop} (h : ¬ condition) : OneWhere [] condition :=
  ⟨fun hc => absurd hc h, fun _ => rfl⟩

/-- A use that is reached in no world has no findings. An allow-list gives one finding where the use
is reached in a world that it does not allow; a deny-list gives one for each platform on which the
use is reached at a denied version, unless the code around the use denies all of these versions
itself. One is given for each platform on which the use is reached only where the target is
obsolete, unless the code around it is obsolete itself from no later a version on. There are no
other findings; and where all worlds of the use are allowed there are none but of obsoletion. -/
theorem check_gives_verdict (use : Use) :
    ((∀ x, x ∉ use.worlds) → use.check = []) ∧
    OneWhere (use.findingsOf .onlySupported)
      (use.contract.isAllowList = true ∧ use.WhereNotAllowed) ∧
    (∀ p, OneWhere (use.findingsOn .unsupported p)
      (use.contract.isAllowList = false ∧ use.WhereDenied p)) ∧
    (∀ p, OneWhere (use.findingsOn .obsoleted p) (use.OnlyWhereObsolete p)) ∧
    ((∀ x ∈ use.worlds, x ∈ use.contract.allowedWorlds) →
      use.findingsOf .onlySupported = [] ∧ use.findingsOf .unsupported = []) ∧
    ∀ d ∈ use.check, d ∈ use.findingsOf .onlySupported ∨
      ∃ p, d ∈ use.findingsOn .unsupported p ∨ d ∈ use.findingsOn .obsoleted p := by
  refine ⟨fun unreached => ?_, ?_, fun p => ?_, fun p => ?_, fun allowed => ?_, fun d hd => ?_⟩
  · obtain ⟨hobsolete, hdenied, hallowed⟩ := Use.findings_eq_nil_of_unreached unreached
    rw [Use.check_eq, hobsolete, hdenied, hallowed, Option.toList_none, ite_self, List.append_nil]
  · rw [Use.findingsOf_onlySupported]
    cases use.contract.isAllowList with
    | true => exact oneWhere_toList ((and_iff_right rfl).trans Use.whereNotAllowed_iff)
    | false => exact oneWhere_nil (by simp)
  · rw [Use.findingsOn_unsupported]
    cases use.contract.isAllowList with
    | true => exact oneWhere_nil (by simp)
    | false => exact oneWhere_toList ((and_iff_right rfl).trans Use.whereDenied_iff)
  · rw [Use.findingsOn_obsoleted]
    exact oneWhere_toList Use.onlyWhereObsolete_iff
  · have noneOf : ∀ rule, (rule = .unsupported ∨ rule = .onlySupported) →
        use.findingsOf rule = [] := by
      intro rule hrule
      refine List.filter_eq_nil_iff.2 fun d hd heq => ?_
      obtain ⟨⟨x, hx, hnot⟩, -⟩ := Use.exists_not_allowed hd (of_decide_eq_true heq ▸ hrule)
      exact hnot (allowed x hx)
    exact ⟨noneOf _ (.inr rfl), noneOf _ (.inl rfl)⟩
  · have of : ∀ rule, d.ruleKind = rule → d ∈ use.findingsOf rule :=
      fun rule hrule => List.mem_filter.2 ⟨hd, decide_eq_true hrule⟩
    rw [Use.check_eq, List.mem_append] at hd
    rcases hd with hobsolete | hd
    · obtain ⟨p, hrule, hplatform, -⟩ := Use.exists_of_mem_obsoleteFindings hobsolete
      exact .inr ⟨p, .inr (List.mem_filter.2 ⟨of _ hrule, decide_eq_true hplatform⟩)⟩
    · split at hd
      · exact .inl (of _ (Use.notAllowed?_eq_some (Option.mem_toList.1 hd)))
      · obtain ⟨p, hrule, hplatform, -⟩ := Use.exists_of_mem_deniedFindings hd
        exact .inr ⟨p, .inl (List.mem_filter.2 ⟨of _ hrule, decide_eq_true hplatform⟩)⟩

/-- A member that is denied on Windows and obsolete on Linux from 5.0 on, used on Windows
and on Linux from 6.0 on. -/
def agingUse : Use where
  target := "Library.Aging"
  contract := .ofEntries [⟨.unsupported, .canonical "windows", .zero, none, none⟩,
    ⟨.obsoleted, .canonical "linux", .ofMajorMinor 5 0, none, none⟩]
  worlds := (Worlds.only (.canonical "linux") (.ofRange (.atLeast (.ofMajorMinor 6 0)))).union
    (.only (.canonical "windows") .all)
  enclosing := .empty
  location := {}

theorem check_gives_verdict_agingUse :
    agingUse.findingsOf .onlySupported = [] ∧
    (∃ d, agingUse.findingsOn .unsupported (.canonical "windows") = [d]) ∧
    (∃ d, agingUse.findingsOn .obsoleted (.canonical "linux") = [d]) ∧
    agingUse.findingsOn .unsupported (.canonical "linux") = [] := by
  obtain ⟨-, allowList, denied, obsolete, -⟩ := check_gives_verdict agingUse
  have noAllowList : agingUse.contract.isAllowList = false := by decide
  have linux : ∀ {v}, (⟨.canonical "linux", v⟩ : World) ∈ agingUse.worlds ↔
      Version.ofMajorMinor 6 0 ≤ v := by
    intro v
    have apart : PlatformName.canonical "linux" ≠ .canonical "windows" := by decide
    simp [agingUse, apart, VersionRange.mem_iff, VersionRange.atLeast]
  refine ⟨allowList.none fun h => ?_, (denied _).one ⟨noAllowList, ?_⟩, (obsolete _).one ?_,
    (denied _).none fun h => ?_⟩
  · cases noAllowList.symm.trans h.1
  · refine ⟨_, .atLeast .zero, rfl, rfl,
      ⟨.zero, ?_, VersionRange.mem_iff_contains.2 (by decide)⟩, ?_⟩
    · exact Worlds.mem_union.2 (.inr (Worlds.mem_only.2 ⟨rfl, VersionSet.mem_all⟩))
    · rintro ⟨b, own, hget, -⟩
      cases hget
  · refine ⟨_, ⟨.ofMajorMinor 5 0, none, none⟩, rfl, rfl, ⟨.ofMajorMinor 6 0, linux.2 (by decide)⟩,
      fun v hv => ?_, ?_⟩
    · exact Nat.le_trans (by decide) (linux.1 hv)
    · rintro ⟨b, own, hget, -⟩
      cases hget
  · obtain ⟨-, a, range, hget, hrange, -⟩ := h
    have undenied : (agingUse.contract.get? (.canonical "linux")).bind (·.deniedRange?) = none :=
      rfl
    rw [hget, Option.bind_some, hrange] at undenied
    cases undenied

end PlatformGuard
