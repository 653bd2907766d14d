import PlatformGuard.Guard.Expression
import PlatformGuard.Proofs.AttributeText

/-!
# The spellings of a version check

A check for a version of a platform can be spelled in several ways: by the name of the platform as
an argument, with the version in numbers or within the name, or by the method of the platform. All
spellings say the same, and a `!` before one says the opposite.

* `SymbolTable.declareCheckApi_declaresChecks`: a table that declares the check API has the
  methods of all spellings.
* `VersionSpelling.checkFact?_eq`: what a spelling says.
* `recognise?_nots`: what it says after any number of `!`.
* `version_checks_agree`: the three together.
-/

namespace PlatformGuard

/-! ## Declaring the check API -/

namespace SymbolTable

def IsMember (t : SymbolTable) (type id : SymbolId) (name : String) : Prop :=
  ∃ s, t.get? id = some s ∧ s.containing = some type ∧ s.name = name

/-- A type is the operating-system type of a table, with all check methods. -/
structure DeclaresChecks (t : SymbolTable) (type : SymbolId) : Prop where
  findType? : t.findType? CheckApi.operatingSystemType = some type
  methods : ∀ name ∈ CheckApi.operatingSystemMethods, ∃ id, t.IsMember type id name

/-- A table with more declarations, at new ids. What was found is found still, the type of a name
among it: none of the new declarations is a type of this name. -/
structure Extends (typeName : String) (t t' : SymbolTable) (added : Nat) : Prop where
  indexed : t'.Indexed
  nextId : t'.nextId = t.nextId + added
  get? : ∀ id, id.val.toNat < t.nextId → t'.get? id = t.get? id
  findType? : t'.findType? typeName = t.findType? typeName

variable {t t' t'' : SymbolTable} {typeName name : String} {kind : SymbolKind} {m n : Nat}
    {owner : SymbolId}

theorem Extends.trans (h : Extends typeName t t' m) (h' : Extends typeName t' t'' n) :
    Extends typeName t t'' (m + n) where
  indexed := h'.indexed
  nextId := by rw [h'.nextId, h.nextId, Nat.add_assoc]
  get? id old := (h'.get? id (by rw [h.nextId]; omega)).trans (h.get? id old)
  findType? := h'.findType?.trans h.findType?

/-- A type has a member with a name, at an id below the next one. -/
def HasMember (t : SymbolTable) (type : SymbolId) (name : String) : Prop :=
  ∃ id, id.val.toNat < t.nextId ∧ t.IsMember type id name

theorem HasMember.extends (h : t.HasMember owner name) (larger : Extends typeName t t' n) :
    t'.HasMember owner name := by
  obtain ⟨id, old, s, hget, hs⟩ := h
  exact ⟨id, by rw [larger.nextId]; omega, s, (larger.get? id old).trans hget, hs⟩

theorem freshId_toNat (room : t.nextId < UInt32.size) : t.freshId.val.toNat = t.nextId := by
  rw [freshId, if_pos room]
  exact Nat.mod_eq_of_lt room

theorem nextId_add (room : t.nextId < UInt32.size) (containing : Option SymbolId) :
    (t.add name kind containing).1.nextId = t.nextId + 1 := by
  show max t.nextId (t.freshId.val.toNat + 1) = t.nextId + 1
  rw [freshId_toNat room]
  omega

theorem extends_add (h : t.Indexed) (room : t.nextId < UInt32.size) (containing : Option SymbolId)
    (other : kind = .type → name ≠ typeName) :
    Extends typeName t (t.add name kind containing).1 1 where
  indexed := h.insert _
  nextId := nextId_add room containing
  get? id old := by
    have new : t.freshId ≠ id := by
      rintro rfl
      rw [freshId_toNat room] at old
      exact Nat.lt_irrefl _ old
    exact (get?_insert h _ id).trans (if_neg new)
  findType? := by
    show (if kind = .type then t.typesByName.insert name t.freshId
      else t.typesByName)[typeName]? = _
    split
    case isTrue htype => rw [Std.HashMap.getElem?_insert, if_neg (by simpa using other htype)]; rfl
    case isFalse => rfl

theorem hasMember_add (h : t.Indexed) :
    (t.add name kind (some owner)).1.HasMember owner name := by
  refine ⟨t.freshId, ?_, _, (get?_insert h _ _).trans (if_pos rfl), rfl, rfl⟩
  show t.freshId.val.toNat < max t.nextId (t.freshId.val.toNat + 1)
  omega

variable (typeName owner) in
/-- Declaring members of a type one after the other. -/
theorem foldl_add_members (hkind : kind ≠ .type) (names : List String) (h : t.Indexed)
    (room : t.nextId + names.length ≤ UInt32.size) :
    Extends typeName t
      (names.foldl (fun t name => (t.add name kind (some owner)).1) t) names.length ∧
      ∀ name ∈ names,
        (names.foldl (fun t name => (t.add name kind (some owner)).1) t).HasMember owner name := by
  induction names generalizing t with
  | nil => exact ⟨⟨h, rfl, fun _ _ => rfl, rfl⟩, by simp⟩
  | cons first rest ih =>
    rw [List.length_cons] at room
    have step : Extends typeName t (t.add first kind (some owner)).1 1 :=
      extends_add h (by omega) _ fun htype => absurd htype hkind
    obtain ⟨larger, members⟩ := ih step.indexed (by rw [step.nextId]; omega)
    rw [List.foldl_cons, List.length_cons, Nat.add_comm]
    refine ⟨step.trans larger, List.forall_mem_cons.2 ⟨?_, members⟩⟩
    exact (hasMember_add h).extends larger

variable {members : List String} {assembly type : SymbolId}

theorem extends_declareType (declared : t.declareType assembly name kind members = (t', type))
    (h : t.Indexed) (hkind : kind ≠ .type) (other : name ≠ typeName)
    (room : t.nextId + (1 + members.length) ≤ UInt32.size) :
    Extends typeName t t' (1 + members.length) := by
  obtain ⟨rfl, -⟩ := Prod.mk.inj declared
  have step : Extends typeName t (t.add name .type (some assembly)).1 1 :=
    extends_add h (by omega) _ fun _ => other
  exact step.trans
    (foldl_add_members typeName _ hkind members step.indexed (by rw [step.nextId]; omega)).1

/-- A declared type is found by its name, with its members. -/
theorem declareType_found (declared : t.declareType assembly name kind members = (t', type))
    (h : t.Indexed) (hkind : kind ≠ .type) (room : t.nextId + (1 + members.length) ≤ UInt32.size) :
    (t'.Indexed ∧ t'.nextId = t.nextId + (1 + members.length)) ∧
      t'.findType? name = some type ∧ ∀ member ∈ members, t'.HasMember type member := by
  obtain ⟨rfl, rfl⟩ := Prod.mk.inj declared
  have indexed : (t.add name .type (some assembly)).1.Indexed := h.insert _
  have nextId : (t.add name .type (some assembly)).1.nextId = t.nextId + 1 :=
    nextId_add (by omega) _
  have found : (t.add name .type (some assembly)).1.findType? name = some t.freshId :=
    Std.HashMap.getElem?_insert_self
  obtain ⟨larger, hasMembers⟩ :=
    foldl_add_members name t.freshId hkind members indexed (by rw [nextId]; omega)
  refine ⟨⟨larger.indexed, ?_⟩, larger.findType?.trans found, hasMembers⟩
  exact larger.nextId.trans (by rw [nextId, Nat.add_assoc])

/-- A table in which the check API is declared has it, if there are ids left for all of it. -/
theorem declareCheckApi_declaresChecks (assembly : SymbolId) (h : t.Indexed)
    (room : t.nextId + 32 ≤ UInt32.size) :
    (t.declareCheckApi assembly).1.DeclaresChecks
      (t.declareCheckApi assembly).2.operatingSystem := by
  have count : CheckApi.operatingSystemMethods.length = 21 := by decide
  have properties : (CheckApi.osPlatformProperties.map (·.1)).length = 4 := rfl
  obtain ⟨t₁, os, hos⟩ : ∃ t₁ os, t.declareType assembly CheckApi.operatingSystemType .method
    CheckApi.operatingSystemMethods = (t₁, os) := ⟨_, _, rfl⟩
  obtain ⟨⟨indexed, nextId⟩, found, hasMembers⟩ :=
    declareType_found hos h (by decide) (by rw [count]; omega)
  rw [count] at nextId
  -- what comes after declares no type of the same name
  obtain ⟨t₂, runtimeInformation, hruntime⟩ : ∃ t₂ type,
    t₁.declareType assembly CheckApi.runtimeInformationType .method
    [CheckApi.isOSPlatform] = (t₂, type) := ⟨_, _, rfl⟩
  have toRuntime : Extends CheckApi.operatingSystemType t₁ t₂ 2 :=
    extends_declareType hruntime indexed (by decide) (by decide)
    (by rw [List.length_singleton]; omega)
  obtain ⟨t₃, osPlatform, hplatforms⟩ : ∃ t₃ type,
    t₂.declareType assembly CheckApi.osPlatformType .property
    (CheckApi.osPlatformProperties.map (·.1)) = (t₃, type) := ⟨_, _, rfl⟩
  have toPlatforms : Extends CheckApi.operatingSystemType t₂ t₃ 5 :=
    extends_declareType hplatforms toRuntime.indexed (by decide) (by decide)
      (by rw [properties, toRuntime.nextId]; omega)
  have toCreate : Extends CheckApi.operatingSystemType t₃
      (t₃.add CheckApi.create .method (some osPlatform)).1 1 :=
    extends_add toPlatforms.indexed
      (by rw [toPlatforms.nextId, toRuntime.nextId]; omega) _ (by decide)
  obtain ⟨t₄, debug, hdebug⟩ : ∃ t₄ type,
    (t₃.add CheckApi.create .method (some osPlatform)).1.declareType assembly
    CheckApi.debugType .method [CheckApi.assert] = (t₄, type) := ⟨_, _, rfl⟩
  have toDebug : Extends CheckApi.operatingSystemType _ t₄ 2 :=
    extends_declareType hdebug toCreate.indexed (by decide) (by decide)
      (by rw [List.length_singleton, toCreate.nextId, toPlatforms.nextId, toRuntime.nextId]; omega)
  have larger := ((toRuntime.trans toPlatforms).trans toCreate).trans toDebug
  have declared : t.declareCheckApi assembly =
      (t₄, ⟨os, runtimeInformation, osPlatform, debug⟩) := by
    simp only [declareCheckApi, hos, hruntime, hplatforms, hdebug]
  rw [declared]
  refine ⟨larger.findType?.trans found, fun name hname => ?_⟩
  obtain ⟨id, -, member⟩ := (hasMembers name hname).extends larger
  exact ⟨id, member⟩

end SymbolTable

/-! ## Arguments -/

/-- Arguments that are the components of a version, written as literals. -/
def AreComponents (arguments : List Operation) (parts : List UInt32) : Prop :=
  List.Forall₂ (fun argument c => ∃ span n, argument = .literal span (.int n) ∧ n.toInt = c.toNat)
    arguments parts

theorem versionComponent?_literal {n : Int64} {c : UInt32} (span : Span) (h : n.toInt = c.toNat) :
    versionComponent? (.literal span (.int n)) = some c := by
  have bounds : 0 ≤ n.toInt ∧ n.toInt < UInt32.size := by
    rw [h]
    exact ⟨Int.natCast_nonneg _, Int.ofNat_lt.2 c.toNat_lt⟩
  show (if 0 ≤ n.toInt ∧ n.toInt < UInt32.size then some n.toInt.toNat.toUInt32 else none) = some c
  rw [if_pos bounds, h, Int.toNat_natCast]
  exact congrArg some UInt32.ofNat_toNat

theorem versionOfArguments?_eq {arguments : List Operation} {parts : List UInt32}
    (h : AreComponents arguments parts) :
    versionOfArguments? arguments = Version.ofComponents? (Version.padded parts) := by
  have read : arguments.mapM versionComponent? = some parts := by
    refine mapM_eq_some_iff.2 (h.imp ?_)
    rintro _ c ⟨span, n, rfl, hn⟩
    exact versionComponent?_literal span hn
  rw [versionOfArguments?, read, Option.bind_some, Version.ofComponents?_padded]

/-! ## What a spelling says -/

/-- The ways to spell a check for a version of a platform. -/
inductive VersionSpelling where
  /-- `IsOSPlatformVersionAtLeast("windows", 10, 0)`. -/
  | versionAtLeast
  /-- `IsWindowsVersionAtLeast(10, 0)`. -/
  | named
  /-- `IsOSPlatformOrLater("windows", 10, 0)`, and so for `IsOSPlatformEarlierThan`. -/
  | apart (relation : GuardRelation)
  /-- `IsOSPlatformOrLater("windows10.0")`, and so for `IsOSPlatformEarlierThan`. -/
  | joined (relation : GuardRelation)

/-- The method for a relation that takes the version in numbers or within the name. -/
def GuardRelation.checkName : GuardRelation → String
  | atLeast => CheckApi.isOSPlatformOrLater
  | earlierThan => CheckApi.isOSPlatformEarlierThan

namespace VersionSpelling

/-- What is asked of the version. -/
def relation : VersionSpelling → GuardRelation
  | versionAtLeast | named => .atLeast
  | apart relation | joined relation => relation

def method (p : BuiltinPlatform) : VersionSpelling → String
  | versionAtLeast => CheckApi.isOSPlatformVersionAtLeast
  | named => "Is" ++ p.guardName ++ CheckApi.versionAtLeastEnding
  | apart relation | joined relation => relation.checkName

/-- The arguments: the name of the platform where it is one, as a literal, and the
components of the version. -/
def arguments (text : String) (textSpan : Span) (parts : List UInt32) (numbers : List Operation) :
    VersionSpelling → List Operation
  | versionAtLeast | apart _ => .literal textSpan (.string text) :: numbers
  | named => numbers
  | joined _ => [.literal textSpan (.string (text ++ String.ofList (Version.numerals parts)))]

end VersionSpelling

theorem Text.after?_append (lead rest : List Char) : after? lead (lead ++ rest) = some rest := by
  induction lead with
  | nil => cases rest <;> rfl
  | cons c lead ih => rw [List.cons_append, after?, if_pos rfl, ih]

theorem Text.before?_append (cs tail : List Char) : before? tail (cs ++ tail) = some cs := by
  rw [before?, List.reverse_append, after?_append, Option.map_some, List.reverse_reverse]

/-- The names of the built-in platforms are letters and canonical, and tell them apart,
also in the check methods. -/
theorem builtinPlatforms_named : ∀ p ∈ builtinPlatforms,
    Vocabulary.isLetters (PlatformName.canonical p.name).text = true ∧
      (PlatformName.canonical p.name).builtin? = some p ∧
      (builtinPlatforms.find? fun q => q.guardName.toList == p.guardName.toList) = some p := by
  decide +kernel

/-- The methods of one platform are not those for any platform. -/
theorem named_method_not_mem : ∀ p ∈ builtinPlatforms, VersionSpelling.named.method p ∉
    [CheckApi.isOSPlatform, CheckApi.isOSPlatformVersionAtLeast, CheckApi.isOSPlatformOrLater,
      CheckApi.isOSPlatformEarlierThan] := by
  decide +kernel

namespace VersionSpelling

variable {p : BuiltinPlatform} {text : String} {parts : List UInt32} {numbers : List Operation}
    {version : Version}

/-- A platform that takes versions has the methods of all spellings. -/
theorem method_mem (builtin : p ∈ builtinPlatforms) (versioned : p.maxVersionParts ≠ 0)
    (spelling : VersionSpelling) :
    spelling.method p ∈ CheckApi.operatingSystemMethods := by
  cases spelling with
  | versionAtLeast => exact List.mem_append_left _ (by simp [method])
  | named =>
    refine List.mem_append_right _ (List.mem_flatMap.2 ⟨p, builtin, List.mem_cons_of_mem _ ?_⟩)
    rw [if_neg versioned]
    exact List.mem_singleton.2 rfl
  | apart relation | joined relation =>
    cases relation <;> exact List.mem_append_left _ (by simp [method, GuardRelation.checkName])

theorem namedCheck?_method (builtin : p ∈ builtinPlatforms) (arguments : List Operation) :
    namedCheck? (named.method p) arguments =
      (versionOfArguments? arguments).map fun version => .atLeast (.canonical p.name) version := by
  obtain ⟨-, -, found⟩ := builtinPlatforms_named p builtin
  have letters : (named.method p).toList =
      "Is".toList ++ (p.guardName.toList ++ CheckApi.versionAtLeastEnding.toList) := by
    rw [method, String.toList_append, String.toList_append, List.append_assoc]
  rw [namedCheck?, letters, Text.after?_append, Option.bind_some, Text.before?_append]
  dsimp only
  rw [platformOfGuardName?, found, Option.map_some, Option.bind_some]

theorem platformAndVersion?_apart (r : GuardReader) (types : CheckTypes) (span : Span)
    (filled : numbers ≠ []) (hversion : versionOfArguments? numbers = some version) :
    r.platformAndVersion? types (.literal span (.string text)) numbers =
      some (.canonical text, version) := by
  rw [GuardReader.platformAndVersion?, if_pos (by simpa using filled), hversion]
  rfl

theorem platformAndVersion?_of_parsed (r : GuardReader) (types : CheckTypes) (span : Span)
    {n : PlatformName} (parsed : r.declarations.vocabulary.parseAttribute text = ⟨n, version, []⟩) :
    r.platformAndVersion? types (.literal span (.string text)) [] = some (n, version) := by
  have literal : textLiteral? (.literal span (.string text)) = some text := rfl
  rw [GuardReader.platformAndVersion?, if_neg (by simp), literal]
  dsimp only
  rw [parsed]
  rfl

theorem platformAndVersion?_joined (r : GuardReader) (types : CheckTypes) (span : Span)
    (builtin : p ∈ builtinPlatforms) (spelled : (PlatformName.canonical p.name).SpelledAs text)
    (most : parts.length ≤ p.maxVersionParts)
    (hversion : Version.ofComponents? (Version.padded parts) = some version) :
    r.platformAndVersion? types
      (.literal span (.string (text ++ String.ofList (Version.numerals parts)))) [] =
      some (.canonical p.name, version) := by
  obtain ⟨letters, known, -⟩ := builtinPlatforms_named p builtin
  rw [Version.ofComponents?_padded] at hversion
  obtain ⟨bare, hbare, rfl⟩ := Option.map_eq_some_iff.1 hversion
  have most' : parts.length ≤ r.declarations.vocabulary.maxVersionParts (.canonical p.name) := by
    rwa [Vocabulary.maxVersionParts, known]
  have isKnown : r.declarations.vocabulary.isKnown (.canonical p.name) = true := by
    rw [Vocabulary.isKnown, known]
    rfl
  have blank : "".toList.all Text.isBlank = true := rfl
  have parsed := Vocabulary.parseAttribute_numerals isKnown letters spelled blank blank most' hbare
  rw [String.empty_append, String.append_empty] at parsed
  exact platformAndVersion?_of_parsed r types span parsed

theorem checkFact?_checkName (r : GuardReader) (types : CheckTypes) (relation : GuardRelation)
    {first : Operation} {n : PlatformName}
    (h : r.platformAndVersion? types first numbers = some (n, version)) :
    r.checkFact? types relation.checkName (first :: numbers) =
      some ⟨n, relation, version, false⟩ := by
  cases relation with
  | atLeast =>
    rw [GuardRelation.checkName, GuardReader.checkFact?, if_neg (by decide),
      if_neg (by decide), if_pos rfl]
    exact congrArg (Option.map _) h
  | earlierThan =>
    rw [GuardRelation.checkName, GuardReader.checkFact?, if_neg (by decide), if_neg (by decide),
      if_neg (by decide), if_pos rfl]
    exact congrArg (Option.map _) h

/-- Every spelling of a check for a version says the same. -/
theorem checkFact?_eq (r : GuardReader) (types : CheckTypes) (span : Span)
    (builtin : p ∈ builtinPlatforms) (spelled : (PlatformName.canonical p.name).SpelledAs text)
    (least : 1 ≤ parts.length) (most : parts.length ≤ p.maxVersionParts)
    (hversion : Version.ofComponents? (Version.padded parts) = some version)
    (components : AreComponents numbers parts) (spelling : VersionSpelling) :
    r.checkFact? types (spelling.method p) (spelling.arguments text span parts numbers) =
      some ⟨.canonical p.name, spelling.relation, version, false⟩ := by
  have filled : numbers ≠ [] := by
    rintro rfl
    rw [List.forall₂_nil_left_iff.1 components] at least
    exact Nat.not_succ_le_zero 0 least
  have ofNumbers : versionOfArguments? numbers = some version :=
    (versionOfArguments?_eq components).trans hversion
  have named : PlatformName.canonical text = .canonical p.name :=
    Vocabulary.canonical_of_spelledAs (builtinPlatforms_named p builtin).1 spelled
  have pair : r.platformAndVersion? types (.literal span (.string text)) numbers =
      some (.canonical p.name, version) :=
    (platformAndVersion?_apart r types span filled ofNumbers).trans (by rw [named])
  have joinedPair := platformAndVersion?_joined r types span builtin spelled most hversion
  cases spelling with
  | versionAtLeast =>
    rw [method, GuardReader.checkFact?, if_neg (by decide), if_pos rfl]
    show (versionOfArguments? numbers).map (GuardFact.atLeast (.canonical text)) = _
    rw [ofNumbers, named]
    rfl
  | named =>
    have notMem := named_method_not_mem p builtin
    simp only [List.mem_cons, List.not_mem_nil, or_false, not_or] at notMem
    obtain ⟨h₁, h₂, h₃, h₄⟩ := notMem
    rw [GuardReader.checkFact?, if_neg h₁, if_neg h₂, if_neg h₃, if_neg h₄,
      namedCheck?_method builtin]
    show (versionOfArguments? numbers).map _ = _
    rw [ofNumbers]
    rfl
  | apart relation => exact checkFact?_checkName r types relation pair
  | joined relation => exact checkFact?_checkName r types relation joinedPair

end VersionSpelling

/-! ## Calls -/

/-- A call of a method of the operating-system type says what the name and the arguments say. -/
theorem GuardReader.ofCall?_of_checkFact? {t : SymbolTable} {type id : SymbolId} {name : String}
    {f : GuardFact} {arguments : List Operation} (vocabulary : Vocabulary)
    (found : t.findType? CheckApi.operatingSystemType = some type)
    (member : t.IsMember type id name)
    (h : ∀ types, (ofDeclarations ⟨t, vocabulary⟩).checkFact? types name arguments = some f) :
    (ofDeclarations ⟨t, vocabulary⟩).ofCall? id arguments = some (.fact f) := by
  obtain ⟨s, hget, hcontaining, rfl⟩ := member
  have types : (ofDeclarations ⟨t, vocabulary⟩).types = some
      ⟨some type, t.findType? CheckApi.runtimeInformationType,
        t.findType? CheckApi.osPlatformType⟩ := by
    simp [ofDeclarations, CheckTypes.ofTable?, found]
  have called : (ofDeclarations ⟨t, vocabulary⟩).declarations.table.get? id = some s := hget
  rw [ofCall?, types, Option.bind_some, callFact?, called, Option.filter_some,
    if_pos (by simp [CheckTypes.hasChecks, hcontaining]), Option.bind_some, h]
  rfl

/-- Each `!` turns what a check says into the opposite. -/
theorem recognise?_nots {r : GuardReader} {cached : CachedGuards} {op : Operation} {f : GuardFact}
    (h : recognise? r cached op = some (.guard (.fact f))) (nots : List Span) :
    recognise? r cached (nots.foldr (fun span op => .unary span .not op) op) =
      some (.guard (.fact { f with negated := f.negated ^^ decide (nots.length % 2 = 1) })) := by
  induction nots with
  | nil => simpa using h
  | cons span rest ih =>
    rw [List.foldr_cons, recognise?, ih]
    have flips : (!decide (rest.length % 2 = 1)) = decide ((rest.length + 1) % 2 = 1) := by
      rw [← decide_not, decide_eq_decide]
      omega
    rw [List.length_cons, ← flips, Bool.xor_not]
    rfl

/-- With the check API declared, all spellings of a check for a version of a built-in platform are
there and are recognised, whichever letter case the name of the platform has. They say the same of
the version with the components as written, a single one followed by a zero, and the opposite
after an odd number of `!`. -/
theorem version_checks_agree {t : SymbolTable} {type : SymbolId} (api : t.DeclaresChecks type)
    (vocabulary : Vocabulary) (cached : CachedGuards) {p : BuiltinPlatform}
    (builtin : p ∈ builtinPlatforms) {text : String}
    (spelled : (PlatformName.canonical p.name).SpelledAs text) {parts : List UInt32}
    (least : 1 ≤ parts.length) (most : parts.length ≤ p.maxVersionParts) :
    ∃ version : Version, version.components = Version.padded parts ∧
      Version.ofComponents? (Version.padded parts) = some version ∧ ∀ spelling : VersionSpelling,
      (∃ id, t.IsMember type id (spelling.method p)) ∧
      ∀ id, t.IsMember type id (spelling.method p) →
        ∀ (span textSpan : Span) (receiver : Option Operation) (numbers : List Operation)
          (nots : List Span),
          AreComponents numbers parts →
          recognise? (.ofDeclarations ⟨t, vocabulary⟩) cached
              (nots.foldr (fun span op => .unary span .not op)
                (.invocation span id receiver (spelling.arguments text textSpan parts numbers))) =
            some (.guard (.fact
              ⟨.canonical p.name, spelling.relation, version, decide (nots.length % 2 = 1)⟩)) := by
  have few : parts.length ≤ Version.maxComponents := by
    have known := (builtinPlatforms_named p builtin).2.1
    have bound := Vocabulary.builtin.maxVersionParts_le (.canonical p.name)
    rw [Vocabulary.maxVersionParts, known] at bound
    exact Nat.le_trans most bound
  obtain ⟨bare, hbare, -⟩ := Version.exists_ofComponents? few
  have hversion : Version.ofComponents? (Version.padded parts) = some bare.normalized := by
    rw [Version.ofComponents?_padded, hbare, Option.map_some]
  refine ⟨_, Version.components_of_ofComponents? hversion, hversion, fun spelling =>
    ⟨?_, fun id member span textSpan receiver numbers nots components => ?_⟩⟩
  · exact api.methods _ (spelling.method_mem builtin (by omega))
  · have call := GuardReader.ofCall?_of_checkFact? vocabulary api.findType? member fun types =>
      spelling.checkFact?_eq _ types textSpan builtin spelled least most hversion components
    have single : recognise? (.ofDeclarations ⟨t, vocabulary⟩) cached
        (.invocation span id receiver (spelling.arguments text textSpan parts numbers)) =
          some (.guard (.fact ⟨.canonical p.name, spelling.relation, bare.normalized, false⟩)) := by
      rw [recognise?, call, Option.map_some]
    rw [recognise?_nots single, Bool.false_xor]

/-- In a table with the check API alone: macOS by its other name in capitals, at the greatest number
there is, and ruled out. -/
theorem version_checks_agree_notOSX :
    let api := SymbolTable.empty.declareCheckApi ⟨0⟩
    ∀ spelling : VersionSpelling,
      ∃ id, api.1.IsMember api.2.operatingSystem id (spelling.method ⟨"macos", "MacOS", 3⟩) ∧
        recognise? (.ofDeclarations ⟨api.1, .builtin⟩) {}
            (.unary {} .not (.invocation {} id none
              (spelling.arguments "OSX" {} [4294967295] [.literal {} (.int 4294967295)]))) =
          some (.guard (.fact
            ⟨.canonical "macos", spelling.relation, .ofMajorMinor 4294967295 0, true⟩)) := by
  intro api spelling
  have indexed : SymbolTable.empty.Indexed := fun _ _ h => absurd h (by simp [SymbolTable.empty])
  have declares := SymbolTable.declareCheckApi_declaresChecks ⟨0⟩ indexed (by decide)
  have components : AreComponents [.literal {} (.int 4294967295)] [4294967295] :=
    .cons ⟨{}, 4294967295, rfl, by decide⟩ .nil
  have spelled : (PlatformName.canonical "macos").SpelledAs "OSX" := .inr (by decide +kernel)
  obtain ⟨version, -, hversion, agree⟩ :=
    version_checks_agree (p := ⟨"macos", "MacOS", 3⟩) declares .builtin {} (by decide) spelled
      (by decide : 1 ≤ [(4294967295 : UInt32)].length) (by decide)
  obtain rfl : Version.ofMajorMinor 4294967295 0 = version := Option.some.inj hversion
  obtain ⟨⟨id, member⟩, recognised⟩ := agree spelling
  exact ⟨id, member, recognised id member {} {} none _ [{}] components⟩

end PlatformGuard
