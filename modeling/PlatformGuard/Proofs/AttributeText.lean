import PlatformGuard.Proofs.AttributeFormat

/-!
# Writing and reading attribute texts

A platform name in any letter case, or an alias of it, followed by the components of a
version with points between, is a text of the format; so it is read back, with blanks
around the whole or without.

* `Vocabulary.canonical_of_spelledAs`: a name in any letter case, or an alias of
  it, names the platform.
* `Vocabulary.parseAttribute_numerals`: with components after it that the platform takes,
  it is read as the two.
* `attribute_text_round_trip`: the texts of versions, the bare name, and a single number.
-/

namespace PlatformGuard

/-! ## Names -/

theorem Text.isAlpha_toLower (c : Char) : c.toLower.isAlpha = c.isAlpha := by
  rw [Bool.eq_iff_iff, isAlpha_iff, isAlpha_iff, toNat_toLower]
  split <;> omega

/-- A text is the name of a platform, or an alias of it, in some letter case. -/
def PlatformName.SpelledAs (n : PlatformName) (s : String) : Prop :=
  Text.lower s = n.text ∨ (Text.lower s, n.text) ∈ platformAliases

theorem PlatformName.canonical_eq_iff {s : String} {n : PlatformName} :
    canonical s = n ↔ canonicalText s = n.text := by
  cases n with
  | mk text h => rw [canonical, mk.injEq]

namespace Vocabulary

theorem isLetters_lower (s : String) : isLetters (Text.lower s) = isLetters s := by
  have all : ((s.toList.map Char.toLower).all Char.isAlpha) = s.toList.all Char.isAlpha := by
    rw [List.all_map]
    congr 1
    exact funext Text.isAlpha_toLower
  have filled : (Text.lower s != "") = (s != "") := by
    rw [Bool.eq_iff_iff, bne_iff_ne, bne_iff_ne, ne_eq, ne_eq, not_iff_not, ← String.toList_inj,
      ← String.toList_inj]
    simp [Text.lower]
  rw [isLetters, isLetters, filled]
  simp only [Text.lower, String.toList_ofList, all]

/-- Aliases are letters, and each is found. -/
theorem platformAliases_resolve :
    ∀ e ∈ platformAliases, isLetters e.1 = true ∧ platformAliases.lookup e.1 = some e.2 := by
  decide

variable {v : Vocabulary} {n : PlatformName} {s : String}

theorem isLetters_of_spelledAs (letters : isLetters n.text = true) (spelled : n.SpelledAs s) :
    isLetters s = true := by
  rw [← isLetters_lower]
  rcases spelled with h | h
  · rwa [h]
  · exact (platformAliases_resolve _ h).1

theorem trim_of_isLetters (h : isLetters s = true) : Text.trim s = s := by
  obtain ⟨hne, hletters⟩ := isLetters_iff.1 h
  have kept : Text.dropBlanks ([] ++ s.toList ++ []) = s.toList :=
    Text.dropBlanks_surround (by simpa using hne)
    (fun c hc => Text.not_isBlank_of_isAlpha (hletters c hc))
      (fun c hc => absurd hc List.not_mem_nil) fun c hc => absurd hc List.not_mem_nil
  rw [List.nil_append, List.append_nil] at kept
  rw [Text.trim, kept, String.ofList_toList]

/-- Letter case and aliases do not matter to which platform is named. -/
theorem canonical_of_spelledAs (letters : isLetters n.text = true) (spelled : n.SpelledAs s) :
    PlatformName.canonical s = n := by
  have trimmed : Text.trim s = s := trim_of_isLetters (isLetters_of_spelledAs letters spelled)
  have resolved : canonicalText s = (platformAliases.lookup (Text.lower s)).getD
      (Text.lower s) := by
    simp only [canonicalText, trimmed]
  rw [PlatformName.canonical_eq_iff, resolved]
  rcases spelled with h | h
  · have folded : Text.lower (Text.trim n.text) = n.text := by
      rw [trim_of_isLetters letters, ← h, Text.lower_lower]
    have fixed := n.canonical_text
    simp only [canonicalText, folded] at fixed
    rwa [h]
  · rw [(platformAliases_resolve _ h).2]
    rfl

end Vocabulary

/-! ## Versions -/

namespace Version

/-- Components as numerals, with points between. -/
def numerals (components : List UInt32) : List Char :=
  Text.joinWith '.' (components.map fun c => Text.decimal c.toNat)

/-- A version with two or more components prints just these. -/
theorem text_eq_numerals {version : Version} (h : 2 ≤ version.written) :
    version.text = String.ofList (numerals version.components) := by
  rw [text, chars, numerals, components, Nat.max_eq_left h]

theorem length_components {version : Version} (h : version.written ≤ maxComponents) :
    version.components.length = version.written := by
  rw [components, List.length_take]
  exact Nat.min_eq_left h

theorem exists_ofComponents? {components : List UInt32} (h : components.length ≤ maxComponents) :
    ∃ version, ofComponents? components = some version ∧ version.written = components.length := by
  match components with
  | [] => exact ⟨_, rfl, rfl⟩
  | [_] => exact ⟨_, rfl, rfl⟩
  | [_, _] => exact ⟨_, rfl, rfl⟩
  | [_, _, _] => exact ⟨_, rfl, rfl⟩
  | [_, _, _, _] => exact ⟨_, rfl, rfl⟩
  | _ :: _ :: _ :: _ :: _ :: rest =>
    have : rest.length + 5 ≤ 4 := h
    omega

theorem normalized_of_two_le {version : Version} (h : 2 ≤ version.written) :
    version.normalized = version := by
  rw [normalized, if_neg]
  omega

theorem spelledBy_decimals (components : List UInt32) :
    SpelledBy components (components.map fun c => Text.decimal c.toNat) := by
  rw [SpelledBy, List.forall₂_map_left_iff, List.forall₂_same]
  exact fun c _ => Text.ofDigits?_eq_some.1 (Text.ofDigits?_decimal c.toNat)

end Version

namespace Vocabulary

variable {v : Vocabulary} {n : PlatformName}

/-- No platform takes more components than a version can have. -/
theorem maxVersionParts_le (v : Vocabulary) (n : PlatformName) :
    v.maxVersionParts n ≤ Version.maxComponents := by
  have builtin : ∀ p ∈ builtinPlatforms, p.maxVersionParts ≤ Version.maxComponents := by decide
  unfold maxVersionParts
  split
  case h_1 p hp => exact builtin p (List.mem_of_find?_eq_some hp)
  case h_2 => exact Nat.le_refl _

/-- A spelling of a known platform, with as many components after it as the platform takes,
is read without errors. -/
theorem parseAttribute_numerals {s before after : String} {components : List UInt32}
    {version : Version} (known : v.isKnown n = true) (letters : isLetters n.text = true)
    (spelled : n.SpelledAs s) (blankBefore : before.toList.all Text.isBlank = true)
    (blankAfter : after.toList.all Text.isBlank = true)
    (most : components.length ≤ v.maxVersionParts n)
    (h : Version.ofComponents? components = some version) :
    v.parseAttribute (before ++ s ++ String.ofList (Version.numerals components) ++ after) =
      ⟨n, version.normalized, []⟩ := by
  have ofLetters := isLetters_of_spelledAs letters spelled
  have named := canonical_of_spelledAs letters spelled
  have format : v.HasFormat (s.toList ++ Version.numerals components) s.toList []
      (components.map fun c => Text.decimal c.toNat) components :=
    { text_eq := by rw [List.append_nil, Version.numerals]
      letters := by rwa [String.ofList_toList]
      known := by rwa [String.ofList_toList, named]
      spelled := Version.spelledBy_decimals components
      most := by rwa [String.ofList_toList, named] }
  have trimmed : Text.dropBlanks
    (before ++ s ++ String.ofList (Version.numerals components) ++ after).toList =
      s.toList ++ Version.numerals components := by
    simp only [String.toList_append, String.toList_ofList]
    rw [List.append_assoc before.toList]
    refine Text.dropBlanks_surround ?_ format.not_isBlank (List.all_eq_true.1 blankBefore)
      (List.all_eq_true.1 blankAfter)
    exact List.append_ne_nil_of_left_ne_nil (by simpa using (isLetters_iff.1 ofLetters).1) _
  rw [← trimmed] at format
  have read := format.parseAttribute (fun c hc => absurd hc List.not_mem_nil)
    ((Version.ofComponents?_padded components).trans (congrArg (Option.map Version.normalized) h))
  rwa [String.ofList_toList, named] at read

end Vocabulary

/-- What is written for a known platform is read back without errors: a name in any letter case or
an alias, with the text of a version whose components the platform takes, with nothing, or with a
single number, and any blanks around the whole. -/
theorem attribute_text_round_trip (v : Vocabulary) (n : PlatformName) (known : v.isKnown n = true)
    (letters : Vocabulary.isLetters n.text = true) (s : String) (spelled : n.SpelledAs s)
    (before after : String) (blankBefore : before.toList.all Text.isBlank = true)
    (blankAfter : after.toList.all Text.isBlank = true) :
    (∀ version : Version, 2 ≤ version.written → version.written ≤ v.maxVersionParts n →
      ∃ read, v.parseAttribute (before ++ s ++ version.text ++ after) = ⟨n, read, []⟩ ∧
        read.components = version.components ∧
        Version.ofComponents? version.components = some read) ∧
    v.parseAttribute (before ++ s ++ after) = ⟨n, .zero, []⟩ ∧
    ∀ k : UInt32, 1 ≤ v.maxVersionParts n →
      v.parseAttribute (before ++ s ++ Text.number k.toNat ++ after) =
        ⟨n, .ofMajorMinor k 0, []⟩ := by
  have reads : ∀ (components : List UInt32) {version : Version},
    components.length ≤ v.maxVersionParts n →
      Version.ofComponents? components = some version →
      v.parseAttribute (before ++ s ++ String.ofList (Version.numerals components) ++ after) =
        ⟨n, version.normalized, []⟩ :=
    fun _ _ most h =>
    Vocabulary.parseAttribute_numerals known letters spelled blankBefore blankAfter most h
  refine ⟨fun version two most => ?_, ?_, fun k one => ?_⟩
  · have count : version.components.length = version.written :=
      Version.length_components (Nat.le_trans most (v.maxVersionParts_le n))
    have most' : version.components.length ≤ v.maxVersionParts n := count ▸ most
    obtain ⟨read, hread, written⟩ :=
      Version.exists_ofComponents? (Nat.le_trans most' (v.maxVersionParts_le n))
    refine ⟨read, ?_, Version.components_of_ofComponents? hread, hread⟩
    rw [Version.text_eq_numerals two, reads _ most' hread,
      Version.normalized_of_two_le (by rwa [written, count])]
  · have bare := reads [] (Nat.zero_le _) rfl
    rwa [show String.ofList (Version.numerals []) = "" from rfl, String.append_empty] at bare
  · exact reads [k] one rfl

/-- `OSX` with one number and with a version of three components, with blanks around. -/
theorem attribute_text_round_trip_osx :
    let v : Vocabulary := .withCustom ["haiku"]
    let mac : PlatformName := .canonical "macos"
    v.isKnown mac = true ∧ Vocabulary.isLetters mac.text = true ∧ mac.SpelledAs "OSX" ∧
    3 ≤ v.maxVersionParts mac ∧
    v.parseAttribute (" " ++ "OSX" ++ Text.number 10 ++ "\n") = ⟨mac, .ofMajorMinor 10 0, []⟩ ∧
    ∃ read, v.parseAttribute (" " ++ "OSX" ++ (Version.mk 10 15 7 0 3).text ++ "\n") =
      ⟨mac, read, []⟩ ∧
      read.components = [10, 15, 7] := by
  intro v mac
  have known : v.isKnown mac = true := by decide
  have letters : Vocabulary.isLetters mac.text = true := by decide
  have spelled : mac.SpelledAs "OSX" := .inr (by decide)
  have parts : 3 ≤ v.maxVersionParts mac := by decide
  obtain ⟨versions, -, numbers⟩ :=
    attribute_text_round_trip v mac known letters "OSX" spelled " " "\n" (by decide) (by decide)
  obtain ⟨read, hread, same, -⟩ := versions ⟨10, 15, 7, 0, 3⟩ (by decide) parts
  exact ⟨known, letters, spelled, parts, numbers 10 (Nat.le_trans (by decide) parts),
    read, hread, same⟩

end PlatformGuard
