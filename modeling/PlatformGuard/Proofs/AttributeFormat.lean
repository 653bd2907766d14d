import Mathlib.Data.List.Basic
import Mathlib.Data.List.Forall2
import Mathlib.Data.List.TakeWhile
import PlatformGuard.Platform.Vocabulary

/-!
# Which attribute texts are read

The format of an attribute text is a known platform name of letters and, right after it, the
components of a version as numerals with points between. This module says which texts are
read without errors, and as what. They are the texts of the format and one kind more: blanks
may stand between the name and the version, since a name that was cut off is trimmed again
before it is looked up.

* `Vocabulary.parseComponents?_splitOn`: a version part is read iff it is numerals with points
  between.
* `Vocabulary.parseAttribute_eq_iff`: a text is read without errors iff both its parts are.
* `Vocabulary.HasFormat`: a text cut into a name, what stands after it, and numerals.
* `attribute_read_iff`: the texts that are read, and those of the format among them.
-/

namespace PlatformGuard

/-- Reading the items of a list one by one gives their readings in the same order. -/
theorem mapM_eq_some_iff {α β : Type} {read : α → Option β} {items : List α} {results : List β} :
    items.mapM read = some results ↔
      List.Forall₂ (fun item result => read item = some result) items results := by
  induction items generalizing results with
  | nil => simp [eq_comm]
  | cons item rest ih =>
    rw [List.mapM_cons]
    cases results with
    | nil => cases read item <;> cases rest.mapM read <;> simp
    | cons result others =>
      rw [List.forall₂_cons, ← ih]
      cases read item <;> cases rest.mapM read <;> simp

/-! ## Characters, numerals and blanks -/

namespace Text

theorem isAlpha_iff {c : Char} :
    c.isAlpha = true ↔ 65 ≤ c.toNat ∧ c.toNat ≤ 90 ∨ 97 ≤ c.toNat ∧ c.toNat ≤ 122 := by
  have upper : c.isUpper = true ↔ 65 ≤ c.toNat ∧ c.toNat ≤ 90 := decide_eq_true_iff
  have lower : c.isLower = true ↔ 97 ≤ c.toNat ∧ c.toNat ≤ 122 :=
    Bool.and_eq_true_iff.trans (and_congr decide_eq_true_iff decide_eq_true_iff)
  rw [← upper, ← lower]
  exact Bool.or_eq_true_iff

theorem isDigit_iff {c : Char} : c.isDigit = true ↔ 48 ≤ c.toNat ∧ c.toNat ≤ 57 :=
  Bool.and_eq_true_iff.trans (and_congr decide_eq_true_iff decide_eq_true_iff)

theorem not_isDigit_of_isAlpha {c : Char} (h : c.isAlpha = true) : c.isDigit = false := by
  rw [isAlpha_iff] at h
  rw [Bool.eq_false_iff, ne_eq, isDigit_iff]
  omega

theorem not_isBlank_of_isAlpha {c : Char} (h : c.isAlpha = true) : isBlank c = false := by
  rw [isAlpha_iff] at h
  simp [isBlank]
  omega

theorem not_isBlank_of_isDigit {c : Char} (h : c.isDigit = true) : isBlank c = false := by
  rw [isDigit_iff] at h
  simp [isBlank]
  omega

/-- One or more digits that stand for a number. Leading zeros do not matter. -/
def IsNumeral (cs : List Char) (n : Nat) : Prop :=
  cs ≠ [] ∧ (∀ c ∈ cs, c.isDigit = true) ∧ Nat.ofDigitChars 10 cs 0 = n

theorem ofDigits?_eq_some {cs : List Char} {n : Nat} : ofDigits? cs = some n ↔ IsNumeral cs n := by
  unfold ofDigits? IsNumeral
  cases cs with
  | nil => simp
  | cons c rest =>
    rw [← List.all_eq_true]
    cases (c :: rest).all Char.isDigit <;> simp

theorem joinWith_ne_nil {sep : Char} {part : List Char} {rest : List (List Char)} (h : part ≠ []) :
    joinWith sep (part :: rest) ≠ [] := by
  cases rest with
  | nil => exact h
  | cons next more => exact List.append_ne_nil_of_left_ne_nil h _

/-- Parts that are not empty start as the first of them does. -/
theorem exists_of_mem_head?_joinWith {sep c : Char} {parts : List (List Char)}
    (filled : ∀ part ∈ parts, part ≠ []) (h : c ∈ (joinWith sep parts).head?) :
    ∃ part ∈ parts, c ∈ part := by
  cases parts with
  | nil => exact absurd h (by simp [joinWith])
  | cons part rest =>
    have first : (joinWith sep (part :: rest)).head? = part.head? := by
      cases rest with
      | nil => rfl
      | cons next more => exact List.head?_append_of_ne_nil part (filled part List.mem_cons_self)
    rw [first] at h
    exact ⟨part, List.mem_cons_self, List.mem_of_mem_head? h⟩

/-- Blanks around a text without blanks at its ends are what is dropped. -/
theorem dropBlanks_surround {before middle after : List Char} (hne : middle ≠ [])
    (hmiddle : ∀ c ∈ middle, isBlank c = false) (hbefore : ∀ c ∈ before, isBlank c = true)
    (hafter : ∀ c ∈ after, isBlank c = true) : dropBlanks (before ++ middle ++ after) = middle := by
  have start : ∀ cs rest : List Char, cs ≠ [] → (∀ c ∈ cs, isBlank c = false) →
      (cs ++ rest).dropWhile isBlank = cs ++ rest := by
    intro cs rest hcs hblank
    refine dropWhile_eq_self fun c hc => hblank c ?_
    rw [List.head?_append_of_ne_nil cs hcs] at hc
    exact List.mem_of_mem_head? hc
  have last : (middle ++ after).reverse.dropWhile isBlank = middle.reverse := by
    rw [List.reverse_append, List.dropWhile_append_of_pos fun c hc =>
      hafter c (List.mem_reverse.1 hc)]
    have all := start middle.reverse [] (by simpa using hne) fun c hc =>
      hmiddle c (List.mem_reverse.1 hc)
    rwa [List.append_nil] at all
  rw [dropBlanks, dropBlankEnd, List.append_assoc, List.dropWhile_append_of_pos hbefore,
    start middle after hne hmiddle, last, List.reverse_reverse]

theorem exists_blanks_dropBlankEnd (cs : List Char) :
    ∃ blanks, cs = dropBlankEnd cs ++ blanks ∧ ∀ c ∈ blanks, isBlank c = true := by
  refine ⟨(cs.reverse.takeWhile isBlank).reverse, ?_, fun c hc => ?_⟩
  · rw [dropBlankEnd, ← List.reverse_append, List.takeWhile_append_dropWhile, List.reverse_reverse]
  · exact List.mem_takeWhile_imp (List.mem_reverse.1 hc)

/-- Where a text starts with no blank, only blanks at its end are dropped. -/
theorem exists_blanks_dropBlanks {cs : List Char} (start : ∀ c ∈ cs.head?, isBlank c = false) :
    ∃ blanks, cs = dropBlanks cs ++ blanks ∧ ∀ c ∈ blanks, isBlank c = true := by
  rw [dropBlanks, dropWhile_eq_self start]
  exact exists_blanks_dropBlankEnd cs

/-- A text without blanks at its ends starts with none. -/
theorem not_isBlank_of_mem_head?_dropBlanks {cs : List Char} {c : Char}
    (h : c ∈ (dropBlanks cs).head?) :
    isBlank c = false :=
  head?_dropWhile (head?_dropBlankEnd h)

theorem trim_ofList (cs : List Char) : trim (String.ofList cs) = String.ofList (dropBlanks cs) := by
  rw [trim, String.toList_ofList]

end Text

/-- What is named does not depend on blanks at the ends. -/
theorem PlatformName.canonical_trim (s : String) : canonical (Text.trim s) = canonical s := by
  apply PlatformName.ext
  simp only [canonical, canonicalText, Text.trim_trim]

namespace Version

/-- A single component is followed by a zero. -/
def padded : List UInt32 → List UInt32
  | [major] => [major, 0]
  | components => components

theorem ofComponents?_padded (components : List UInt32) :
    ofComponents? (padded components) = (ofComponents? components).map normalized := by
  match components with
  | [] => rfl
  | [_] => rfl
  | [_, _] => rfl
  | [_, _, _] => rfl
  | [_, _, _, _] => rfl
  | _ :: _ :: _ :: _ :: _ :: _ => rfl

/-- A version has the components it was made of, as written. -/
theorem components_of_ofComponents? {components : List UInt32} {version : Version}
    (h : ofComponents? components = some version) : version.components = components := by
  match components, h with
  | [], rfl => rfl
  | [_], rfl => rfl
  | [_, _], rfl => rfl
  | [_, _, _], rfl => rfl
  | [_, _, _, _], rfl => rfl

/-- Numerals of components, one for each. -/
def SpelledBy (components : List UInt32) (numerals : List (List Char)) : Prop :=
  List.Forall₂ (fun numeral component => Text.IsNumeral numeral component.toNat) numerals components

variable {components : List UInt32} {numerals : List (List Char)}

theorem SpelledBy.digits (h : SpelledBy components numerals) :
    ∀ numeral ∈ numerals, numeral ≠ [] ∧ ∀ c ∈ numeral, c.isDigit = true := by
  have both : List.Forall₂
    (fun numeral component => (numeral ≠ [] ∧ ∀ c ∈ numeral, c.isDigit = true) ∧
      Text.IsNumeral numeral component.toNat) numerals components :=
    h.imp fun _ _ is => ⟨⟨is.1, is.2.1⟩, is⟩
  exact ((List.forall₂_and_left numerals components).1 both).1

/-- Numerals with points between are digits and points. -/
theorem SpelledBy.mem_joinWith (h : SpelledBy components numerals) {c : Char}
    (hc : c ∈ Text.joinWith '.' numerals) :
    c = '.' ∨ c.isDigit = true :=
  (Text.mem_joinWith hc).imp_right fun ⟨numeral, hnumeral, hmem⟩ =>
  (h.digits numeral hnumeral).2 c hmem

theorem SpelledBy.isDigit_of_mem_head? (h : SpelledBy components numerals) {c : Char}
    (hc : c ∈ (Text.joinWith '.' numerals).head?) : c.isDigit = true := by
  obtain ⟨numeral, hnumeral, hmem⟩ :=
    Text.exists_of_mem_head?_joinWith (fun numeral hnumeral => (h.digits numeral hnumeral).1) hc
  exact (h.digits numeral hnumeral).2 c hmem

end Version

/-! ## The parts of a text -/

namespace Vocabulary

variable {v : Vocabulary} {n : PlatformName} {version : Version}

theorem parseComponent?_eq_some {part : List Char} {component : UInt32} :
    parseComponent? part = some component ↔ Text.IsNumeral part component.toNat := by
  rw [← Text.ofDigits?_eq_some]
  unfold parseComponent?
  cases Text.ofDigits? part with
  | none => simp
  | some m =>
    rw [Option.some.injEq]
    by_cases small : m < UInt32.size
    · have back : m.toUInt32 = component ↔ m = component.toNat := by
        rw [← UInt32.toNat_inj]
        show m % UInt32.size = component.toNat ↔ m = component.toNat
        rw [Nat.mod_eq_of_lt small]
      simp only [if_pos small, Option.some.injEq, back]
    · have fits : component.toNat < UInt32.size := component.toNat_lt_size
      simp only [if_neg small, reduceCtorEq, false_iff]
      omega

/-- What is between the points is read part by part. -/
theorem parseComponents?_eq_some {parts : List (List Char)} {components : List UInt32} :
    parseComponents? parts = some components ↔
      List.Forall₂ (fun part component => parseComponent? part = some component) parts components :=
  mapM_eq_some_iff

/-- Numerals have no points, so points between them are where a version part is cut. -/
theorem parseComponents?_splitOn {cs : List Char} {components : List UInt32} :
    parseComponents? (Text.splitOn '.' cs) = some components ↔
      ∃ numerals, numerals ≠ [] ∧ cs = Text.joinWith '.' numerals ∧
        Version.SpelledBy components numerals := by
  simp only [parseComponents?_eq_some, parseComponent?_eq_some]
  constructor
  · intro h
    exact ⟨Text.splitOn '.' cs, Text.splitOn_ne_nil '.' cs, (Text.joinWith_splitOn '.' cs).symm, h⟩
  · rintro ⟨numerals, hne, rfl, h⟩
    rw [Text.splitOn_joinWith hne]
    · exact h
    · intro numeral hnumeral hpoint
      exact absurd ((h.digits numeral hnumeral).2 '.' hpoint) (by decide)

/-- A version part is read iff it is empty, or its parts are the components of a version with no
more of them than the platform takes. -/
theorem parseVersion_eq_ok {raw : String} {version : Version} : v.parseVersion n raw = .ok version ↔
    raw = "" ∧ version = .zero ∨
    raw ≠ "" ∧ ∃ components, parseComponents? (Text.splitOn '.' raw.toList) = some components ∧
      components.length ≤ v.maxVersionParts n ∧
      (Version.ofComponents? components).map Version.normalized = some version := by
  unfold parseVersion
  by_cases hraw : raw = ""
  · simp [hraw, eq_comm]
  · simp only [hraw, if_false, false_and, false_or, ne_eq, not_false_eq_true, true_and]
    cases hparts : parseComponents? (Text.splitOn '.' raw.toList) with
    | none => simp
    | some components =>
      have some_component : 0 < components.length := by
        rw [← (parseComponents?_eq_some.1 hparts).length_eq]
        exact List.length_pos_iff.2 (Text.splitOn_ne_nil '.' raw.toList)
      simp only [Option.some.injEq, exists_eq_left']
      by_cases most : components.length ≤ v.maxVersionParts n
      · rw [if_neg (by omega), if_neg (Nat.not_lt.2 most)]
        cases Version.ofComponents? components <;> simp [most]
      · rw [if_pos (Nat.not_le.1 most)]
        split_ifs <;> simp [most]

/-- A version part is read iff it is the numerals of no more components than the platform
takes, with points between. -/
theorem parseVersion_ofList_eq_ok {cs : List Char} :
    v.parseVersion n (String.ofList cs) = .ok version ↔
      ∃ numerals components,
        cs = Text.joinWith '.' numerals ∧ Version.SpelledBy components numerals ∧
        components.length ≤ v.maxVersionParts n ∧
        Version.ofComponents? (Version.padded components) = some version := by
  rw [parseVersion_eq_ok, String.toList_ofList]
  simp only [parseComponents?_splitOn, Version.ofComponents?_padded, ne_eq,
    String.ofList_eq_empty_iff]
  constructor
  · rintro (⟨rfl, rfl⟩ | ⟨-, components, ⟨numerals, -, rfl, spelled⟩, most, hversion⟩)
    · exact ⟨[], [], rfl, .nil, Nat.zero_le _, rfl⟩
    · exact ⟨numerals, components, rfl, spelled, most, hversion⟩
  · rintro ⟨numerals, components, rfl, spelled, most, hversion⟩
    cases numerals with
    | nil =>
      obtain rfl := List.forall₂_nil_left_iff.1 spelled
      exact .inl ⟨rfl, (Option.some.inj hversion).symm⟩
    | cons numeral rest =>
      have filled : Text.joinWith '.' (numeral :: rest) ≠ [] :=
        Text.joinWith_ne_nil (spelled.digits numeral List.mem_cons_self).1
      exact .inr ⟨filled, components, ⟨_, List.cons_ne_nil numeral rest, rfl, spelled⟩,
        most, hversion⟩

theorem isLetters_iff {s : String} : isLetters s = true ↔ s ≠ "" ∧ ∀ c ∈ s.toList,
    c.isAlpha = true := by
  simp [isLetters]

theorem parseName_eq_ok {raw : String} : v.parseName raw = .ok n ↔
    isLetters (Text.trim raw) = true ∧ v.isKnown (.canonical raw) = true ∧ n = .canonical raw := by
  unfold parseName
  cases isLetters (Text.trim raw) <;> cases v.isKnown (.canonical raw) <;> simp [eq_comm]

/-- A text is read without errors iff its name and its version are. -/
theorem parseAttribute_eq_iff {raw : String} : v.parseAttribute raw = ⟨n, version, []⟩ ↔
    v.parseName (String.ofList (splitAttribute (Text.dropBlanks raw.toList)).1) = .ok n ∧
    v.parseVersion n (String.ofList (splitAttribute (Text.dropBlanks raw.toList)).2) =
      .ok version := by
  unfold parseAttribute
  dsimp only
  cases v.parseName (String.ofList (splitAttribute (Text.dropBlanks raw.toList)).1) with
  | error e => simp
  | ok name =>
    cases hversion : v.parseVersion name
      (String.ofList (splitAttribute (Text.dropBlanks raw.toList)).2) with
    | error e =>
      simp only [Except.ok.injEq, ParsedPlatform.mk.injEq, List.nil_append, reduceCtorEq, and_false,
        false_iff, not_and]
      rintro rfl
      rw [hversion]
      simp
    | ok read =>
      simp only [Except.ok.injEq, ParsedPlatform.mk.injEq, List.nil_append, and_true]
      constructor
      · rintro ⟨rfl, rfl⟩
        exact ⟨rfl, hversion⟩
      · rintro ⟨rfl, h⟩
        exact ⟨rfl, Except.ok.inj (hversion.symm.trans h)⟩

/-- A text is cut where its first digit stands, if no line ends after it. -/
theorem splitAttribute_append {name version : List Char} (noDigit : ∀ c ∈ name, c.isDigit = false)
    (start : ∀ c ∈ version.head?, c.isDigit = true) (oneLine : '\n' ∉ version) :
    splitAttribute (name ++ version) = (name, version) := by
  have before : ∀ c ∈ name, (!c.isDigit) = true := fun c hc => by rw [noDigit c hc]; rfl
  have cut : version.dropWhile (fun c => !c.isDigit) = version :=
    Text.dropWhile_eq_self fun c hc => by rw [start c hc]; rfl
  have kept : version.takeWhile (fun c => !c.isDigit) = [] := by
    have whole := List.takeWhile_append_dropWhile (p := fun c => !c.isDigit) (l := version)
    rw [cut] at whole
    exact List.append_left_eq_self.1 whole
  have unbroken : version.contains '\n' = false := by
    rwa [Bool.eq_false_iff, ne_eq, List.contains_iff_mem]
  rw [splitAttribute, List.takeWhile_append_of_pos before,
    List.dropWhile_append_of_pos before, cut, kept, List.append_nil]
  simp only [unbroken, Bool.false_eq_true, if_false]

/-- Cutting a text loses nothing. -/
theorem splitAttribute_append_eq (cs : List Char) :
    (splitAttribute cs).1 ++ (splitAttribute cs).2 = cs := by
  unfold splitAttribute
  dsimp only
  split
  · exact List.append_nil cs
  · exact List.takeWhile_append_dropWhile

/-! ## The format -/

/-- A text is a known name of letters, then `gap`, then the numerals of no more components than the
platform takes, with points between. The format has nothing as the gap. -/
structure HasFormat (v : Vocabulary) (text name gap : List Char) (numerals : List (List Char))
    (components : List UInt32) : Prop where
  text_eq : text = name ++ gap ++ Text.joinWith '.' numerals
  letters : isLetters (String.ofList name) = true
  known : v.isKnown (.canonical (String.ofList name)) = true
  spelled : Version.SpelledBy components numerals
  most : components.length ≤ v.maxVersionParts (.canonical (String.ofList name))

variable {text name gap : List Char} {numerals : List (List Char)} {components : List UInt32}

theorem isAlpha_of_isLetters (letters : isLetters (String.ofList name) = true) :
    ∀ c ∈ name, c.isAlpha = true := by
  have all := (isLetters_iff.1 letters).2
  rwa [String.toList_ofList] at all

theorem trim_append_blanks (letters : isLetters (String.ofList name) = true)
    (blanks : ∀ c ∈ gap, Text.isBlank c = true) :
    Text.trim (String.ofList (name ++ gap)) = String.ofList name := by
  have filled : name ≠ [] := by
    rintro rfl
    exact absurd rfl (isLetters_iff.1 letters).1
  have kept : Text.dropBlanks ([] ++ name ++ gap) = name :=
    Text.dropBlanks_surround filled
      (fun c hc => Text.not_isBlank_of_isAlpha (isAlpha_of_isLetters letters c hc))
      (fun c hc => absurd hc List.not_mem_nil) blanks
  rw [List.nil_append] at kept
  rw [Text.trim_ofList, kept]

/-- A text of the format is read, and so is one with blanks as its gap. -/
theorem HasFormat.parseAttribute {raw : String}
    (h : v.HasFormat (Text.dropBlanks raw.toList) name gap numerals components)
    (blanks : ∀ c ∈ gap, Text.isBlank c = true)
    (hversion : Version.ofComponents? (Version.padded components) = some version) :
    v.parseAttribute raw = ⟨.canonical (String.ofList name), version, []⟩ := by
  have trimmed := trim_append_blanks h.letters blanks
  have same : PlatformName.canonical (String.ofList (name ++ gap)) =
      .canonical (String.ofList name) := by
    rw [← PlatformName.canonical_trim, trimmed]
  have noDigit : ∀ c ∈ name ++ gap, c.isDigit = false := by
    intro c hc
    rcases List.mem_append.1 hc with hname | hgap
    · exact Text.not_isDigit_of_isAlpha (isAlpha_of_isLetters h.letters c hname)
    · exact Bool.eq_false_iff.2 fun digit =>
        absurd (blanks c hgap) (by rw [Text.not_isBlank_of_isDigit digit]; decide)
  have oneLine : '\n' ∉ Text.joinWith '.' numerals := fun hbreak => by
    rcases h.spelled.mem_joinWith hbreak with h | h <;> exact absurd h (by decide)
  rw [parseAttribute_eq_iff, h.text_eq,
    splitAttribute_append noDigit (fun c => h.spelled.isDigit_of_mem_head?) oneLine,
    parseName_eq_ok, parseVersion_ofList_eq_ok, trimmed, same]
  exact ⟨⟨h.letters, h.known, rfl⟩, numerals, components, rfl, h.spelled, h.most, hversion⟩

theorem HasFormat.not_isBlank (h : v.HasFormat text name [] numerals components) :
    ∀ c ∈ text, Text.isBlank c = false := by
  intro c hc
  rw [h.text_eq, List.append_nil] at hc
  rcases List.mem_append.1 hc with hname | hversion
  · exact Text.not_isBlank_of_isAlpha (isAlpha_of_isLetters h.letters c hname)
  · rcases h.spelled.mem_joinWith hversion with rfl | digit
    · decide
    · exact Text.not_isBlank_of_isDigit digit

/-- A text that is read has the format, but for blanks as its gap. Without a
version there is no gap. -/
theorem exists_hasFormat {raw : String} (h : v.parseAttribute raw = ⟨n, version, []⟩) :
    ∃ name gap numerals components,
    v.HasFormat (Text.dropBlanks raw.toList) name gap numerals components ∧
      (∀ c ∈ gap, Text.isBlank c = true) ∧ (numerals = [] → gap = []) ∧
      n = .canonical (String.ofList name) ∧
      Version.ofComponents? (Version.padded components) = some version := by
  obtain ⟨hname, hversion⟩ := parseAttribute_eq_iff.1 h
  obtain ⟨letters, known, rfl⟩ := parseName_eq_ok.1 hname
  obtain ⟨numerals, components, hcut, spelled, most, hcomponents⟩ :=
    parseVersion_ofList_eq_ok.1 hversion
  have whole := splitAttribute_append_eq (Text.dropBlanks raw.toList)
  generalize (splitAttribute (Text.dropBlanks raw.toList)).1 = front at letters known most whole
  rw [hcut] at whole
  rw [Text.trim_ofList] at letters
  -- the text has no blanks at its ends, so what is trimmed off the name stood before the version
  have start : ∀ c ∈ front.head?, Text.isBlank c = false := by
    intro c hc
    have first : c ∈ (Text.dropBlanks raw.toList).head? :=
      whole ▸ List.mem_head?_append_of_mem_head? hc
    exact Text.not_isBlank_of_mem_head?_dropBlanks first
  obtain ⟨gap, hfront, blanks⟩ := Text.exists_blanks_dropBlanks start
  have same : PlatformName.canonical (String.ofList front) =
      .canonical (String.ofList (Text.dropBlanks front)) := by
    rw [← PlatformName.canonical_trim, Text.trim_ofList]
  rw [same] at known most
  refine ⟨Text.dropBlanks front, gap, numerals, components, ⟨?_, letters, known, spelled, most⟩,
    blanks, ?_, same,
    hcomponents⟩
  · rw [← hfront, whole]
  · rintro rfl
    rw [Text.joinWith, List.append_nil] at whole
    rw [whole, Text.dropBlanks_idem] at hfront
    exact List.append_right_eq_self.1 hfront.symm

end Vocabulary

/-- What is read without errors, and as what. Without the blanks at its ends, the text is a known
name of letters and the numerals of a version, with nothing between them or with blanks between
them; the version has the components of the text, a single one followed by a zero. So the texts of
the format, which has nothing there, are those that are read and have no blank inside. -/
theorem attribute_read_iff (v : Vocabulary) (raw : String) (n : PlatformName) (version : Version) :
    (v.parseAttribute raw = ⟨n, version, []⟩ ↔
      ∃ name gap numerals components,
        v.HasFormat (Text.dropBlanks raw.toList) name gap numerals components ∧
        (∀ c ∈ gap, Text.isBlank c = true) ∧ (numerals = [] → gap = []) ∧
        n = .canonical (String.ofList name) ∧ version.components = Version.padded components ∧
        Version.ofComponents? (Version.padded components) = some version) ∧
    ((∃ name numerals components,
        v.HasFormat (Text.dropBlanks raw.toList) name [] numerals components ∧
        n = .canonical (String.ofList name) ∧ version.components = Version.padded components ∧
        Version.ofComponents? (Version.padded components) = some version) ↔
      v.parseAttribute raw = ⟨n, version, []⟩ ∧
        ∀ c ∈ Text.dropBlanks raw.toList, Text.isBlank c = false) := by
  refine ⟨⟨fun h => ?_, ?_⟩, ?_, ?_⟩
  · obtain ⟨name, gap, numerals, components, format, blanks, joined, hname, hversion⟩ :=
      Vocabulary.exists_hasFormat h
    exact ⟨name, gap, numerals, components, format, blanks, joined, hname,
      Version.components_of_ofComponents? hversion, hversion⟩
  · rintro ⟨name, gap, numerals, components, format, blanks, -, rfl, -, hversion⟩
    exact format.parseAttribute blanks hversion
  · rintro ⟨name, numerals, components, format, rfl, -, hversion⟩
    exact ⟨format.parseAttribute (fun c hc => absurd hc List.not_mem_nil) hversion,
      format.not_isBlank⟩
  · rintro ⟨hread, unbroken⟩
    obtain ⟨name, gap, numerals, components, format, blanks, -, hname, hversion⟩ :=
      Vocabulary.exists_hasFormat hread
    have none : gap = [] := by
      refine List.eq_nil_iff_forall_not_mem.2 fun c hc => ?_
      have inside : c ∈ Text.dropBlanks raw.toList := by
        rw [format.text_eq]
        exact List.mem_append_left _ (List.mem_append_right name hc)
      exact absurd (blanks c hc) (by rw [unbroken c inside]; decide)
    subst none
    exact ⟨name, numerals, components, format, hname, Version.components_of_ofComponents? hversion,
      hversion⟩

/-- A blank before the version is read over: the text is not of the format. -/
theorem attribute_read_iff_spaced :
    Vocabulary.builtin.parseAttribute "Windows 10.0" =
      ⟨.canonical "windows", .ofMajorMinor 10 0, []⟩ ∧
    ¬ ∃ name numerals components,
      Vocabulary.builtin.HasFormat (Text.dropBlanks "Windows 10.0".toList) name [] numerals
          components ∧
        PlatformName.canonical "windows" = .canonical (String.ofList name) ∧
        [10, 0] = Version.padded components ∧
        Version.ofComponents? (Version.padded components) = some (.ofMajorMinor 10 0) := by
  obtain ⟨reads, documented⟩ :=
    attribute_read_iff .builtin "Windows 10.0" (.canonical "windows") (.ofMajorMinor 10 0)
  refine ⟨reads.2 ?_, fun h => ?_⟩
  · refine ⟨"Windows".toList, " ".toList, ["10".toList, "0".toList], [10, 0], ?_,
      List.all_eq_true.1 (by decide), by decide, by decide +kernel, rfl, rfl⟩
    refine ⟨by decide, by decide, by decide, ?_, by decide⟩
    exact .cons ⟨by decide, List.all_eq_true.1 (by decide), by decide⟩
      (.cons ⟨by decide, List.all_eq_true.1 (by decide), by decide⟩ .nil)
  · exact absurd ((documented.1 h).2 ' ' (by decide)) (by decide)

end PlatformGuard
