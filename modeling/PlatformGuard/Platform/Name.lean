import PlatformGuard.Text.Blank
import PlatformGuard.Text.Decimal

/-!
# Platform names

A platform name is a text in canonical form: no blanks at its ends, small letters, and no
alias. Any text has a canonical form (`PlatformName.canonical`), whether or not a platform
of that name is known.

* `canonicalText_canonicalText`: a canonical text is its own canonical form.
-/

namespace PlatformGuard

def platformAliases : List (String × String) :=
  [("osx", "macos")]

/-- A name without blanks at its ends, in small letters, with an alias replaced by what it stands
for. -/
def canonicalText (s : String) : String :=
  let folded := Text.lower (Text.trim s)
  (platformAliases.lookup folded).getD folded

/-! ## Canonical texts -/

theorem isBlank_toLower (c : Char) : Text.isBlank c.toLower = Text.isBlank c := by
  simp only [Text.isBlank, Text.toNat_toLower]
  grind

theorem dropWhile_isBlank_map_toLower (cs : List Char) :
    (cs.map Char.toLower).dropWhile Text.isBlank =
      (cs.dropWhile Text.isBlank).map Char.toLower := by
  induction cs with
  | nil => rfl
  | cons c rest ih => by_cases h : Text.isBlank c = true <;> simp [isBlank_toLower, h, ih]

theorem dropBlanks_map_toLower (cs : List Char) :
    Text.dropBlanks (cs.map Char.toLower) = (Text.dropBlanks cs).map Char.toLower := by
  simp [Text.dropBlanks, Text.dropBlankEnd, dropWhile_isBlank_map_toLower, ← List.map_reverse]

theorem trim_lower (s : String) : Text.trim (Text.lower s) = Text.lower (Text.trim s) := by
  simp [Text.trim, Text.lower, dropBlanks_map_toLower]

theorem canonicalText_canonicalText (s : String) :
    canonicalText (canonicalText s) = canonicalText s := by
  have folds : Text.lower (Text.trim (Text.lower (Text.trim s))) = Text.lower (Text.trim s) := by
    rw [trim_lower, Text.lower_lower, Text.trim_trim]
  by_cases h : Text.lower (Text.trim s) = "osx"
  · have known : canonicalText s = "macos" := by simp [canonicalText, platformAliases, h]
    rw [known]
    decide
  · have plain : canonicalText s = Text.lower (Text.trim s) := by
      simp [canonicalText, platformAliases, h]
    rw [plain]
    simp [canonicalText, platformAliases, folds, h]

/-- A platform name in canonical form. -/
structure PlatformName where
  text : String
  canonical_text : canonicalText text = text

namespace PlatformName

/-- The platform a text names. -/
def canonical (s : String) : PlatformName :=
  ⟨canonicalText s, canonicalText_canonicalText s⟩

@[ext] theorem ext {a b : PlatformName} (h : a.text = b.text) : a = b := by
  cases a
  cases b
  simpa using h

instance : DecidableEq PlatformName := fun a b =>
  if h : a.text = b.text then isTrue (ext h) else isFalse fun e => h (e ▸ rfl)

instance : Inhabited PlatformName := ⟨canonical ""⟩

instance : LT PlatformName := ⟨fun a b => a.text < b.text⟩

instance : LE PlatformName := ⟨fun a b => a.text ≤ b.text⟩

instance : DecidableLT PlatformName := fun a b => inferInstanceAs (Decidable (a.text < b.text))

instance : Std.IsLinearOrder PlatformName where
  le_refl a := Std.le_refl (a := a.text)
  le_trans a b c := Std.le_trans (a := a.text) (b := b.text) (c := c.text)
  le_antisymm a b h h' := ext (Std.le_antisymm (a := a.text) (b := b.text) h h')
  le_total a b := Std.le_total (a := a.text) (b := b.text)

instance : Std.LawfulOrderLT PlatformName where
  lt_iff a b := Std.LawfulOrderLT.lt_iff a.text b.text

def cmp (a b : PlatformName) : Ordering :=
  if a < b then .lt else if a = b then .eq else .gt

@[simp] theorem canonical_text_self (n : PlatformName) : canonical n.text = n := by
  cases n with
  | mk text h => simp only [canonical, h]

def ios : PlatformName := canonical "ios"

/-- Mac Catalyst, which runs iOS code. -/
def macCatalyst : PlatformName := canonical "maccatalyst"

/-- The platform that facts about this one describe too: what is said of iOS is
also said of Mac Catalyst. -/
def implied? (n : PlatformName) : Option PlatformName :=
  if n = ios then some macCatalyst else none

end PlatformName

/-! ## Built-in platforms -/

/-- A platform every vocabulary has. -/
structure BuiltinPlatform where
  name : String
  /-- The name as it stands in the check methods `Is…` and `Is…VersionAtLeast`. -/
  guardName : String
  /-- The most version components; with none the platform takes no version. -/
  maxVersionParts : Nat
deriving Repr, DecidableEq

/-- The platforms every vocabulary has, in the order in which they are listed. -/
def builtinPlatforms : List BuiltinPlatform :=
  [⟨"windows", "Windows", 4⟩, ⟨"linux", "Linux", 0⟩, ⟨"macos", "MacOS", 3⟩, ⟨"ios", "IOS", 3⟩,
    ⟨"maccatalyst", "MacCatalyst", 3⟩, ⟨"tvos", "TvOS", 3⟩, ⟨"watchos", "WatchOS", 3⟩,
    ⟨"android", "Android", 4⟩, ⟨"browser", "Browser", 0⟩, ⟨"freebsd", "FreeBSD", 0⟩]

def PlatformName.builtin? (n : PlatformName) : Option BuiltinPlatform :=
  builtinPlatforms.find? fun p => p.name == n.text

end PlatformGuard
