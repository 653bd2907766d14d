/-!
# Blanks and letter case

The characters that count as blank at the ends of a text are those with the `White_Space` property.
Letter case is folded for the ASCII letters only, so a name in another alphabet keeps its spelling.

* `trim_trim`: trimming twice is trimming once.
* `lower_lower`: folding twice is folding once.
-/

namespace PlatformGuard.Text

/-- Characters with the `White_Space` property. -/
def isBlank (c : Char) : Bool :=
  let n := c.toNat
  (9 ≤ n && n ≤ 13) || n == 0x20 || n == 0x85 || n == 0xA0 || n == 0x1680 ||
    (0x2000 ≤ n && n ≤ 0x200A) || n == 0x2028 || n == 0x2029 || n == 0x202F || n ==
      0x205F || n == 0x3000

def dropBlankEnd (cs : List Char) : List Char :=
  (cs.reverse.dropWhile isBlank).reverse

def dropBlanks (cs : List Char) : List Char :=
  dropBlankEnd (cs.dropWhile isBlank)

def trim (s : String) : String :=
  String.ofList (dropBlanks s.toList)

def trimEnd (s : String) : String :=
  String.ofList (dropBlankEnd s.toList)

/-- A text with its ASCII capitals folded to small letters. -/
def lower (s : String) : String :=
  String.ofList (s.toList.map Char.toLower)

/-! ## Blanks -/

theorem dropWhile_idem {α : Type} (p : α → Bool) (l : List α) :
    (l.dropWhile p).dropWhile p = l.dropWhile p := by
  induction l with
  | nil => rfl
  | cons a t ih =>
    by_cases h : p a = true
    · simp [h, ih]
    · simp [h]

theorem dropWhile_eq_self {α : Type} {p : α → Bool} {l : List α} (h : ∀ a ∈ l.head?, p a = false) :
    l.dropWhile p = l := by
  cases l with
  | nil => rfl
  | cons a t => simp [h a (by simp)]

theorem head?_dropWhile {α : Type} {p : α → Bool} {l : List α} {a : α}
    (h : a ∈ (l.dropWhile p).head?) : p a = false := by
  induction l with
  | nil => simp at h
  | cons b t ih =>
    by_cases hb : p b = true
    · exact ih (by simpa [hb] using h)
    · have : b = a := by simpa [hb] using h
      simpa [this] using hb

/-- What remains after dropping blanks at the end is a leading part of the text. -/
theorem dropBlankEnd_isPrefix (cs : List Char) : ∃ t, cs = dropBlankEnd cs ++ t := by
  refine ⟨(cs.reverse.takeWhile isBlank).reverse, ?_⟩
  rw [dropBlankEnd, ← List.reverse_append, List.takeWhile_append_dropWhile, List.reverse_reverse]

theorem dropBlankEnd_idem (cs : List Char) : dropBlankEnd (dropBlankEnd cs) = dropBlankEnd cs := by
  simp [dropBlankEnd, dropWhile_idem]

/-- Dropping blanks at the end leaves a text that does not start with a blank as it starts. -/
theorem head?_dropBlankEnd {cs : List Char} {a : Char} (h : a ∈ (dropBlankEnd cs).head?) :
    a ∈ cs.head? := by
  obtain ⟨t, ht⟩ := dropBlankEnd_isPrefix cs
  rw [ht]
  cases hd : dropBlankEnd cs with
  | nil => simp [hd] at h
  | cons b r => simpa [hd] using h

theorem dropBlanks_idem (cs : List Char) : dropBlanks (dropBlanks cs) = dropBlanks cs := by
  have start : (dropBlanks cs).dropWhile isBlank = dropBlanks cs := by
    refine dropWhile_eq_self fun a ha => ?_
    exact head?_dropWhile (head?_dropBlankEnd ha)
  rw [dropBlanks, start]
  exact dropBlankEnd_idem _

theorem trim_trim (s : String) : trim (trim s) = trim s := by
  simp [trim, dropBlanks_idem]

/-! ## Letter case -/

/-- A capital is 32 before its small letter. -/
theorem toNat_toLower (c : Char) :
    c.toLower.toNat = if 65 ≤ c.toNat ∧ c.toNat ≤ 90 then c.toNat + 32 else c.toNat := by
  delta Char.toLower
  split
  case isTrue h =>
    have capital : 65 ≤ c.toNat ∧ c.toNat ≤ 90 := h
    rw [if_pos capital]
    show (c.val + ('a'.val - 'A'.val)).toNat = c.toNat + 32
    rw [UInt32.toNat_add]
    show (c.toNat + 32) % 2 ^ 32 = c.toNat + 32
    omega
  case isFalse h =>
    have other : ¬ (65 ≤ c.toNat ∧ c.toNat ≤ 90) := h
    rw [if_neg other]

theorem lower_lower (s : String) : lower (lower s) = lower s := by
  have once : Char.toLower ∘ Char.toLower = Char.toLower := by
    funext c
    show c.toLower.toLower = c.toLower
    delta Char.toLower
    grind
  rw [lower, lower, String.toList_ofList, List.map_map, once]

end PlatformGuard.Text
