/-!
# Decimal numerals and separated parts

* `ofDigits?_decimal`: the numeral of a number reads back as that number.
* `joinWith_splitOn`: the parts of a text joined by the separator are the text.
* `splitOn_joinWith`: parts without the separator are the parts of the text they are joined to.
-/

namespace PlatformGuard.Text

/-- The decimal numeral of a number, without leading zeros. -/
def decimal (n : Nat) : List Char :=
  Nat.toDigits 10 n

def number (n : Nat) : String :=
  String.ofList (decimal n)

/-- The decimal numeral of an integer; a minus sign stands before the numeral of a negative one. -/
def integer : Int → String
  | .ofNat n => number n
  | .negSucc n => "-" ++ number (n + 1)

/-- Reads one or more decimal digits. Leading zeros are accepted; signs and separators are not. -/
def ofDigits? (cs : List Char) : Option Nat :=
  if cs.isEmpty || !cs.all Char.isDigit then none else some (Nat.ofDigitChars 10 cs 0)

/-- The parts of a text between the occurrences of a separator. There is always at least one
part. -/
def splitOn (sep : Char) : List Char → List (List Char)
  | [] => [[]]
  | c :: rest =>
    if c = sep then [] :: splitOn sep rest
    else
      match splitOn sep rest with
      | [] => [[c]]
      | part :: parts => (c :: part) :: parts

def joinWith (sep : Char) : List (List Char) → List Char
  | [] => []
  | [part] => part
  | part :: next :: parts => part ++ sep :: joinWith sep (next :: parts)

/-- A text that does not start with `lead` is refused; otherwise the rest after it. -/
def after? (lead : List Char) (cs : List Char) : Option (List Char) :=
  match lead, cs with
  | [], rest => some rest
  | _ :: _, [] => none
  | a :: lead, c :: rest => if a = c then after? lead rest else none

/-- A text that does not end with `tail` is refused; otherwise what stands before it. -/
def before? (tail : List Char) (cs : List Char) : Option (List Char) :=
  (after? tail.reverse cs.reverse).map List.reverse

theorem ofDigits?_decimal (n : Nat) : ofDigits? (decimal n) = some n := by
  have filled : (decimal n).isEmpty = false := by simp [decimal]
  have digits : (decimal n).all Char.isDigit = true := by
    simp only [List.all_eq_true, decimal]
    intro c hc
    exact Nat.isDigit_of_mem_toDigits (by decide) (by decide) hc
  rw [ofDigits?, filled, digits]
  simp [decimal, Nat.ofDigitChars_ten_toDigits]

theorem splitOn_ne_nil (sep : Char) (cs : List Char) : splitOn sep cs ≠ [] := by
  cases cs with
  | nil => simp [splitOn]
  | cons c rest =>
    by_cases h : c = sep
    · simp [splitOn, h]
    · simp only [splitOn, h, if_false]
      split <;> simp

theorem joinWith_splitOn (sep : Char) (cs : List Char) : joinWith sep (splitOn sep cs) = cs := by
  induction cs with
  | nil => rfl
  | cons c rest ih =>
    cases hs : splitOn sep rest with
    | nil => exact absurd hs (splitOn_ne_nil sep rest)
    | cons part parts =>
      rw [hs] at ih
      by_cases h : c = sep
      · simp [splitOn, h, hs, joinWith, ih]
      · cases parts with
        | nil => simpa [splitOn, h, hs, joinWith] using ih
        | cons next parts => simpa [splitOn, h, hs, joinWith] using ih

theorem splitOn_eq_singleton {sep : Char} {part : List Char} (h : sep ∉ part) :
    splitOn sep part = [part] := by
  induction part with
  | nil => rfl
  | cons c rest ih =>
    have hc : c ≠ sep := fun hc => h (by simp [hc])
    have hrest : sep ∉ rest := fun hrest => h (List.mem_cons_of_mem c hrest)
    simp [splitOn, hc, ih hrest]

theorem splitOn_append {sep : Char} {part : List Char} (h : sep ∉ part) (rest : List Char) :
    splitOn sep (part ++ sep :: rest) = part :: splitOn sep rest := by
  induction part with
  | nil => simp [splitOn]
  | cons c more ih =>
    have hc : c ≠ sep := fun hc => h (by simp [hc])
    have hmore : sep ∉ more := fun hmore => h (List.mem_cons_of_mem c hmore)
    simp [splitOn, hc, ih hmore]

theorem splitOn_joinWith {sep : Char} {parts : List (List Char)} (hne : parts ≠ [])
    (h : ∀ part ∈ parts, sep ∉ part) :
    splitOn sep (joinWith sep parts) = parts := by
  induction parts with
  | nil => exact absurd rfl hne
  | cons part rest ih =>
    have hpart : sep ∉ part := h part List.mem_cons_self
    cases rest with
    | nil => exact splitOn_eq_singleton hpart
    | cons next more =>
      rw [joinWith, splitOn_append hpart, ih (List.cons_ne_nil next more) fun p hp =>
        h p (List.mem_cons_of_mem part hp)]

theorem mem_joinWith {sep c : Char} {parts : List (List Char)} (h : c ∈ joinWith sep parts) :
    c = sep ∨ ∃ part ∈ parts, c ∈ part := by
  induction parts with
  | nil => exact absurd h List.not_mem_nil
  | cons part rest ih =>
    cases rest with
    | nil => exact .inr ⟨part, List.mem_cons_self, h⟩
    | cons next more =>
      rcases List.mem_append.1 h with hpart | hrest
      · exact .inr ⟨part, List.mem_cons_self, hpart⟩
      · rcases List.mem_cons.1 hrest with hsep | hrest
        · exact .inl hsep
        · rcases ih hrest with hsep | ⟨p, hp, hc⟩
          · exact .inl hsep
          · exact .inr ⟨p, List.mem_cons_of_mem part hp, hc⟩

end PlatformGuard.Text
