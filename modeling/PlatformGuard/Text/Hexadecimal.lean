/-!
# Digits of other bases

Hexadecimal digits, and numerals in bases up to sixteen.
-/

namespace PlatformGuard.Text

def hexDigit? (c : Char) : Option Nat :=
  if c.isDigit then some (c.toNat - 48)
  else if 'a' ≤ c ∧ c ≤ 'f' then some (c.toNat - 87)
  else if 'A' ≤ c ∧ c ≤ 'F' then some (c.toNat - 55)
  else none

def lowerHexDigit (n : Nat) : Char :=
  if n < 10 then Char.ofNat (n + 48) else Char.ofNat (n + 87)

def upperHexDigit (n : Nat) : Char :=
  if n < 10 then Char.ofNat (n + 48) else Char.ofNat (n + 55)

/-- The value of one or more digits in a base up to sixteen. -/
def inBase? (base : Nat) (cs : List Char) : Option Nat :=
  if cs.isEmpty then none
  else
    (cs.mapM hexDigit?).bind fun ds =>
      if ds.all (· < base) then some (ds.foldl (fun n d => n * base + d) 0) else none

end PlatformGuard.Text
