import PlatformGuard.Text.Decimal

/-!
# The range of floating point numbers

Which decimal numbers are beyond the range of binary floating point numbers of double width, which
have 53 binary digits and stay below two to the power 1024.
-/

namespace PlatformGuard.Text

/-- The least number that is rounded beyond the range: halfway between the greatest number in range
and the power of two after it. -/
def doubleLimit : Nat :=
  Nat.pow 2 1024 - Nat.pow 2 970

/-- Whether a natural number times a power of ten is rounded beyond the range. -/
def exceedsDouble (mantissa : Nat) (exponent : Int) : Bool :=
  let digits := (decimal mantissa).length
  if mantissa = 0 ∨ digits + exponent < 300 then false
  else if digits + exponent > 400 then true
  else if 0 ≤ exponent then decide (doubleLimit ≤ mantissa * Nat.pow 10 exponent.toNat)
  else decide (doubleLimit * Nat.pow 10 exponent.natAbs ≤ mantissa)

/-- The nearest number of 53 binary digits; the even one of two that are as near. -/
def nearestDouble (n : Nat) : Nat :=
  if n < Nat.pow 2 53 then n
  else
    let unit := Nat.pow 2 (Nat.log2 n - 52)
    let whole := n / unit
    let rest := n % unit
    if unit < 2 * rest ∨ unit = 2 * rest ∧ whole % 2 = 1 then (whole + 1) * unit else whole * unit

end PlatformGuard.Text
