import PlatformGuard.Json.Basic
import PlatformGuard.Text.Double

/-!
# JSON numbers as they are written

A number is taken in one character at a time. It ends before the first character
that cannot be part of it.

A number that is read has to be within the range of floating point numbers, even where it is not
wanted as one. Its size is judged by as many of its digits as fit 64 bits, times a power of ten,
both rounded before they are multiplied; so whether a number at the very edge is in range
depends on how it is written.
-/

namespace PlatformGuard.Json

/-- Where in a number one is. -/
inductive NumberPart where
  | sign
  /-- After a leading zero. -/
  | zero
  | whole
  | point
  | fraction
  | exponentMark
  | exponentSign
  | exponent
deriving Repr, DecidableEq

/-- A number, or the start of one. The digits of each part are kept, the latest first. -/
structure Numeral where
  negative : Bool := false
  whole : List Char := []
  fraction : List Char := []
  exponentNegative : Bool := false
  exponent : List Char := []
  part : NumberPart := .sign
deriving Repr, DecidableEq

namespace Numeral

def start? (c : Char) : Option Numeral :=
  if c = '-' then some { negative := true }
  else if c = '0' then some { whole := [c], part := .zero }
  else if c.isDigit then some { whole := [c], part := .whole }
  else none

/-- After a digit, unless there is no place for one. -/
def digit? (n : Numeral) (c : Char) : Option Numeral :=
  match n.part with
  | .sign => some { n with whole := [c], part := if c = '0' then .zero else .whole }
  | .zero => none
  | .whole => some { n with whole := c :: n.whole }
  | .point | .fraction => some { n with fraction := c :: n.fraction, part := .fraction }
  | .exponentMark | .exponentSign | .exponent =>
    some { n with exponent := c :: n.exponent, part := .exponent }

/-- After one more character, if it is part of the number. -/
def push? (n : Numeral) (c : Char) : Option Numeral :=
  if c.isDigit then n.digit? c
  else
    match n.part with
    | .zero | .whole =>
      if c = '.' then some { n with part := .point }
      else if c = 'e' ∨ c = 'E' then some { n with part := .exponentMark }
      else none
    | .fraction => if c = 'e' ∨ c = 'E' then some { n with part := .exponentMark } else none
    | .exponentMark =>
      if c = '+' ∨ c = '-' then
        some { n with exponentNegative := c == '-', part := .exponentSign }
      else none
    | .sign | .point | .exponentSign | .exponent => none

/-- Whether the number can end here. -/
def isComplete (n : Numeral) : Bool :=
  match n.part with
  | .zero | .whole | .fraction | .exponent => true
  | .sign | .point | .exponentMark | .exponentSign => false

def isWhole (n : Numeral) : Bool :=
  n.fraction.isEmpty && n.exponent.isEmpty

/-- The value of digits, the last digit first. -/
def digitsValue (ds : List Char) : Nat :=
  Nat.ofDigitChars 10 ds.reverse 0

def writtenExponent (n : Numeral) : Int :=
  if n.exponentNegative then -(digitsValue n.exponent : Int) else digitsValue n.exponent

def value (n : Numeral) : Json :=
  let mantissa : Int := digitsValue (n.fraction ++ n.whole)
  let signed := if n.negative then -mantissa else mantissa
  if n.isWhole && !(n.negative && mantissa == 0) then .int signed
  else .real signed (n.writtenExponent - n.fraction.length)

/-! ## The range -/

/-- A number of 64 bits with one more digit, if it fits. -/
def appended? (n : Nat) (c : Char) : Option Nat :=
  let next := n * 10 + (c.toNat - 48)
  if next < 18446744073709551616 then some next else none

/-- The number that the first digits make, and how many digits it leaves out. -/
def takeWhole (n : Nat) : List Char → Nat × Nat
  | [] => (n, 0)
  | c :: cs =>
    match appended? n c with
    | some next => takeWhole next cs
    | none => (n, cs.length + 1)

/-- The number with the first digits of a fraction, and how many these are. -/
def takeFraction (n : Nat) : List Char → Nat × Nat
  | [] => (n, 0)
  | c :: cs =>
    match appended? n c with
    | some next =>
      let taken := takeFraction next cs
      (taken.1, taken.2 + 1)
    | none => (n, 0)

/-- Whether the number is within the range of floating point numbers. -/
def isInRange (n : Numeral) : Bool :=
  let whole := takeWhole 0 n.whole.reverse
  let taken := takeFraction whole.1 n.fraction.reverse
  let exponent := n.writtenExponent + whole.2 - taken.2
  if taken.1 = 0 ∨ exponent < 0 then true
  else if 308 < exponent then false
  else decide (Text.nearestDouble taken.1 * Text.nearestDouble (Nat.pow 10 exponent.toNat) <
    Text.doubleLimit)

end Numeral

end PlatformGuard.Json
