import PlatformGuard.Text.Blank
import PlatformGuard.Text.Decimal

/-!
# Target frameworks

The version of a target framework moniker such as `net8.0`, `net5.0-windows`, `netcoreapp3.1` or
`net48`, or of a bare version such as `5.0`.
-/

namespace PlatformGuard

/-- The version of a target framework. -/
structure FrameworkVersion where
  major : Nat
  minor : Nat
deriving Repr, DecidableEq, Inhabited

namespace FrameworkVersion

def isAtLeast (a b : FrameworkVersion) : Bool :=
  decide (b.major < a.major) || (a.major == b.major && decide (b.minor ≤ a.minor))

/-- A number of 32 bits, maybe after a plus sign. -/
def part? (cs : List Char) : Option Nat :=
  let digits := match cs with
    | '+' :: rest => rest
    | cs => cs
  (Text.ofDigits? digits).filter (· < UInt32.size)

/-- The two digits of an old moniker such as `48` or `472`, of which only the first two count. -/
def ofDigitPair? (digits : List Char) : Option FrameworkVersion :=
  if digits.all Char.isDigit then
    match digits with
    | major :: minor :: _ => some ⟨major.toNat - 48, minor.toNat - 48⟩
    | [major] => some ⟨major.toNat - 48, 0⟩
    | [] => none
  else none

/-- The version that stands after the name of a framework, if there is a name. -/
def ofVersionPart? (named : Bool) (cs : List Char) : Option FrameworkVersion :=
  match cs.dropWhile (· != '.') with
  | _ :: minor =>
    match part? (cs.takeWhile (· != '.')), part? minor with
    | some major, some minor => some ⟨major, minor⟩
    | _, _ => none
  | [] => if named then ofDigitPair? cs else (part? cs).map fun major => ⟨major, 0⟩

/-- The version of a target framework. A standard library counts as the earliest version there
is. -/
def ofMoniker? (moniker : String) : Option FrameworkVersion :=
  let base := (Text.lower (Text.trim moniker)).toList.takeWhile (· != '-')
  if "netstandard".toList.isPrefixOf base then some ⟨0, 0⟩
  else
    match Text.after? "netcoreapp".toList base, Text.after? "net".toList base with
    | some rest, _ | none, some rest => ofVersionPart? true rest
    | none, none => ofVersionPart? false base

end FrameworkVersion

end PlatformGuard
