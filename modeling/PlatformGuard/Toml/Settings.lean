import PlatformGuard.Settings.Form
import PlatformGuard.Toml.Parse

/-!
# Settings as TOML

Settings are read from TOML documents, and this is the form in which they are saved.
-/

namespace PlatformGuard

/-- TOML that settings cannot be read from or written to. -/
inductive TomlError where
  /-- The text is no document. -/
  | malformed
  /-- A value is of another shape than is due. -/
  | mismatch
  /-- A number is too large to be written. -/
  | tooLarge
deriving Repr, DecidableEq

namespace Toml

/-- The value, or the error of a value of another shape. -/
def due {α : Type} : Option α → Except TomlError α
  | some a => .ok a
  | none => .error .mismatch

/-- A severity: its name, or a table that gives an empty value to its name. -/
def severity? : Toml → Option Severity
  | string s => Severity.ofName? s
  | table _ [(name, table _ [])] | table _ [(name, array [])] => Severity.ofName? name
  | _ => none

def items? : Toml → Option (List Toml)
  | array items => some items
  | tables items => some (items.map (.table .declared))
  | _ => none

/-- The fields of a record: those of a table, or the items of an array in order. -/
def fields? (names : List String) : Toml → Option Entries
  | table _ entries => some entries
  | v => (items? v).map names.zip

/-- How TOML writes what settings are made of. No value says that there is none. -/
def dataForm : DataForm TomlError Toml where
  text
    | string s => .ok s
    | _ => .error .mismatch
  boolean
    | boolean b => .ok b
    | _ => .error .mismatch
  count
    | integer n => if 0 ≤ n then .ok n.toNat.toUInt64 else .error .mismatch
    | _ => .error .mismatch
  severity := fun v => due v.severity?
  isAbsent := fun _ => .ok false
  list := fun v => due v.items?
  entries
    | table _ entries => .ok entries
    | _ => .error .mismatch
  record := fun names v => due (v.fields? names)

/-- An array of texts: on one line with at most one item, otherwise an item a line. -/
def textsText (items : List String) : String :=
  match items with
  | [] => "[]"
  | [item] => "[" ++ stringText item ++ "]"
  | items => "[\n" ++ String.join (items.map fun item => "    " ++ stringText item ++ ",\n") ++ "]"

def booleanText (b : Bool) : String :=
  if b then "true" else "false"

def line (key value : String) : String :=
  key ++ " = " ++ value ++ "\n"

/-- A line that gives a key its value, or none. -/
def line? (key : String) (value : Option String) : String :=
  match value with
  | some value => line key value
  | none => ""

end Toml

namespace RuleSettings

open Toml in
def toToml (code : String) (r : RuleSettings) : String :=
  "\n[rules." ++ keyText code ++ "]\n" ++ line "enabled" (booleanText r.enabled) ++
    line? "severity" (r.severity.map fun s => stringText s.text)

end RuleSettings

namespace Settings

def parseToml (text : String) : Except TomlError Settings :=
  match Toml.parse? text with
  | some entries => ofForm Toml.dataForm (.table .declared entries)
  | none => .error .malformed

open Toml in
/-- Settings as a TOML document. The number of workers must be one that TOML can write. -/
def toToml (s : Settings) : Except TomlError String :=
  if s.threads.any (9223372036854775808 ≤ ·.toNat) then .error .tooLarge
  else .ok <|
    line "version" (stringText s.version) ++
    line "enabled" (booleanText s.enabled) ++
    line "custom_platforms" (textsText s.customPlatforms) ++
    line? "target_framework" (s.targetFramework.map stringText) ++
    line "minimum_target_framework" (stringText s.minimumTargetFramework) ++
    line "analyze_below_minimum" (booleanText s.analyzeBelowMinimum) ++
    line? "threads" (s.threads.map fun n => Text.number n.toNat) ++
    (if s.rules.entries.isEmpty then "\n[rules]\n"
      else String.join (s.rules.entries.map fun e => e.2.toToml e.1))

end Settings

end PlatformGuard
