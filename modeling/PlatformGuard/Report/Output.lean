import PlatformGuard.Json.Basic
import PlatformGuard.SortedMap
import PlatformGuard.Text.Blank

/-!
# Output formats and tables

A table is a header and rows. As text its columns are aligned; as JSON each row is an object. A
column is as wide as the longest cell in bytes, and cells are filled up by characters.
-/

namespace PlatformGuard

/-- How output is written. -/
inductive OutputFormat where
  | text
  | json
deriving Repr, DecidableEq, Inhabited

def OutputFormat.ofName? (name : String) : Option OutputFormat :=
  let lowered := Text.lower name
  if lowered = "text" ∨ lowered = "txt" then some .text
  else if lowered = "json" then some .json
  else none

def OutputFormat.unknown (name : String) : String :=
  "Unknown output format: " ++ name

structure Table where
  headers : List String
  rows : List (List String)

namespace Table

/-- Widths stretched to hold the cells of a row; cells beyond the last column do not count. -/
def stretch (widths : List Nat) (row : List String) : List Nat :=
  match widths, row with
  | w :: ws, cell :: cells => max w cell.utf8ByteSize :: stretch ws cells
  | ws, [] => ws
  | [], _ => []

def widths (t : Table) : List Nat :=
  t.rows.foldl stretch (t.headers.map String.utf8ByteSize)

/-- A cell filled up with blanks to a width. -/
def pad (width : Nat) (cell : String) : String :=
  cell ++ String.ofList (List.replicate (width - cell.length) ' ')

/-- The cells of a row, each filled up; those beyond the last column stay as they are. -/
def padAll : List Nat → List String → List String
  | w :: ws, cell :: cells => pad w cell :: padAll ws cells
  | [], cells => cells
  | _, [] => []

def text (t : Table) : String :=
  let widths := t.widths
  let header := " │ ".intercalate (padAll widths t.headers)
  let rule := "─┼─".intercalate (widths.map fun w => String.ofList (List.replicate w '─'))
  let rows := t.rows.map fun row => Text.trimEnd (" │ ".intercalate (padAll widths row))
  String.join ((header :: rule :: rows).map fun line => line ++ "\n")

/-- The table as an array of objects with their keys in order; of columns with the
same name the last counts. -/
def toJson (t : Table) : Json :=
  .list (fun row =>
    .object ((SortedMap.ofList (t.headers.zip row)).entries.map fun e => (e.1, .text e.2))) t.rows

def render (t : Table) : OutputFormat → String
  | .text => t.text
  | .json => t.toJson.pretty ++ "\n"

end Table

def durationText (millis : Nat) : String :=
  let seconds := millis / 1000
  let rest := millis % 1000
  if seconds = 0 then Text.number rest ++ "ms"
  else if seconds < 60 then
    let digits := Text.number rest
    Text.number seconds ++ "." ++
    String.ofList (List.replicate (3 - digits.length) '0') ++ digits ++ "s"
  else Text.number (seconds / 60) ++ "m " ++ Text.number (seconds % 60) ++ "s"

end PlatformGuard
