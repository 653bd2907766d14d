import PlatformGuard.Text.Decimal
import PlatformGuard.Text.Hexadecimal

/-!
# TOML documents

The values of a TOML document, with how each table came to be: that decides whether a later line
may add to it. The operations below add one line of a document and fail where the line would
define something twice.
-/

namespace PlatformGuard

/-- How a table came to be. -/
inductive TableRole where
  /-- By the header of a table within it. -/
  | implied
  /-- By its own header. -/
  | declared
  /-- By a dotted key. -/
  | dotted
  /-- Within braces; nothing can be added to it. -/
  | inline
deriving Repr, DecidableEq

inductive Toml where
  | string (value : String)
  | integer (value : Int)
  | float
  | boolean (value : Bool)
  | array (items : List Toml)
  | table (role : TableRole) (entries : List (String × Toml))
  /-- An array of tables, each with its own header. -/
  | tables (items : List (List (String × Toml)))

namespace Toml

abbrev Entries := List (String × Toml)

def find? (es : Entries) (key : String) : Option Toml :=
  (es.find? fun e => e.1 == key).map (·.2)

def replace (es : Entries) (key : String) (v : Toml) : Entries :=
  es.map fun e => if e.1 == key then (key, v) else e

/-- Adds a value under a dotted key. A table on the way may be new, or made by dotted keys or longer
headers; the last must be made by dotted keys. -/
def insertAt : List String → String → Toml → Entries → Option Entries
  | [], key, v, es => if (find? es key).isSome then none else some (es ++ [(key, v)])
  | k :: path, key, v, es =>
    match find? es k with
    | none => (insertAt path key v []).map fun inner => es ++ [(k, .table .dotted inner)]
    | some (.table role inner) =>
      if role = .dotted ∨ (role = .implied ∧ path ≠ []) then
        (insertAt path key v inner).map fun inner => replace es k (.table role inner)
      else none
    | some (.tables items) =>
      match path, items.getLast? with
      | [], _ | _, none => none
      | path, some last =>
        (insertAt path key v last).map fun last => replace es k (.tables (items.dropLast ++ [last]))
    | some _ => none

/-- Adds the table of a header. -/
def declare : List String → Entries → Option Entries
  | [], _ => none
  | [k], es =>
    match find? es k with
    | none => some (es ++ [(k, .table .declared [])])
    | some (.table .implied inner) => some (replace es k (.table .declared inner))
    | some _ => none
  | k :: path, es =>
    match find? es k with
    | none => (declare path []).map fun inner => es ++ [(k, .table .implied inner)]
    | some (.table role inner) =>
      if role = .inline then none else (declare path inner).map fun inner =>
        replace es k (.table role inner)
    | some (.tables items) =>
      match items.getLast? with
      | none => none
      | some last =>
        (declare path last).map fun last => replace es k (.tables (items.dropLast ++ [last]))
    | some _ => none

/-- Adds one more table of a header for an array of tables. -/
def declareItem : List String → Entries → Option Entries
  | [], _ => none
  | [k], es =>
    match find? es k with
    | none => some (es ++ [(k, .tables [[]])])
    | some (.tables items) => some (replace es k (.tables (items ++ [[]])))
    | some _ => none
  | k :: path, es =>
    match find? es k with
    | none => (declareItem path []).map fun inner => es ++ [(k, .table .implied inner)]
    | some (.table role inner) =>
      if role = .inline then none else (declareItem path inner).map fun inner =>
        replace es k (.table role inner)
    | some (.tables items) =>
      match items.getLast? with
      | none => none
      | some last =>
        (declareItem path last).map fun last => replace es k (.tables (items.dropLast ++ [last]))
    | some _ => none

def modifyAt (f : Entries → Option Entries) : List String → Entries → Option Entries
  | [], es => f es
  | k :: path, es =>
    match find? es k with
    | some (.table role inner) =>
      (modifyAt f path inner).map fun inner => replace es k (.table role inner)
    | some (.tables items) =>
      match items.getLast? with
      | none => none
      | some last =>
        (modifyAt f path last).map fun last => replace es k (.tables (items.dropLast ++ [last]))
    | _ => none

/-! ## Writing texts -/

def longestRun (c : Char) (cs : List Char) : Nat :=
  (cs.foldl (fun (best, run) d =>
    let run := if d = c then run + 1 else 0
    (max best run, run)) (0, 0)).1

def needsEscape (c : Char) : Bool :=
  (decide (c.toNat < 32) || c.toNat == 127) && c != '\t' && c != '\n'

/-- How a character is written between double quotes, where a line break may stand as it is. -/
def escapeChar (multiline : Bool) (c : Char) : List Char :=
  match c with
  | '\x08' => "\\b".toList
  | '\t' => "\\t".toList
  | '\n' => if multiline then ['\n'] else "\\n".toList
  | '\x0c' => "\\f".toList
  | '\r' => "\\r".toList
  | '\\' => "\\\\".toList
  | c =>
    if c.toNat < 32 ∨ c.toNat = 127 then
      "\\u00".toList ++ [Text.upperHexDigit (c.toNat / 16), Text.upperHexDigit (c.toNat % 16)]
    else [c]

/-- A text between double quotes, with every double quote escaped after so many in a row. -/
def escapeText (multiline : Bool) (most : Nat) : Nat → List Char → List Char
  | _, [] => []
  | run, c :: cs =>
    if c = '"' then
      if run < most then c :: escapeText multiline most (run + 1) cs
      else '\\' :: c :: escapeText multiline most 0 cs
    else escapeChar multiline c ++ escapeText multiline most 0 cs

/-- Between double quotes on one line. -/
def basicText (s : String) : String :=
  "\"" ++ String.ofList (escapeText false 0 0 s.toList) ++ "\""

/-- Between three double quotes. -/
def multilineText (s : String) : String :=
  "\"\"\"" ++ (if s.toList.contains '\n' then "\n" else "") ++
  String.ofList (escapeText true 2 0 s.toList) ++ "\"\"\""

/-- A text in the plainest form that needs no escape, if there is one. -/
def stringText (s : String) : String :=
  let cs := s.toList
  let escapes := cs.any needsEscape
  let backslash := cs.contains '\\'
  let lines := cs.contains '\n'
  let doubles := longestRun '"' cs
  let singles := longestRun '\'' cs
  if !escapes && !backslash && doubles == 0 && !lines then basicText s
  else if !escapes && singles == 0 && !lines then "'" ++ s ++ "'"
  else if !escapes && !backslash && decide (doubles ≤ 2) then multilineText s
  else if !escapes && decide (singles ≤ 2) then "'''" ++ (if lines then "\n" else "") ++ s ++ "'''"
  else if lines then multilineText s
  else basicText s

def isBareKeyChar (c : Char) : Bool :=
  c.isAlphanum || c == '_' || c == '-'

/-- A key in the plainest form. -/
def keyText (s : String) : String :=
  let cs := s.toList
  let escapes := cs.any fun c => needsEscape c || c == '\n'
  if !cs.isEmpty && cs.all isBareKeyChar then s
  else if !escapes && !cs.contains '\\' && !cs.contains '"' then basicText s
  else if !escapes && !cs.contains '\'' then "'" ++ s ++ "'"
  else basicText s

end Toml

end PlatformGuard
