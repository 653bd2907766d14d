import PlatformGuard.Text.Decimal
import PlatformGuard.Text.Hexadecimal

/-!
# JSON values

The values in which compilations and reports are exchanged, and how they are written: in
one line, or indented.

A value keeps its object entries as written, repetitions included, and its numbers exactly.
-/

namespace PlatformGuard

inductive Json where
  | null
  | bool (value : Bool)
  /-- A number without fraction and exponent. -/
  | int (value : Int)
  /-- Any other number: a mantissa times a power of ten. The number `-0` is one of these. -/
  | real (mantissa exponent : Int)
  | text (value : String)
  | array (items : List Json)
  /-- The entries in the order of the text. -/
  | object (entries : List (String × Json))

namespace Json

instance : Inhabited Json := ⟨null⟩

def nat (n : Nat) : Json := int n

def orNull {α : Type} (write : α → Json) : Option α → Json
  | some a => write a
  | none => null

def list {α : Type} (write : α → Json) (items : List α) : Json :=
  array (items.map write)

/-- A field that is left out when there is no value. -/
def field? {α : Type} (name : String) (write : α → Json) : Option α → List (String × Json)
  | some a => [(name, write a)]
  | none => []

/-! ## Repeated keys -/

/-- The entries of a list without those whose key stands again later. -/
def lastOfEach : List (String × Json) → List (String × Json)
  | [] => []
  | e :: rest =>
    if rest.any fun later => later.1 == e.1 then lastOfEach rest else e :: lastOfEach rest

mutual
/-- The value with one entry a key in every object: the last one. -/
def withoutRepeats : Json → Json
  | array items => array (withoutRepeatsAll items)
  | object entries => object (lastOfEach (withoutRepeatsEntries entries))
  | v => v

def withoutRepeatsAll : List Json → List Json
  | [] => []
  | v :: rest => withoutRepeats v :: withoutRepeatsAll rest

def withoutRepeatsEntries : List (String × Json) → List (String × Json)
  | [] => []
  | (k, v) :: rest => (k, withoutRepeats v) :: withoutRepeatsEntries rest
end

/-! ## Writing -/

/-- How a character is written within quotes. -/
def escapeChar (c : Char) : List Char :=
  match c with
  | '"' => ['\\', '"']
  | '\\' => ['\\', '\\']
  | '\n' => ['\\', 'n']
  | '\r' => ['\\', 'r']
  | '\t' => ['\\', 't']
  | '\x08' => ['\\', 'b']
  | '\x0c' => ['\\', 'f']
  | c =>
    if c.toNat < 32 then
      ['\\', 'u', '0', '0', Text.lowerHexDigit (c.toNat / 16), Text.lowerHexDigit (c.toNat % 16)]
    else [c]

def quoted (s : String) : String :=
  "\"" ++ String.ofList (s.toList.flatMap escapeChar) ++ "\""

/-- A number with an exponent. -/
def realText (mantissa exponent : Int) : String :=
  Text.integer mantissa ++ "e" ++ Text.integer exponent

mutual
/-- The value in one line without blanks. -/
def compact : Json → String
  | null => "null"
  | bool b => if b then "true" else "false"
  | int n => Text.integer n
  | real m e => realText m e
  | text s => quoted s
  | array items => "[" ++ ",".intercalate (compactAll items) ++ "]"
  | object entries => "\x7b" ++ ",".intercalate (compactEntries entries) ++ "\x7d"

def compactAll : List Json → List String
  | [] => []
  | v :: rest => compact v :: compactAll rest

def compactEntries : List (String × Json) → List String
  | [] => []
  | (k, v) :: rest => (quoted k ++ ":" ++ compact v) :: compactEntries rest
end

def indentedLine (steps : Nat) : String :=
  "\n" ++ String.ofList (List.replicate (2 * steps) ' ')

/-- Parts between brackets, each on a line of its own. -/
def bracketed (opening closing : String) (steps : Nat) (parts : List String) : String :=
  if parts.isEmpty then opening ++ closing
  else
    opening ++ indentedLine (steps + 1) ++ ("," ++ indentedLine (steps + 1)).intercalate parts ++
      indentedLine steps ++ closing

mutual
/-- The value over several lines, within text indented by so many steps. -/
def indented (steps : Nat) : Json → String
  | array items => bracketed "[" "]" steps (indentedAll (steps + 1) items)
  | object entries => bracketed "\x7b" "\x7d" steps (indentedEntries (steps + 1) entries)
  | null => "null"
  | bool b => if b then "true" else "false"
  | int n => Text.integer n
  | real m e => realText m e
  | text s => quoted s

def indentedAll (steps : Nat) : List Json → List String
  | [] => []
  | v :: rest => indented steps v :: indentedAll steps rest

def indentedEntries (steps : Nat) : List (String × Json) → List String
  | [] => []
  | (k, v) :: rest => (quoted k ++ ": " ++ indented steps v) :: indentedEntries steps rest
end

/-- The value over several lines. -/
def pretty (v : Json) : String := indented 0 v

end Json

end PlatformGuard
