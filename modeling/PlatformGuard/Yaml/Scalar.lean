import PlatformGuard.Text.Hexadecimal
import PlatformGuard.Yaml.Basic

/-!
# YAML scalars

Plain and quoted scalars. Both may go over several lines: one line break is then a blank, and of
several all but the first are kept. The separators of lines and paragraphs are line breaks too, but
such a break is always kept.
-/

namespace PlatformGuard.Yaml

/-- Where reading stands: the characters to come, with line and column. -/
structure Cursor where
  rest : List Char
  line : Nat
  column : Nat
deriving Repr

def isBlank (c : Char) : Bool :=
  c == ' ' || c == '\t'

def isBreak (c : Char) : Bool :=
  c == '\n' || c == '\u2028' || c == '\u2029'

/-- Whether a blank, a line break or the end comes next. -/
def atBlank : List Char → Bool
  | [] => true
  | c :: _ => isBlank c || isBreak c

/-- Whether the characters start with the mark between documents. -/
def atDocumentMark (cs : List Char) : Bool :=
  ("---".toList.isPrefixOf cs || "...".toList.isPrefixOf cs) && atBlank (cs.drop 3)

/-- What was passed over within a scalar and is not yet known to belong to it. -/
inductive Gap where
  | nothing
  /-- Blanks within a line, the last one first. -/
  | blanks (cs : List Char)
  /-- Line breaks: the first one, unless it is escaped, and those after it, the last one first. -/
  | breaks (first : Option Char) (more : List Char)
deriving DecidableEq

namespace Gap

/-- The gap after one more blank: at the end and the start of a line they do not count. -/
def addBlank (c : Char) : Gap → Gap
  | nothing => blanks [c]
  | blanks cs => blanks (c :: cs)
  | breaks first more => breaks first more

def addBreak (c : Char) : Gap → Gap
  | breaks first more => breaks first (c :: more)
  | _ => breaks (some c) []

/-- What a gap adds to a scalar that goes on, the last character first. -/
def text : Gap → List Char
  | nothing => []
  | blanks cs => cs
  | breaks (some '\n') [] => [' ']
  | breaks (some '\n') more => more
  | breaks first more => more ++ first.toList

def hasBreak : Gap → Bool
  | breaks _ _ => true
  | _ => false

end Gap

/-- Whether a character has a meaning within brackets and braces. -/
def isFlowMark (c : Char) : Bool :=
  c == ',' || c == '[' || c == ']' || c == '\x7b' || c == '\x7d'

/-- A plain scalar: its text, where it ends, and whether a line break stands after it. -/
structure PlainScalar where
  text : String
  after : Cursor
  endsLine : Bool

def PlainScalar.of (found : List Char) (gap : Gap) (line column : Nat) (cs : List Char) :
    PlainScalar :=
  ⟨String.ofList found.reverse, ⟨cs, line, column⟩, gap.hasBreak⟩

/-- Reads a plain scalar. It ends before a comment, before a colon that gives it a value, before a
line indented by less than `indent`, and within brackets and braces before their marks. -/
def readPlain (inFlow : Bool) (indent : Nat) :
    List Char → Gap → Nat → Nat → List Char → Option PlainScalar
  | found, gap, line, column, [] => some (.of found gap line column [])
  | found, gap, line, column, c :: cs =>
    if isBreak c then readPlain inFlow indent found (gap.addBreak c) (line + 1) 0 cs
    else if isBlank c then
      if gap.hasBreak ∧ column < indent ∧ c = '\t' then none
      else readPlain inFlow indent found (gap.addBlank c) line (column + 1) cs
    else if gap ≠ .nothing ∧
      (c = '#' ∨ (!inFlow ∧ column < indent) ∨ (column = 0 ∧ atDocumentMark (c :: cs))) then
      some (.of found gap line column (c :: cs))
    else if inFlow ∧ c = ':' ∧ cs.head?.any (fun d => isFlowMark d || d == '?') then none
    else if (c = ':' ∧ atBlank cs) ∨ (inFlow ∧ isFlowMark c) then
      some (.of found gap line column (c :: cs))
    else readPlain inFlow indent (c :: (gap.text ++ found)) .nothing line (column + 1) cs

def escape? (c : Char) : Option Char :=
  match c with
  | '0' => some '\x00'
  | 'a' => some '\x07'
  | 'b' => some '\x08'
  | 't' | '\t' => some '\t'
  | 'n' => some '\n'
  | 'v' => some '\x0b'
  | 'f' => some '\x0c'
  | 'r' => some '\r'
  | 'e' => some '\x1b'
  | ' ' => some ' '
  | '"' => some '"'
  | '/' => some '/'
  | '\\' => some '\\'
  | 'N' => some '\u0085'
  | '_' => some '\u00a0'
  | 'L' => some '\u2028'
  | 'P' => some '\u2029'
  | _ => none

def escapeDigits? (c : Char) : Option Nat :=
  match c with
  | 'x' => some 2
  | 'u' => some 4
  | 'U' => some 8
  | _ => none

/-- What a quoted scalar is in the middle of. -/
inductive QuotedState where
  | text (gap : Gap)
  | backslash
  /-- An escape by number, with so many digits due. -/
  | number (value due : Nat)
  /-- The second of two single quotes. -/
  | doubled

/-- The rest of a scalar between single or double quotes. -/
def readQuoted (single : Bool) : QuotedState → List Char → Nat → Nat → List Char →
    Option (String × Cursor)
  | _, _, _, _, [] => none
  | .text gap, found, line, column, c :: cs =>
    let found := if isBlank c || isBreak c then found else gap.text ++ found
    if isBreak c then readQuoted single (.text (gap.addBreak c)) found (line + 1) 0 cs
    else if isBlank c then readQuoted single (.text (gap.addBlank c)) found line (column + 1) cs
    else if column = 0 ∧ atDocumentMark (c :: cs) then none
    else if single ∧ c = '\'' then
      if cs.head? = some '\'' then readQuoted single .doubled found line (column + 1) cs
      else some (String.ofList found.reverse, ⟨cs, line, column + 1⟩)
    else if !single ∧ c = '"' then some (String.ofList found.reverse, ⟨cs, line, column + 1⟩)
    else if !single ∧ c = '\\' then readQuoted single .backslash found line (column + 1) cs
    else readQuoted single (.text .nothing) (c :: found) line (column + 1) cs
  | .doubled, found, line, column, c :: cs =>
    readQuoted single (.text .nothing) (c :: found) line (column + 1) cs
  | .backslash, found, line, column, c :: cs =>
    if isBreak c then readQuoted single (.text (.breaks none [])) found (line + 1) 0 cs
    else
      match escape? c, escapeDigits? c with
      | some e, _ => readQuoted single (.text .nothing) (e :: found) line (column + 1) cs
      | none, some due => readQuoted single (.number 0 due) found line (column + 1) cs
      | none, none => none
  | .number value due, found, line, column, c :: cs =>
    match Text.hexDigit? c with
    | none => none
    | some d =>
      let value := value * 16 + d
      if 1 < due then readQuoted single (.number value (due - 1)) found line (column + 1) cs
      else if value.isValidChar then
        readQuoted single (.text .nothing) (Char.ofNat value :: found) line (column + 1) cs
      else none

end PlatformGuard.Yaml
