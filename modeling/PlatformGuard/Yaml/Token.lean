import PlatformGuard.Yaml.Property

/-!
# YAML tokens

The tokens of a text. Outside brackets and braces indentation says where sequences and
mappings start and end. A key shows only by the colon after it, so its mark is set before
tokens that are already there.
-/

namespace PlatformGuard.Yaml

/-- Something that a colon on the same line, and not too far away, would make a key. -/
structure KeyCandidate where
  /-- The number of tokens before it. -/
  index : Nat
  line : Nat
  column : Nat
  /-- Whether it stands where only a key can stand. -/
  required : Bool

/-- A text while its tokens are found. -/
structure Scan where
  cursor : Cursor
  tokens : List Token := []
  /-- The columns of the open sequences and mappings, the innermost first. -/
  indents : List Nat := []
  /-- Whether a key may start here. -/
  keyAllowed : Bool := true
  /-- The candidate outside brackets and braces, or in the innermost ones. -/
  candidate : Option KeyCandidate := none
  /-- The candidates of what is around the innermost brackets or braces: one for each level. -/
  outer : List (Option KeyCandidate) := []
  /-- The names of the anchors so far, in order; the number of an anchor is its place. -/
  anchors : List String := []
  /-- The handles that directives gave a meaning. -/
  handles : List (String × String) := []
  /-- Whether a directive named the version of the language. -/
  versioned : Bool := false

namespace Scan

/-- Whether this is within brackets or braces. -/
def inFlow (s : Scan) : Bool :=
  !s.outer.isEmpty

/-- The least column of what belongs to the innermost sequence or mapping. -/
def innerIndent (s : Scan) : Nat :=
  match s.indents with
  | [] => 0
  | i :: _ => i + 1

def push (t : Token) (s : Scan) : Scan :=
  { s with tokens := s.tokens ++ [t] }

def move (count : Nat) (s : Scan) : Scan :=
  { s with cursor := ⟨s.cursor.rest.drop count, s.cursor.line, s.cursor.column + count⟩ }

/-- Ends the sequences and mappings indented further than a column. -/
def unindent (column : Nat) (s : Scan) : Scan :=
  if s.inFlow then s
  else
    let closed := s.indents.takeWhile (column < ·)
    { s with
      tokens := s.tokens ++ closed.map fun _ => .blockEnd, indents := s.indents.drop closed.length }

def unindentAll (s : Scan) : Scan :=
  { s with tokens := s.tokens ++ s.indents.map fun _ => .blockEnd, indents := [] }

/-- Starts a sequence or mapping at a column, unless one is open there; its token goes before the
others from an index on. -/
def indent (column index : Nat) (t : Token) (s : Scan) : Scan :=
  if s.inFlow then s
  else if s.indents.head?.all (· < column) then
    { s with
      tokens := s.tokens.take index ++ t :: s.tokens.drop index, indents := column :: s.indents }
  else s

/-- Gives up the candidate, which must not be one that has to be a key. -/
def dropCandidate (s : Scan) : Option Scan :=
  if s.candidate.any (·.required) then none else some { s with candidate := none }

def noteCandidate (s : Scan) : Option Scan :=
  if s.keyAllowed then
    s.dropCandidate.map fun s =>
      { s with candidate := some {
          index := s.tokens.length
          line := s.cursor.line
          column := s.cursor.column
          required := !s.inFlow && s.indents.head? == some s.cursor.column } }
  else some s

/-- The most characters of a key that has no mark before it. -/
def longestKey : Nat := 1024

/-- Whether a candidate is on an earlier line, or too far back. -/
def isStale (here : Cursor) (k : KeyCandidate) : Bool :=
  decide (k.line < here.line) || decide (k.column + longestKey < here.column)

/-- Gives up the candidates that no colon can make keys any more. -/
def dropStale (s : Scan) : Option Scan :=
  let stale := isStale s.cursor
  if (s.candidate :: s.outer).any fun k => k.any fun k => k.required && stale k then none
  else some { s with
    candidate := s.candidate.filter fun k => !stale k
    outer := s.outer.map fun k => k.filter fun k => !stale k }

/-! ## Blanks and comments -/

/-- Moves over blanks, line breaks and comments, and over a mark of byte order at the start of a
line, which takes a column. Outside brackets and braces a key may start on a new line. -/
def skipFiller (inFlow : Bool) : (inComment keyAllowed : Bool) → Nat → Nat →
    List Char → Cursor × Bool
  | _, keyAllowed, line, column, [] => (⟨[], line, column⟩, keyAllowed)
  | inComment, keyAllowed, line, column, c :: cs =>
    if isBreak c then skipFiller inFlow false (keyAllowed || !inFlow) (line + 1) 0 cs
    else if inComment then skipFiller inFlow true keyAllowed line (column + 1) cs
    else if c = ' ' ∨ (c = '\t' ∧ (inFlow ∨ !keyAllowed)) ∨ (c = '\uFEFF' ∧ column = 0) then
      skipFiller inFlow false keyAllowed line (column + 1) cs
    else if c = '#' then skipFiller inFlow true keyAllowed line (column + 1) cs
    else (⟨c :: cs, line, column⟩, keyAllowed)

def toNextToken (s : Scan) : Option Scan :=
  let (cursor, keyAllowed) :=
    skipFiller s.inFlow false s.keyAllowed s.cursor.line s.cursor.column s.cursor.rest
  ({ s with cursor, keyAllowed } : Scan).dropStale.map fun s => s.unindent s.cursor.column

/-! ## The tokens -/

def documentMark (t : Token) (s : Scan) : Option Scan :=
  s.unindentAll.dropCandidate.map fun s => { s.push t with keyAllowed := false }.move 3

def openFlow (t : Token) (s : Scan) : Option Scan :=
  s.noteCandidate.map fun s =>
    { s.push t with outer := s.candidate :: s.outer, candidate := none, keyAllowed := true }.move 1

def closeFlow (t : Token) (s : Scan) : Option Scan :=
  s.dropCandidate.map fun s =>
    { s.push t with
      candidate := s.outer.head?.join, outer := s.outer.tail, keyAllowed := false }.move 1

def comma (s : Scan) : Option Scan :=
  s.dropCandidate.map fun s => { s.push .comma with keyAllowed := true }.move 1

/-- The mark of an item of an indented sequence. -/
def entry (s : Scan) : Option Scan :=
  if !s.inFlow && !s.keyAllowed then none
  else
    (s.indent s.cursor.column s.tokens.length .sequenceStart).dropCandidate.map fun s =>
      { s.push .entry with keyAllowed := true }.move 1

/-- The mark of a key that needs one. -/
def explicitKey (s : Scan) : Option Scan :=
  if !s.inFlow && !s.keyAllowed then none
  else
    (s.indent s.cursor.column s.tokens.length .mappingStart).dropCandidate.map fun s =>
      { s.push .key with keyAllowed := !s.inFlow }.move 1

/-- The colon before a value: what was noted on its line is a key. -/
def value (s : Scan) : Option Scan :=
  match s.candidate with
  | some k =>
    let s := { s with
      tokens := s.tokens.take k.index ++ Token.key :: s.tokens.drop k.index, candidate := none }
    some <| ({ s.indent k.column k.index .mappingStart with
      keyAllowed := false }.push .value).move 1
  | none =>
    if !s.inFlow && !s.keyAllowed then none
    else
      let s := s.indent s.cursor.column s.tokens.length .mappingStart
      some <| ({ s with keyAllowed := !s.inFlow }.push .value).move 1

/-- A directive. The version of the language must be one that is known, and nothing is said
twice. -/
def directive (cs : List Char) (s : Scan) : Option Scan :=
  s.unindentAll.dropCandidate.bind fun s =>
    (readDirective cs).bind fun (found, rest) =>
      let s := { s.push .directive with
        keyAllowed := false, cursor := ⟨rest, s.cursor.line + 1, 0⟩ }
      match found with
      | .version major minor =>
        if !s.versioned && major == 1 && (minor == 1 || minor == 2) then
          some { s with versioned := true }
        else none
      | .handle name start =>
        if s.handles.any fun h => h.1 == name then none
        else some { s with handles := (name, start) :: s.handles }

/-- The characters that are left after something on this line. -/
def moveTo (rest : List Char) (s : Scan) : Scan :=
  s.move (s.cursor.rest.length - rest.length)

/-- An anchor, which gets the next number. -/
def anchor (cs : List Char) (s : Scan) : Option Scan :=
  s.noteCandidate.bind fun s =>
    (readAnchor cs).map fun (name, rest) =>
      { s.push (.anchor s.anchors.length) with
        keyAllowed := false, anchors := s.anchors ++ [name] }.moveTo rest

/-- A reference to the last anchor with a name. -/
def reference (cs : List Char) (s : Scan) : Option Scan :=
  s.noteCandidate.bind fun s =>
    (readAnchor cs).bind fun (name, rest) =>
      (s.anchors.reverse.findIdx? (· == name)).map fun back =>
        { s.push (.reference (s.anchors.length - 1 - back)) with keyAllowed := false }.moveTo rest

/-- A tag. It ends before a blank, or before a comma within brackets and braces. -/
def tag (cs : List Char) (s : Scan) : Option Scan :=
  s.noteCandidate.bind fun s =>
    (Yaml.readTag s.handles cs).bind fun (name, rest) =>
      if atBlank rest || (s.inFlow && rest.head? == some ',') then
        some ({ s.push (.tag name) with keyAllowed := false }.moveTo rest)
      else none

def block (joins : Bool) (cs : List Char) (s : Scan) : Option Scan :=
  s.dropCandidate.bind fun s =>
    (readHeader cs).bind fun (header, cs) =>
      (afterLine? cs).bind fun cs =>
        let indent := match header.indent with
          | some more => s.indents.head?.getD 0 + more
          | none => 0
        (readBlock joins (max s.innerIndent 1) { indent } false (s.cursor.line + 1) 0 cs).map
          fun (found, cursor) =>
          { s.push (.scalar (if joins then .folded else .literal) (found.text header.chomping)) with
            cursor, keyAllowed := true }

def quoted (single : Bool) (s : Scan) : Option Scan :=
  s.noteCandidate.bind fun s =>
    (readQuoted single (.text .nothing) [] s.cursor.line (s.cursor.column + 1)
      (s.cursor.rest.drop 1)).map
      fun (text, cursor) => { s.push (.scalar .quoted text) with cursor, keyAllowed := false }

def plain (s : Scan) : Option Scan :=
  s.noteCandidate.bind fun s =>
    (readPlain s.inFlow s.innerIndent [] .nothing s.cursor.line s.cursor.column s.cursor.rest).map
      fun found => { s.push (.scalar .plain found.text) with
        cursor := found.after, keyAllowed := found.endsLine }

def startsPlain (inFlow : Bool) (c : Char) (cs : List Char) : Bool :=
  if c == '-' then !cs.head?.any isBlank
  else if c == '?' || c == ':' then !inFlow && !atBlank cs
  else !isBlank c && !"#,[]\x7b\x7d&*!|>'\"%@`".toList.contains c

/-- The token that starts with a character, and those that indentation puts before it. -/
def token (c : Char) (cs : List Char) (s : Scan) : Option Scan :=
  if s.cursor.column = 0 ∧ c = '%' then s.directive cs
  else if s.cursor.column = 0 ∧ atDocumentMark (c :: cs) then
    s.documentMark (if c = '-' then .documentStart else .documentEnd)
  else if c = '[' then s.openFlow .openBracket
  else if c = '\x7b' then s.openFlow .openBrace
  else if c = ']' then s.closeFlow .closeBracket
  else if c = '\x7d' then s.closeFlow .closeBrace
  else if c = ',' then s.comma
  else if c = '-' ∧ atBlank cs then s.entry
  else if c = '?' ∧ (s.inFlow ∨ atBlank cs) then s.explicitKey
  else if c = ':' ∧ (s.inFlow ∨ atBlank cs) then s.value
  else if c = '*' then s.reference cs
  else if c = '&' then s.anchor cs
  else if c = '!' then s.tag cs
  else if c = '|' ∧ !s.inFlow then s.block false cs
  else if c = '>' ∧ !s.inFlow then s.block true cs
  else if c = '\'' then s.quoted true
  else if c = '"' then s.quoted false
  else if startsPlain s.inFlow c cs then s.plain
  else none

/-- All tokens; every step takes at least one character. -/
def run : Nat → Scan → Option (List Token)
  | 0, _ => none
  | fuel + 1, s =>
    s.toNextToken.bind fun s =>
      match s.cursor.rest with
      | [] => s.unindentAll.dropCandidate.map (·.tokens)
      | c :: cs => (s.token c cs).bind (run fuel)

end Scan

def isAllowed (c : Char) : Bool :=
  c == '\t' || c == '\n' || c == '\u0085' || (decide (32 ≤ c.toNat) && decide (c.toNat < 127)) ||
    (decide (160 ≤ c.toNat) && c.toNat != 0xFFFE && c.toNat != 0xFFFF)

/-- Every line break as one character, mostly the same. -/
def normalBreaks : List Char → List Char
  | '\r' :: '\n' :: cs => '\n' :: normalBreaks cs
  | '\r' :: cs => '\n' :: normalBreaks cs
  | c :: cs => (if c = '\u0085' then '\n' else c) :: normalBreaks cs
  | [] => []

def tokens? (text : String) : Option (List Token) :=
  let cs := normalBreaks text.toList
  if cs.all isAllowed then Scan.run (cs.length + 1) { cursor := ⟨cs, 0, 0⟩ } else none

end PlatformGuard.Yaml
