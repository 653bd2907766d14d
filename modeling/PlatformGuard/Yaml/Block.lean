import PlatformGuard.Yaml.Scalar

/-!
# Indented YAML texts

A text that is told from the rest of a document by its indentation. Its first line says whether
lines are joined, what becomes of the line breaks at the end, and possibly how far the text is
indented; otherwise that is found from its lines.
-/

namespace PlatformGuard.Yaml

/-- What becomes of the line breaks at the end of an indented text. -/
inductive Chomping where
  /-- The first one stays. -/
  | clip
  | strip
  | keep
deriving Repr, DecidableEq

/-- The mark for what becomes of the line breaks at the end. -/
def chomping? (c : Char) : Option Chomping :=
  if c = '+' then some .keep else if c = '-' then some .strip else none

/-- What the first line of an indented text says: what becomes of the line breaks at its end, and
how much further than its surroundings it is indented. -/
structure BlockHeader where
  chomping : Chomping := .clip
  indent : Option Nat := none

def readIndent (header : BlockHeader) : List Char → Option (BlockHeader × List Char)
  | c :: cs =>
    if c = '0' then none
    else if c.isDigit then some ({ header with indent := some (c.toNat - 48) }, cs)
    else some (header, c :: cs)
  | [] => some (header, [])

def readChomping (header : BlockHeader) : List Char → BlockHeader × List Char
  | c :: cs =>
    match chomping? c with
    | some chomping => ({ header with chomping }, cs)
    | none => (header, c :: cs)
  | [] => (header, [])

/-- Both marks in either order, each of which may be missing. -/
def readHeader (cs : List Char) : Option (BlockHeader × List Char) :=
  if (cs.head?.bind chomping?).isSome then
    let marked := readChomping {} cs
    readIndent marked.1 marked.2
  else (readIndent {} cs).map fun (header, cs) =>
    if header.indent.isSome then readChomping header cs else (header, cs)

/-- What comes after the end of a line, where only blanks and a comment may stand before it. -/
def afterLine? (cs : List Char) : Option (List Char) :=
  let cs := cs.dropWhile isBlank
  match (if cs.head? = some '#' then cs.dropWhile (!isBreak ·) else cs) with
  | [] => some []
  | c :: cs => if isBreak c then some cs else none

/-- An indented text read up to a point. Characters and breaks are kept with the last one first. -/
structure BlockState where
  found : List Char := []
  /-- The break after the last line. -/
  lineBreak : List Char := []
  /-- The breaks of empty lines after it. -/
  emptyLines : List Char := []
  /-- Whether the last line started with a blank. -/
  afterBlank : Bool := false
  /-- The indentation; zero as long as it is not known. -/
  indent : Nat
  /-- The widest indentation of an empty line so far. -/
  widest : Nat := 0

namespace BlockState

/-- A line starts with a character. Two lines that do not start with blanks are joined,
where lines are joined. -/
def startLine (joins : Bool) (s : BlockState) (c : Char) : BlockState :=
  let between :=
    if joins && s.lineBreak == ['\n'] && !s.afterBlank && !isBlank c then
      if s.emptyLines.isEmpty then [' '] else s.emptyLines
    else s.emptyLines ++ s.lineBreak
  { s with
    found := c :: (between ++ s.found), lineBreak := [], emptyLines := [], afterBlank := isBlank c }

def text (s : BlockState) (chomping : Chomping) : String :=
  let ending := match chomping with
    | .clip => s.lineBreak
    | .strip => []
    | .keep => s.emptyLines ++ s.lineBreak
  String.ofList (ending ++ s.found).reverse

end BlockState

/-- Reads an indented text up to the first line indented otherwise; the indentation, where it has to
be found, is at least `least`. -/
def readBlock (joins : Bool) (least : Nat) :
    BlockState → (inLine : Bool) → Nat → Nat → List Char → Option (BlockState × Cursor)
  | s, _, line, column, [] => some (s, ⟨[], line, column⟩)
  | s, true, line, column, c :: cs =>
    if isBreak c then readBlock joins least { s with lineBreak := [c] } false (line + 1) 0 cs
    else readBlock joins least { s with found := c :: s.found } true line (column + 1) cs
  | s, false, line, column, c :: cs =>
    let outside := s.indent == 0 || decide (column < s.indent)
    if outside ∧ c = ' ' then readBlock joins least s false line (column + 1) cs
    else if outside ∧ c = '\t' then none
    else
      let widest := max s.widest column
      if isBreak c then
        readBlock joins least { s with widest, emptyLines := c :: s.emptyLines } false
          (line + 1) 0 cs
      else
        let indent := if s.indent = 0 then max widest least else s.indent
        if column = indent then
          readBlock joins least ({ s with indent }.startLine joins c) true line (column + 1) cs
        else some (s, ⟨c :: cs, line, column⟩)

end PlatformGuard.Yaml
