import PlatformGuard.Yaml.Token

/-!
# Reading YAML documents

The value that tokens stand for. Every level of nesting and every item takes a token, so that the
number of tokens bounds the recursion.
-/

namespace PlatformGuard.Yaml

abbrev Read (α : Type) := Option (α × List Token)

/-- Whether no value is written before the next token. -/
def endsValue (marks : List Token) (ts : List Token) : Bool :=
  match ts with
  | [] => true
  | t :: _ => marks.contains t

/-- What stands before a value. -/
structure Properties where
  anchor : Option Nat := none
  tag : Option String := none

namespace Properties

/-- An anchor and a tag in either order, each of which may be missing. -/
def read : List Token → Properties × List Token
  | .anchor n :: .tag t :: ts | .tag t :: .anchor n :: ts => (⟨some n, some t⟩, ts)
  | .anchor n :: ts => (⟨some n, none⟩, ts)
  | .tag t :: ts => (⟨none, some t⟩, ts)
  | ts => ({}, ts)

def on (p : Properties) (v : Yaml) : Yaml :=
  match p.anchor with
  | some n => .anchored n v
  | none => v

/-- A scalar. The tag that says nothing is left out. -/
def scalar (p : Properties) (style : ScalarStyle) (text : String) : Yaml :=
  p.on (.scalar style (p.tag.filter (· != "!")) text)

/-- The value where none is written after an anchor or a tag. -/
def alone? (p : Properties) : Option Yaml :=
  if p.anchor.isSome || p.tag.isSome then some (p.on (.scalar .plain p.tag "")) else none

end Properties

mutual
/-- A value; one that indentation may lay out, and one that may be a sequence indented
no further than its key. -/
def readNode : Nat → (block unindented : Bool) → List Token → Read Yaml
  | 0, _, _, _ => none
  | fuel + 1, block, unindented, ts =>
    let (properties, ts) := Properties.read ts
    let alone := properties.alone?.map fun v => (v, ts)
    let sequence := fun (read : Read (List Yaml)) => read.map fun (vs, ts) =>
      (properties.on (.sequence vs), ts)
    let mapping := fun (read : Read (List (Yaml × Yaml))) => read.map fun (es, ts) =>
      (properties.on (.mapping es), ts)
    match ts with
    | .reference n :: ts => if properties.alone?.isSome then alone else some (.reference n, ts)
    | .entry :: _ => if unindented then sequence (readUnindented fuel [] ts) else alone
    | .scalar style text :: ts => some (properties.scalar style text, ts)
    | .openBracket :: ts => sequence (readFlowItems fuel true [] ts)
    | .openBrace :: ts => mapping (readFlowEntries fuel true [] ts)
    | .sequenceStart :: after => if block then sequence (readItems fuel [] after) else alone
    | .mappingStart :: after => if block then mapping (readEntries fuel [] after) else alone
    | _ => alone

/-- A value, or a blank one before some tokens. -/
def readUnless : Nat → List Token → (block unindented : Bool) → List Token → Read Yaml
  | 0, _, _, _, _ => none
  | fuel + 1, marks, block, unindented, ts =>
    if endsValue marks ts then some (blank, ts) else readNode fuel block unindented ts

/-- The value after a colon, or a blank one where there is no colon. -/
def readValue : Nat → List Token → (block : Bool) → List Token → Read Yaml
  | 0, _, _, _ => none
  | fuel + 1, marks, block, ts =>
    match ts with
    | .value :: ts => readUnless fuel marks block block ts
    | ts => some (blank, ts)

def readItems : Nat → List Yaml → List Token → Read (List Yaml)
  | 0, _, _ => none
  | fuel + 1, found, ts =>
    match ts with
    | .entry :: ts =>
      (readUnless fuel [.entry, .blockEnd] true false ts).bind fun (v, ts) =>
      readItems fuel (v :: found) ts
    | .blockEnd :: ts => some (found.reverse, ts)
    | _ => none

/-- The items of a sequence indented no further than its key. -/
def readUnindented : Nat → List Yaml → List Token → Read (List Yaml)
  | 0, _, _ => none
  | fuel + 1, found, ts =>
    match ts with
    | .entry :: ts =>
      (readUnless fuel [.entry, .key, .value, .blockEnd] true false ts).bind fun (v, ts) =>
        readUnindented fuel (v :: found) ts
    | ts => some (found.reverse, ts)

def readEntries : Nat → List (Yaml × Yaml) → List Token → Read (List (Yaml × Yaml))
  | 0, _, _ => none
  | fuel + 1, found, ts =>
    match ts with
    | .key :: ts =>
      (readUnless fuel [.key, .value, .blockEnd] true true ts).bind fun (k, ts) =>
        (readValue fuel [.key, .value, .blockEnd] true ts).bind fun (v, ts) =>
        readEntries fuel ((k, v) :: found) ts
    | .blockEnd :: ts => some (found.reverse, ts)
    | _ => none

/-- The key after a mark of one between brackets. Where none is written, the token
that shows this is lost. -/
def readBracketKey : Nat → List Token → Read Yaml
  | 0, _ => none
  | fuel + 1, ts =>
    if endsValue [.value, .comma, .closeBracket] ts then some (blank, ts.tail)
    else readNode fuel false false ts

/-- The items between brackets. An item with a colon is a mapping of one entry. -/
def readFlowItems : Nat → (first : Bool) → List Yaml → List Token → Read (List Yaml)
  | 0, _, _, _ => none
  | fuel + 1, first, found, ts =>
    match ts with
    | .closeBracket :: ts => some (found.reverse, ts)
    | ts =>
      match (if first then some ts else if ts.head? = some .comma then some ts.tail else none) with
      | none => none
      | some (.closeBracket :: ts) => some (found.reverse, ts)
      | some (.key :: ts) =>
        (readBracketKey fuel ts).bind fun (k, ts) =>
          (readValue fuel [.comma, .closeBracket] false ts).bind fun (v, ts) =>
            readFlowItems fuel false (.mapping [(k, v)] :: found) ts
      | some ts =>
        (readNode fuel false false ts).bind fun (v, ts) => readFlowItems fuel false (v :: found) ts

/-- The entries between braces. A key may have no value. -/
def readFlowEntries : Nat → (first : Bool) → List (Yaml × Yaml) → List Token →
    Read (List (Yaml × Yaml))
  | 0, _, _, _ => none
  | fuel + 1, first, found, ts =>
    match ts with
    | .closeBrace :: ts => some (found.reverse, ts)
    | ts =>
      match (if first then some ts else if ts.head? = some .comma then some ts.tail else none) with
      | none => none
      | some (.closeBrace :: ts) => some (found.reverse, ts)
      | some (.key :: ts) =>
        (readUnless fuel [.value, .comma, .closeBrace] false false ts).bind fun (k, ts) =>
          (readValue fuel [.comma, .closeBrace] false ts).bind fun (v, ts) =>
            readFlowEntries fuel false ((k, v) :: found) ts
      | some ts =>
        (readNode fuel false false ts).bind fun (k, ts) =>
        readFlowEntries fuel false ((k, blank) :: found) ts
end

/-- A document. One without a mark at its start has no directives, and has a value
unless the text is empty. -/
def readDocument (fuel : Nat) (ts : List Token) : Read Yaml :=
  match ts.dropWhile (· == .directive) with
  | .documentStart :: ts => readUnless fuel [.directive, .documentStart, .documentEnd] true false ts
  | _ => if ts.isEmpty then some (blank, []) else readNode fuel true false ts

/-- The value of the only document that tokens stand for. -/
def ofTokens? (ts : List Token) : Option Yaml :=
  match readDocument (4 * ts.length + 4) ts with
  | some (v, ts) => if ts.all (· == .documentEnd) then some v else none
  | none => none

def parse? (text : String) : Option Yaml :=
  (tokens? text).bind ofTokens?

end PlatformGuard.Yaml
