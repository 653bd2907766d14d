import PlatformGuard.Toml.Scalar

/-!
# Reading TOML documents

A document is read line by line; an array may go over several lines. The items of an array are
bounded by the length of the text, which serves as the bound of the recursion. How deep values are
nested has a limit of its own, and so has the number of parts of a key.
-/

namespace PlatformGuard.Toml

def skipBlanks (cs : List Char) : List Char :=
  cs.dropWhile fun c => c == ' ' || c == '\t'

/-- The characters after blanks, line breaks and comments, from within a comment or not. -/
def skipFiller : Bool → List Char → Option (List Char)
  | _, [] => some []
  | inComment, c :: cs =>
    if c = '\n' then skipFiller false cs
    else if c = '\r' then (if cs.head? = some '\n' then skipFiller false cs else none)
    else if inComment then (if isControl c then none else skipFiller true cs)
    else if c = ' ' ∨ c = '\t' then skipFiller false cs
    else if c = '#' then skipFiller true cs
    else some (c :: cs)

/-- The characters after the end of a line, where only blanks and a comment may stand before it. -/
def skipLine : Bool → List Char → Option (List Char)
  | _, [] => some []
  | inComment, c :: cs =>
    if c = '\n' then some cs
    else if c = '\r' then (if cs.head? = some '\n' then skipLine inComment cs else none)
    else if inComment then (if isControl c then none else skipLine true cs)
    else if c = ' ' ∨ c = '\t' then skipLine false cs
    else if c = '#' then skipLine true cs
    else none

/-- A key without points. -/
def readSimpleKey (cs : List Char) : Read String :=
  match cs with
  | '"' :: rest => readBasic .plain [] rest
  | '\'' :: rest => readLiteral [] rest
  | cs =>
    let bare := cs.takeWhile isBareKeyChar
    if bare.isEmpty then none else some (String.ofList bare, cs.dropWhile isBareKeyChar)

def readParts : Nat → List Char → Read (List String)
  | 0, _ => none
  | fuel + 1, cs =>
    (readSimpleKey (skipBlanks cs)).bind fun (first, rest) =>
      match skipBlanks rest with
      | '.' :: rest => (readParts fuel rest).map fun (others, rest) => (first :: others, rest)
      | rest => some ([first], rest)

/-- The most levels of nested values, and the most parts of a key. -/
def nestingLimit : Nat := 79

/-- A key with points: its parts in order. -/
def readKey (cs : List Char) : Read (List String) :=
  (readParts cs.length cs).filter fun found => found.1.length ≤ nestingLimit

def insertKey (path : List String) (v : Toml) (es : Entries) : Option Entries :=
  match path.getLast? with
  | some key => insertAt path.dropLast key v es
  | none => none

mutual
/-- A value, which may open so many levels. -/
def readValue : Nat → (levels : Nat) → List Char → Read Toml
  | 0, _, _ => none
  | fuel + 1, levels, cs =>
    match cs with
    | '[' :: rest =>
      if levels = 0 then none else (readItems fuel (levels - 1) [] rest).map fun (items, rest) =>
        (.array items, rest)
    | '\x7b' :: rest =>
      if levels = 0 then none
      else
        match skipBlanks rest with
        | '\x7d' :: rest => some (.table .inline [], rest)
        | rest => (readPairs fuel (levels - 1) [] rest).map fun (entries, rest) =>
          (.table .inline entries, rest)
    | '"' :: _ | '\'' :: _ => (readString cs).map fun (s, rest) => (.string s, rest)
    | cs => readPlain cs

def readItems : Nat → (levels : Nat) → List Toml → List Char → Read (List Toml)
  | 0, _, _, _ => none
  | fuel + 1, levels, found, cs =>
    match skipFiller false cs with
    | some (']' :: rest) => some (found.reverse, rest)
    | some cs =>
      (readValue fuel levels cs).bind fun (v, rest) =>
        match skipFiller false rest with
        | some (',' :: rest) => readItems fuel levels (v :: found) rest
        | some (']' :: rest) => some ((v :: found).reverse, rest)
        | _ => none
    | none => none

def readPairs : Nat → (levels : Nat) → Entries → List Char → Read Entries
  | 0, _, _, _ => none
  | fuel + 1, levels, found, cs =>
    (readKey cs).bind fun (path, rest) =>
      match rest with
      | '=' :: rest =>
        (readValue fuel levels (skipBlanks rest)).bind fun (v, rest) =>
          (insertKey path v found).bind fun found =>
            match skipBlanks rest with
            | ',' :: rest => readPairs fuel levels found rest
            | '\x7d' :: rest => some (found, rest)
            | _ => none
      | _ => none
end

/-- The lines of a document under a header. -/
def readLines : Nat → List String → Entries → List Char → Option Entries
  | 0, _, _, _ => none
  | fuel + 1, header, found, cs =>
    match skipFiller false cs with
    | none => none
    | some [] => some found
    | some ('[' :: '[' :: rest) =>
      match readKey rest with
      | some (path, ']' :: ']' :: rest) =>
        (skipLine false rest).bind fun rest =>
          (declareItem path found).bind fun found => readLines fuel path found rest
      | _ => none
    | some ('[' :: rest) =>
      match readKey rest with
      | some (path, ']' :: rest) =>
        (skipLine false rest).bind fun rest =>
          (declare path found).bind fun found => readLines fuel path found rest
      | _ => none
    | some cs =>
      match readKey cs with
      | some (path, '=' :: rest) =>
        (readValue cs.length nestingLimit (skipBlanks rest)).bind fun (v, rest) =>
          (skipLine false rest).bind fun rest =>
            (modifyAt (insertKey path v) header found).bind fun found =>
            readLines fuel header found rest
      | _ => none

def parse? (s : String) : Option Entries :=
  let cs := match s.toList with
    | '\uFEFF' :: cs => cs
    | cs => cs
  readLines (cs.length + 1) [] [] cs

end PlatformGuard.Toml
