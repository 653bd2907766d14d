import PlatformGuard.Text.Decimal
import PlatformGuard.Yaml.Block

/-!
# YAML tags, anchors and directives

What may stand before a value or before a document: a tag, which says what a value is, an
anchor, by which others refer to it, and directives, which name the version of the language and
give short names to tags.
-/

namespace PlatformGuard.Yaml

def isNameChar (c : Char) : Bool :=
  c.isAlphanum || c == '_' || c == '-'

/-- Whether a character can be part of a tag. Between angle brackets a few more can. -/
def isTagChar (verbatim : Bool) (c : Char) : Bool :=
  isNameChar c || ";/?:@&=+$.%!~*'()".toList.contains c || verbatim && [',', '[', ']'].contains c

/-- The number of bytes that follow the first byte of a character. -/
def followingBytes? (byte : Nat) : Option Nat :=
  if byte < 0x80 then some 0
  else if byte / 0x20 = 6 then some 1
  else if byte / 0x10 = 14 then some 2
  else if byte / 0x08 = 30 then some 3
  else none

/-- Reads characters of a tag. A byte may be given by its number; so many bytes of a character are
due. What characters beyond the first 128 are does not matter. -/
def readTagText (verbatim : Bool) : (due : Nat) → List Char → List Char →
    Option (String × List Char)
  | due, found, '%' :: a :: b :: cs =>
    match Text.inBase? 16 [a, b] with
    | none => none
    | some byte =>
      if due = 0 then
        match followingBytes? byte with
        | none => none
        | some more =>
          readTagText verbatim more ((if more = 0 then Char.ofNat byte else '�') :: found) cs
      else if byte / 0x40 = 2 then readTagText verbatim (due - 1) found cs
      else none
  | due, found, c :: cs =>
    if due = 0 ∧ c ≠ '%' ∧ isTagChar verbatim c then readTagText verbatim 0 (c :: found) cs
    else if due = 0 ∧ c ≠ '%' then some (String.ofList found.reverse, c :: cs)
    else none
  | due, found, [] => if due = 0 then some (String.ofList found.reverse, []) else none

/-- The handles that need no directive, with what they stand for. -/
def standardHandles : List (String × String) :=
  [("!", "!"), ("!!", "tag:yaml.org,2002:")]

/-- A tag whose handle stands for the start of it. -/
def tagOf? (handles : List (String × String)) (handle suffix : String) : Option String :=
  ((handles ++ standardHandles).find? fun h => h.1 == handle).map fun h => h.2 ++ suffix

def readTag (handles : List (String × String)) (cs : List Char) : Option (String × List Char) :=
  match cs with
  | '<' :: cs =>
    match readTagText true 0 [] cs with
    | some (tag, '>' :: cs) => if tag.isEmpty then none else some (tag, cs)
    | _ => none
  | cs =>
    let name := cs.takeWhile isNameChar
    match cs.dropWhile isNameChar with
    | '!' :: rest =>
      (readTagText false 0 [] rest).bind fun (suffix, rest) =>
        if suffix.isEmpty then none
        else (tagOf? handles (String.ofList ('!' :: name ++ ['!'])) suffix).map fun tag =>
          (tag, rest)
    | _ =>
      (readTagText false 0 [] cs).bind fun (suffix, rest) =>
        if suffix.isEmpty then some ("!", rest)
        else (tagOf? handles "!" suffix).map fun tag => (tag, rest)

def readAnchor (cs : List Char) : Option (String × List Char) :=
  let name := cs.takeWhile isNameChar
  let rest := cs.dropWhile isNameChar
  if !name.isEmpty && (atBlank rest || rest.head?.any fun c => "?:,]\x7d%@`".toList.contains c) then
    some (String.ofList name, rest)
  else none

/-- What a directive says. -/
inductive Directive where
  | version (major minor : Nat)
  /-- A handle, and what it stands for. -/
  | handle (name start : String)
deriving Repr, DecidableEq

/-- Reads a number of at most nine digits. -/
def readNumber (cs : List Char) : Option (Nat × List Char) :=
  let digits := cs.takeWhile Char.isDigit
  if digits.length ≤ 9 then (Text.ofDigits? digits).map fun n =>
    (n, cs.dropWhile Char.isDigit) else none

def readVersion (cs : List Char) : Option (Directive × List Char) :=
  match readNumber (cs.dropWhile isBlank) with
  | some (major, '.' :: cs) => (readNumber cs).map fun (minor, cs) => (.version major minor, cs)
  | _ => none

def readHandle (cs : List Char) : Option (Directive × List Char) :=
  match cs.dropWhile isBlank with
  | '!' :: cs =>
    let name := cs.takeWhile isNameChar
    let handle := match cs.dropWhile isNameChar with
      | '!' :: rest => some ('!' :: name ++ ['!'], rest)
      | rest => if name.isEmpty then some (['!'], rest) else none
    handle.bind fun (handle, rest) =>
      if !rest.head?.any isBlank then none
      else
        (readTagText true 0 [] (rest.dropWhile isBlank)).bind fun (start, rest) =>
          if start.isEmpty || !atBlank rest then none
          else some (.handle (String.ofList handle) start, rest)
  | _ => none

/-- Reads a directive after its mark, with the line it stands on. -/
def readDirective (cs : List Char) : Option (Directive × List Char) :=
  let name := cs.takeWhile isNameChar
  let rest := cs.dropWhile isNameChar
  let found :=
    if !atBlank rest then none
    else if name = "YAML".toList then readVersion rest
    else if name = "TAG".toList then readHandle rest
    else none
  found.bind fun (directive, rest) => (afterLine? rest).map fun rest => (directive, rest)

end PlatformGuard.Yaml
