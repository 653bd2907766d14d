import PlatformGuard.Json.Draft

/-!
# Tokens of JSON texts

A text is cut into tokens, one character at a time. Numbers and words end where they cannot go on,
whatever follows. After the first thing that is no token, nothing is looked at.
-/

namespace PlatformGuard.Json

inductive Token where
  | openArray
  | closeArray
  | openObject
  | closeObject
  | comma
  | colon
  | null
  | bool (value : Bool)
  | number (value : Numeral)
  | text (value : Option String)
  /-- What is no token: the character it starts with, and its faults. -/
  | broken (start : Char) (fault : Fault)

/-! ## Texts -/

/-- What of a text was read: its characters, the latest first; the first half of a surrogate pair
that waits for its second; and whether some half stayed alone. -/
structure TextState where
  chars : List Char := []
  pending : Option Nat := none
  halved : Bool := false

namespace TextState

def push (s : TextState) (c : Char) : TextState :=
  { chars := c :: s.chars, pending := none, halved := s.halved || s.pending.isSome }

/-- After an escape with a number of sixteen bits. -/
def pushUnit (s : TextState) (n : Nat) : TextState :=
  if 0xD800 ≤ n ∧ n < 0xDC00 then
    { s with pending := some n, halved := s.halved || s.pending.isSome }
  else if 0xDC00 ≤ n ∧ n < 0xE000 then
    match s.pending with
    | some high =>
      { s with
        chars := Char.ofNat (0x10000 + (high - 0xD800) * 0x400 + (n - 0xDC00)) :: s.chars
        pending := none }
    | none => { s with halved := true }
  else s.push (Char.ofNat n)

def value (s : TextState) : Option String :=
  if s.halved || s.pending.isSome then none else some (String.ofList s.chars.reverse)

/-- The text breaks here. A reader has stopped before where a half stayed alone. -/
def broken (s : TextState) (e : JsonError) : Token :=
  .broken '"' ⟨if s.halved then .malformed else e, e⟩

end TextState

def shortEscape? (c : Char) : Option Char :=
  match c with
  | '"' => some '"'
  | '\\' => some '\\'
  | '/' => some '/'
  | 'b' => some '\x08'
  | 'f' => some '\x0c'
  | 'n' => some '\n'
  | 'r' => some '\r'
  | 't' => some '\t'
  | _ => none

def byteCount (cs : List Char) : Nat :=
  cs.foldl (fun n c => n + c.utf8Size) 0

/-! ## Scanning -/

/-- What the tokeniser is in the middle of. -/
inductive Scan where
  | between
  | inNumber (start : Char) (number : Numeral)
  /-- Within a word: the character it starts with, the letters that are due, and the token it is. -/
  | inWord (start : Char) (due : List Char) (word : Token)
  | inText (state : TextState)
  | afterBackslash (state : TextState)
  /-- Within an escape by number: the digits so far and how many are due. -/
  | inUnit (state : TextState) (value : Nat) (due : Nat)

/-- The token of a number that does not go on. Cut short by the end of the text, it is wrong for
whoever passes over it. -/
def numberToken (start : Char) (n : Numeral) (atEnd : Bool) : Token :=
  if n.isComplete then .number n
  else .broken start ⟨if atEnd then .endOfText else .malformed, .malformed⟩

/-- What a character starts: the middle of a token, or a token. -/
def startToken (c : Char) : Scan × List Token :=
  match c with
  | '[' => (.between, [.openArray])
  | ']' => (.between, [.closeArray])
  | '\x7b' => (.between, [.openObject])
  | '\x7d' => (.between, [.closeObject])
  | ',' => (.between, [.comma])
  | ':' => (.between, [.colon])
  | '"' => (.inText {}, [])
  | 'n' => (.inWord c ['u', 'l', 'l'] .null, [])
  | 't' => (.inWord c ['r', 'u', 'e'] (.bool true), [])
  | 'f' => (.inWord c ['a', 'l', 's', 'e'] (.bool false), [])
  | c =>
    if c = ' ' ∨ c = '\n' ∨ c = '\t' ∨ c = '\r' then (.between, [])
    else
      match Numeral.start? c with
      | some n => (.inNumber c n, [])
      | none => (.between, [.broken c (.always .malformed)])

/-- The tokens of a text from the middle of one on, after those already found, the latest first. -/
def tokensFrom : Scan → List Token → List Char → List Token
  | .between, found, [] => found.reverse
  | .inNumber start n, found, [] => (numberToken start n true :: found).reverse
  | .inWord start _ _, found, [] => (.broken start (.always .endOfText) :: found).reverse
  | .inText s, found, [] | .afterBackslash s, found, [] | .inUnit s _ _, found, [] =>
    (s.broken .endOfText :: found).reverse
  | .between, found, c :: cs =>
    let started := startToken c
    tokensFrom started.1 (started.2 ++ found) cs
  | .inNumber start n, found, c :: cs =>
    match n.push? c with
    | some more => tokensFrom (.inNumber start more) found cs
    | none =>
      if n.part = .zero ∧ c.isDigit then (.broken start (.always .malformed) :: found).reverse
      else
        let started := startToken c
        tokensFrom started.1 (started.2 ++ numberToken start n false :: found) cs
  | .inWord start due word, found, c :: cs =>
    if due.head? ≠ some c then (.broken start (.always .malformed) :: found).reverse
    else if due.tail.isEmpty then tokensFrom .between (word :: found) cs
    else tokensFrom (.inWord start due.tail word) found cs
  | .inText s, found, c :: cs =>
    if c = '"' then tokensFrom .between (.text s.value :: found) cs
    else if c = '\\' then tokensFrom (.afterBackslash s) found cs
    else if c.toNat < 32 then (s.broken .malformed :: found).reverse
    else tokensFrom (.inText (s.push c)) found cs
  | .afterBackslash s, found, c :: cs =>
    if c = 'u' then
      if byteCount (cs.take 4) < 4 then (s.broken .endOfText :: found).reverse
      else tokensFrom (.inUnit s 0 4) found cs
    else
      match shortEscape? c with
      | some e => tokensFrom (.inText (s.push e)) found cs
      | none => (s.broken .malformed :: found).reverse
  | .inUnit s value due, found, c :: cs =>
    match Text.hexDigit? c with
    | none => (s.broken .malformed :: found).reverse
    | some d =>
      if due ≤ 1 then tokensFrom (.inText (s.pushUnit (value * 16 + d))) found cs
      else tokensFrom (.inUnit s (value * 16 + d) (due - 1)) found cs

def tokens (s : String) : List Token :=
  tokensFrom .between [] s.toList

end PlatformGuard.Json
