import PlatformGuard.Text.Double
import PlatformGuard.Toml.Basic

/-!
# TOML texts and numbers

Readers for what stands on the right of a key and is no array or table. Each takes what it reads off
the front of the characters.
-/

namespace PlatformGuard.Toml

/-- What a reader read, and the characters after it. -/
abbrev Read (α : Type) := Option (α × List Char)

/-- Whether a character may not stand in a text or comment. -/
def isControl (c : Char) : Bool :=
  (decide (c.toNat < 32) && c != '\t') || c.toNat == 127

def shortEscape? (c : Char) : Option Char :=
  match c with
  | 'b' => some '\x08'
  | 't' => some '\t'
  | 'n' => some '\n'
  | 'f' => some '\x0c'
  | 'r' => some '\r'
  | '"' => some '"'
  | '\\' => some '\\'
  | _ => none

def charOfNumber? (n : Nat) : Option Char :=
  if n.isValidChar then some (Char.ofNat n) else none

/-- What a text between double quotes is in the middle of. -/
inductive QuoteState where
  | plain
  | backslash
  /-- An escape by number, with so many digits due. -/
  | number (value due : Nat)
  /-- Blanks after a backslash, before the end of the line. -/
  | lineEnd
  /-- Blanks and empty lines after an escaped end of line. -/
  | skipping
deriving DecidableEq

/-- One step within an escape; the state after it and what it adds. -/
def escapeStep (state : QuoteState) (c : Char) : Option (QuoteState × List Char) :=
  match state with
  | .backslash =>
    if c = 'u' then some (.number 0 4, [])
    else if c = 'U' then some (.number 0 8, [])
    else (shortEscape? c).map fun e => (.plain, [e])
  | .number value due =>
    (Text.hexDigit? c).bind fun d =>
      if due ≤ 1 then (charOfNumber? (value * 16 + d)).map fun e => (.plain, [e])
      else some (.number (value * 16 + d) (due - 1), [])
  | _ => none

def readBasic : QuoteState → List Char → List Char → Read String
  | _, _, [] => none
  | .plain, found, c :: cs =>
    if c = '"' then some (String.ofList found.reverse, cs)
    else if c = '\\' then readBasic .backslash found cs
    else if isControl c then none
    else readBasic .plain (c :: found) cs
  | state, found, c :: cs =>
    match escapeStep state c with
    | some (next, added) => readBasic next (added ++ found) cs
    | none => none

def readLiteral : List Char → List Char → Read String
  | _, [] => none
  | found, c :: cs =>
    if c = '\'' then some (String.ofList found.reverse, cs)
    else if isControl c then none
    else readLiteral (c :: found) cs

/-- The end of a text between three quotes, where the characters start with them: up to two more
quotes belong to the text. -/
def closeTriple (quote : Char) (found cs : List Char) : Read String :=
  let extra := min 2 ((cs.drop 3).takeWhile (· == quote)).length
  some (String.ofList (List.replicate extra quote ++ found).reverse, cs.drop (3 + extra))

def startsTriple (quote : Char) (cs : List Char) : Bool :=
  [quote, quote, quote].isPrefixOf cs

def readMultiline : QuoteState → List Char → List Char → Read String
  | _, _, [] => none
  | .plain, found, c :: cs =>
    if startsTriple '"' (c :: cs) then closeTriple '"' found (c :: cs)
    else if c = '\\' then readMultiline .backslash found cs
    else if c = '\n' then readMultiline .plain (c :: found) cs
    else if c = '\r' then (if cs.head? = some '\n' then readMultiline .plain found cs else none)
    else if isControl c then none
    else readMultiline .plain (c :: found) cs
  | .skipping, found, c :: cs =>
    if startsTriple '"' (c :: cs) then closeTriple '"' found (c :: cs)
    else if c = ' ' ∨ c = '\t' ∨ c = '\n' then readMultiline .skipping found cs
    else if c = '\r' then (if cs.head? = some '\n' then readMultiline .skipping found cs else none)
    else if c = '\\' then readMultiline .backslash found cs
    else if isControl c then none
    else readMultiline .plain (c :: found) cs
  | .lineEnd, found, c :: cs =>
    if c = ' ' ∨ c = '\t' then readMultiline .lineEnd found cs
    else if c = '\n' then readMultiline .skipping found cs
    else if c = '\r' then (if cs.head? = some '\n' then readMultiline .lineEnd found cs else none)
    else none
  | state, found, c :: cs =>
    if state = .backslash ∧ (c = ' ' ∨ c = '\t') then readMultiline .lineEnd found cs
    else if state = .backslash ∧ c = '\n' then readMultiline .skipping found cs
    else if state = .backslash ∧ c = '\r' then
      (if cs.head? = some '\n' then readMultiline .lineEnd found cs else none)
    else
      match escapeStep state c with
      | some (next, added) => readMultiline next (added ++ found) cs
      | none => none

/-- The rest of a text between three single quotes. -/
def readMultilineLiteral : List Char → List Char → Read String
  | _, [] => none
  | found, c :: cs =>
    if startsTriple '\'' (c :: cs) then closeTriple '\'' found (c :: cs)
    else if c = '\n' then readMultilineLiteral (c :: found) cs
    else if c = '\r' then (if cs.head? = some '\n' then readMultilineLiteral found cs else none)
    else if isControl c then none
    else readMultilineLiteral (c :: found) cs

/-- Without the line break right after opening quotes. -/
def dropFirstBreak : List Char → List Char
  | '\n' :: cs => cs
  | '\r' :: '\n' :: cs => cs
  | cs => cs

def readString (cs : List Char) : Read String :=
  if startsTriple '"' cs then readMultiline .plain [] (dropFirstBreak (cs.drop 3))
  else if startsTriple '\'' cs then readMultilineLiteral [] (dropFirstBreak (cs.drop 3))
  else
    match cs with
    | '"' :: rest => readBasic .plain [] rest
    | '\'' :: rest => readLiteral [] rest
    | _ => none

/-! ## Numbers and dates -/

/-- The value of digits in a base, with single underscores between them. -/
def digitsInBase? (base : Nat) (cs : List Char) : Option Nat :=
  let groups := Text.splitOn '_' cs
  if groups.any List.isEmpty then none else Text.inBase? base groups.flatten

/-- A decimal number without a leading zero. -/
def decimal? (cs : List Char) : Option Nat :=
  match cs with
  | '0' :: _ :: _ => none
  | cs => digitsInBase? 10 cs

/-- A sign and what follows it. -/
def signed (cs : List Char) : Int × List Char :=
  match cs with
  | '-' :: rest => (-1, rest)
  | '+' :: rest => (1, rest)
  | cs => (1, cs)

def integer? (cs : List Char) : Option Int :=
  let value := match cs with
    | '0' :: 'x' :: ds => (digitsInBase? 16 ds).map Int.ofNat
    | '0' :: 'o' :: ds => (digitsInBase? 8 ds).map Int.ofNat
    | '0' :: 'b' :: ds => (digitsInBase? 2 ds).map Int.ofNat
    | cs => (decimal? (signed cs).2).map fun n => (signed cs).1 * n
  value.filter fun n => decide (-9223372036854775808 ≤ n) && decide (n ≤ 9223372036854775807)

/-- The exponent after its mark; zero where there is none. -/
def exponent? (cs : List Char) : Option Int :=
  match cs with
  | [] => some 0
  | e :: rest =>
    if e = 'e' ∨ e = 'E' then (digitsInBase? 10 (signed rest).2).map fun n =>
      (signed rest).1 * n else none

/-- The size of a number with a fraction or an exponent: a natural number, and the power of
ten to multiply it by. -/
def magnitude? (cs : List Char) : Option (Nat × Int) :=
  let isPart := fun c : Char => c.isDigit || c == '_'
  let whole := cs.takeWhile isPart
  match decimal? whole, cs.dropWhile isPart with
  | some _, '.' :: rest =>
    let places := rest.takeWhile isPart
    match digitsInBase? 10 places, exponent? (rest.dropWhile isPart) with
    | some _, some e =>
      let digits := fun cs : List Char => cs.filter Char.isDigit
      (Text.ofDigits? (digits (whole ++ places))).map fun n => (n, e - (digits places).length)
    | _, _ => none
  | some n, mark :: rest => (exponent? (mark :: rest)).map fun e => (n, e)
  | _, _ => none

/-- Whether the characters are a number with a fraction or an exponent. One that is too great is
refused, unless it is negative. -/
def isFloat (cs : List Char) : Bool :=
  let body := (signed cs).2
  body == "inf".toList || body == "nan".toList ||
    (magnitude? body).any fun size => (signed cs).1 == -1 || !Text.exceedsDouble size.1 size.2

def fixedDigits? (count : Nat) (cs : List Char) : Option Nat :=
  if cs.length = count then Text.ofDigits? cs else none

def daysInMonth (year month : Nat) : Nat :=
  if month = 2 then (if year % 4 = 0 ∧ (year % 100 ≠ 0 ∨ year % 400 = 0) then 29 else 28)
  else if month = 4 ∨ month = 6 ∨ month = 9 ∨ month = 11 then 30
  else 31

/-- Whether the characters are a date: `2024-02-29`. -/
def isDate (cs : List Char) : Bool :=
  match Text.splitOn '-' cs with
  | [year, month, day] =>
    match fixedDigits? 4 year, fixedDigits? 2 month, fixedDigits? 2 day with
    | some year, some month, some day =>
      decide (1 ≤ month ∧ month ≤ 12 ∧ 1 ≤ day ∧ day ≤ daysInMonth year month)
    | _, _, _ => false
  | _ => false

/-- Whether the characters are a time of day: `07:32:00` with or without a fraction. -/
def isTime (cs : List Char) : Bool :=
  let whole := cs.takeWhile (· != '.')
  let fraction := cs.dropWhile (· != '.')
  (match fraction with
    | [] => true
    | _ :: ds => (Text.ofDigits? ds).isSome) &&
  match Text.splitOn ':' whole with
  | [hour, minute, second] =>
    match fixedDigits? 2 hour, fixedDigits? 2 minute, fixedDigits? 2 second with
    | some hour, some minute, some second => decide (hour ≤ 23 ∧ minute ≤ 59 ∧ second ≤ 60)
    | _, _, _ => false
  | _ => false

/-- Whether the characters are an offset from universal time: `+02:00`. -/
def isOffset (cs : List Char) : Bool :=
  match Text.splitOn ':' cs with
  | [hour, minute] =>
    match fixedDigits? 2 hour, fixedDigits? 2 minute with
    | some hour, some minute => decide (hour ≤ 23 ∧ minute ≤ 59)
    | _, _ => false
  | _ => false

/-- Whether the characters are a time of day, with an offset or without. -/
def isOffsetTime (cs : List Char) : Bool :=
  let isSign := fun c : Char => c == '+' || c == '-'
  match cs.getLast? with
  | some c =>
    if c = 'Z' ∨ c = 'z' then isTime cs.dropLast
    else
      match cs.dropWhile fun c => !isSign c with
      | _ :: offset => isTime (cs.takeWhile fun c => !isSign c) && isOffset offset
      | [] => isTime cs
  | none => false

def isDateTime (cs : List Char) : Bool :=
  isDate cs || isTime cs ||
    (isDate (cs.take 10) &&
      match cs.drop 10 with
      | c :: rest => (c == 'T' || c == 't' || c == ' ') && isOffsetTime rest
      | [] => false)

def isPlainChar (c : Char) : Bool :=
  c.isAlphanum || c == '+' || c == '-' || c == '_' || c == '.' || c == ':'

/-- The value that characters without quotes are. A date is a table of its own sort. -/
def plainValue? (cs : List Char) : Option Toml :=
  if cs = "true".toList then some (.boolean true)
  else if cs = "false".toList then some (.boolean false)
  else
    match integer? cs with
    | some n => some (.integer n)
    | none =>
      if isFloat cs then some .float
      else if isDateTime cs then some (.table .inline [("$date", .string (String.ofList cs))])
      else none

/-- A value without quotes. A blank may stand between a date and a time. -/
def readPlain (cs : List Char) : Read Toml :=
  let run := cs.takeWhile isPlainChar
  let rest := cs.dropWhile isPlainChar
  match rest with
  | ' ' :: time =>
    if isDate run && (time.head?.any Char.isDigit) then
      (plainValue? (run ++ ' ' :: time.takeWhile isPlainChar)).map fun v =>
      (v, time.dropWhile isPlainChar)
    else (plainValue? run).map fun v => (v, rest)
  | rest => (plainValue? run).map fun v => (v, rest)

end PlatformGuard.Toml
