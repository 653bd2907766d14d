import PlatformGuard.Json.Parse

/-!
# Shapes of values

What a program expects of a value, down to the last field, and how a draft is held against it.

A draft is gone through in the order of its text, and the first thing that is wrong gives the error:
a value of another shape, a number out of range, a bracket too many, or the hole. Values that are
read may be nested up to a limit. Fields that nobody knows are passed over, however deep they are.

A record is an object, or an array of its fields in order. A value of an enumeration is its name, or
an object that gives null to its name. A tagged value is an object with a tag, or an array that
starts with one; since the tag may stand last, it is taken in as a whole before it is looked at.
-/

namespace PlatformGuard.Json

/-- Whether a field of a record may be left out. -/
inductive Presence where
  | required
  /-- An object may leave it out, an array may not. -/
  | nullable
  | optional
deriving Repr, DecidableEq

/-- What is expected of a value. -/
inductive Shape where
  | boolean
  | text
  /-- A natural number below a bound. -/
  | natural (bound : Nat)
  /-- A natural number of 128 bits. Anything else in its place breaks the text. -/
  | wide
  /-- One of the names of an enumeration. -/
  | name (names : List String)
  /-- A value, or null. -/
  | nullable (shape : Shape)
  | list (item : Shape)
  /-- An array with one item a shape. -/
  | tuple (items : List Shape)
  /-- An object with any keys. -/
  | entries (value : Shape)
  | record (fields : List (String × Presence × Shape))
  /-- A tagged value: the key of the tag, the tags, and whether a whole value will do. -/
  | tagged (tag : String) (tags : List String) (accepts : Json → Bool)
  /-- Any value. -/
  | anything

/-- The deepest nesting of values that are read. -/
def nestingLimit : Nat := 127

/-- A shape without what says that null will do as well. -/
def Shape.base : Shape → Shape
  | nullable s => s.base
  | s => s

/-- What was found in an array or object, if it is closed. -/
def Close.finish {α : Type} (found : α) : Close → Except JsonError α
  | closed => .ok found
  | cut e => .error e

def DraftKey.read : DraftKey → Except JsonError String
  | text (some k) => .ok k
  | text none => .error .malformed
  | broken fault _ => .error fault.read

namespace Draft

/-! ## Passing over -/

mutual
def skip : Draft → Except JsonError Unit
  | array items close => skipItems items close
  | object entries close => skipEntries entries close
  | broken _ fault => .error fault.skipped
  | null | bool _ | number _ | text _ => .ok ()

def skipItems : List Draft → Close → Except JsonError Unit
  | [], close => close.finish ()
  | d :: rest, close => (skip d).bind fun _ => skipItems rest close

def skipEntries : List (DraftKey × Draft) → Close → Except JsonError Unit
  | [], close => close.finish ()
  | (.broken fault _, _) :: _, _ => .error fault.skipped
  | (.text _, d) :: rest, close => (skip d).bind fun _ => skipEntries rest close
end

/-! ## Reading anything -/

mutual
/-- Any value, with so many brackets to be opened yet. -/
def anything (left : Nat) : Draft → Except JsonError Json
  | null => .ok .null
  | bool b => .ok (.bool b)
  | number n => if n.isInRange then .ok n.value else .error .malformed
  | text (some s) => .ok (.text s)
  | text none => .error .malformed
  | broken _ fault => .error fault.read
  | array items close =>
    if left = 0 then .error .malformed else (anyItems (left - 1) items close).map Json.array
  | object entries close =>
    if left = 0 then .error .malformed else (anyEntries (left - 1) entries close).map Json.object

def anyItems (left : Nat) : List Draft → Close → Except JsonError (List Json)
  | [], close => close.finish []
  | d :: rest, close => do
    let v ← anything left d
    let vs ← anyItems left rest close
    return v :: vs

def anyEntries (left : Nat) : List (DraftKey × Draft) → Close →
    Except JsonError (List (String × Json))
  | [], close => close.finish []
  | (k, d) :: rest, close => do
    let k ← k.read
    let v ← anything left d
    let vs ← anyEntries left rest close
    return (k, v) :: vs
end

/-! ## Reading a shape -/

def namedText (names : List String) : Draft → Except JsonError Json
  | text (some s) => if s ∈ names then .ok (.text s) else .error .mismatch
  | d => .error d.refusal

/-- A value that is no array and no object. -/
def scalar (s : Shape) (d : Draft) : Except JsonError Json :=
  match s, d with
  | .nullable _, null => .ok .null
  | .nullable _, broken (some 'n') fault => .error fault.read
  | s, d =>
    match s.base, d with
    | .boolean, bool b => .ok (.bool b)
    | .text, text (some t) => .ok (.text t)
    | .natural bound, number n =>
      match n.value with
      | .int v => if 0 ≤ v ∧ v < bound then .ok (.int v) else .error d.refusal
      | _ => .error d.refusal
    | .wide, number n =>
      match n.value with
      | .int v =>
        if 0 ≤ v ∧ v < 340282366920938463463374607431768211456 then .ok (.int v)
        else .error .malformed
      | _ => .error .malformed
    | .wide, broken none fault => .error fault.read
    | .wide, _ => .error .malformed
    | .name names, text t => namedText names (text t)
    | .name _, broken (some '"') fault | .name _, broken none fault => .error fault.read
    | .name _, _ => .error .malformed
    | .anything, d => anything 0 d
    | _, d => .error d.refusal

/-- A name given as an object, after its bracket. -/
def namedEntry (names : List String) : List (DraftKey × Draft) → Close → Except JsonError Json
  | [], .closed => .error .malformed
  | [], .cut e => .error e
  | (.broken _ e, _) :: _, _ => .error e
  | (.text none, _) :: _, _ => .error .malformed
  | (.text (some k), d) :: rest, close =>
    if k ∉ names then .error .mismatch
    else
      match d, rest with
      | null, [] => close.finish (.object [(k, .null)])
      | null, _ :: _ => .error .malformed
      | d, _ => .error d.refusal

def taggedEntries (left : Nat) (tag : String) (tags : List String) (tagSeen : Bool) :
    List (DraftKey × Draft) → Close → Except JsonError (List (String × Json))
  | [], close => do
    close.finish ()
    if tagSeen then return [] else throw .mismatch
  | (k, d) :: rest, close => do
    let k ← k.read
    if k = tag then
      if tagSeen then throw .mismatch
      let v ← namedText tags d
      let vs ← taggedEntries left tag tags true rest close
      return (k, v) :: vs
    else
      let v ← anything left d
      let vs ← taggedEntries left tag tags tagSeen rest close
      return (k, v) :: vs

def taggedItems (left : Nat) (tags : List String) :
    List Draft → Close → Except JsonError (List Json)
  | [], close => do
    close.finish ()
    throw .mismatch
  | d :: rest, close => do
    let v ← namedText tags d
    let vs ← anyItems left rest close
    return v :: vs

/-- A tagged value as a whole, if it will do. -/
def accepted (accepts : Json → Bool) (v : Json) : Except JsonError Json :=
  if accepts v then .ok v else .error .mismatch

mutual
/-- Holds a draft against a shape, with so many brackets to be opened yet. What is passed over is
left out of the value. -/
def check (left : Nat) (s : Shape) : Draft → Except JsonError Json
  | array items close =>
    match s.base with
    | .wide | .name _ => .error .malformed
    | .list item =>
      if left = 0 then .error .malformed
      else (checkItems (left - 1) item items close).map Json.array
    | .record fields =>
      if left = 0 then .error .malformed
      else (checkPlaces (left - 1) (fields.map (·.2)) items close).map Json.array
    | .tuple shapes =>
      if left = 0 then .error .malformed
      else (checkPlaces (left - 1) (shapes.map fun s => (.required, s)) items close).map Json.array
    | .tagged _ tags accepts =>
      if left = 0 then .error .malformed
      else (taggedItems (left - 1) tags items close).bind fun vs => accepted accepts (.array vs)
    | .anything => anything left (array items close)
    | _ => .error .mismatch
  | object entries close =>
    match s.base with
    | .wide => .error .malformed
    | .name names => if left = 0 then .error .malformed else namedEntry names entries close
    | .entries value =>
      if left = 0 then .error .malformed
      else (checkEntries (left - 1) value entries close).map Json.object
    | .record fields =>
      if left = 0 then .error .malformed
      else (checkFields (left - 1) fields [] entries close).map Json.object
    | .tagged tag tags accepts =>
      if left = 0 then .error .malformed
      else (taggedEntries (left - 1) tag tags false entries close).bind fun vs =>
        accepted accepts (.object vs)
    | .anything => anything left (object entries close)
    | _ => .error .mismatch
  | d => scalar s d

def checkItems (left : Nat) (item : Shape) : List Draft → Close → Except JsonError (List Json)
  | [], close => close.finish []
  | d :: rest, close => do
    let v ← check left item d
    let vs ← checkItems left item rest close
    return v :: vs

def checkPlaces (left : Nat) (places : List (Presence × Shape)) :
    List Draft → Close → Except JsonError (List Json)
  | [], close => do
    close.finish ()
    if places.all fun p => p.1 == .optional then return [] else throw .mismatch
  | d :: rest, close =>
    match places with
    | [] => .error .malformed
    | (_, s) :: places => do
      let v ← check left s d
      let vs ← checkPlaces left places rest close
      return v :: vs

def checkEntries (left : Nat) (value : Shape) :
    List (DraftKey × Draft) → Close → Except JsonError (List (String × Json))
  | [], close => close.finish []
  | (k, d) :: rest, close => do
    let k ← k.read
    let v ← check left value d
    let vs ← checkEntries left value rest close
    return (k, v) :: vs

/-- The fields of a record that is written as an object, after those already seen. -/
def checkFields (left : Nat) (fields : List (String × Presence × Shape)) (seen : List String) :
    List (DraftKey × Draft) → Close → Except JsonError (List (String × Json))
  | [], close => do
    close.finish ()
    if fields.all fun f => f.2.1 != .required || seen.contains f.1 then return []
    else throw .mismatch
  | (k, d) :: rest, close => do
    let k ← k.read
    match fields.find? fun f => f.1 == k with
    | none =>
      skip d
      checkFields left fields seen rest close
    | some (_, _, s) =>
      if seen.contains k then throw .mismatch
      let v ← check left s d
      let vs ← checkFields left fields (k :: seen) rest close
      return (k, v) :: vs
end

end Draft

/-- Holds a text against a shape. -/
def Document.check (d : Document) (s : Shape) : Except JsonError Json := do
  let v ← d.value.check nestingLimit s
  if d.more then throw .malformed else return v

end PlatformGuard.Json
