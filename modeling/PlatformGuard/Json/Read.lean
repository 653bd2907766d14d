import PlatformGuard.Json.Shape

/-!
# Reading values from JSON

How numbers, texts, lists, enumerations and records are read from JSON values.

A record is an object, or an array of its fields in order. Of an object, fields nobody knows are
passed over, and a known field stands once. Some fields must be there; the others have a value when
they are left out. A value that does not have its shape gives one error, whatever is wrong with it.

A form puts the two together: the shape against which a text is held, and the reader for
the value that comes out.
-/

namespace PlatformGuard

/-- How a value comes to its reader. -/
inductive ReadMode where
  /-- Straight from where it stands. -/
  | direct
  /-- Out of a tagged value, which was taken in as a whole. -/
  | held
deriving Repr, DecidableEq

namespace Json

/-! ## Plain values -/

def readBool : Json → Except JsonError Bool
  | bool b => .ok b
  | _ => .error .mismatch

def readText : Json → Except JsonError String
  | text s => .ok s
  | _ => .error .mismatch

def readBelow (bound : Nat) : Json → Except JsonError Nat
  | int n => if 0 ≤ n ∧ n < bound then .ok n.toNat else .error .mismatch
  | _ => .error .mismatch

def readUInt8 (v : Json) : Except JsonError UInt8 :=
  (readBelow UInt8.size v).map Nat.toUInt8

def readUInt32 (v : Json) : Except JsonError UInt32 :=
  (readBelow UInt32.size v).map Nat.toUInt32

def readUInt64 (v : Json) : Except JsonError UInt64 :=
  (readBelow UInt64.size v).map Nat.toUInt64

def readInt64 : Json → Except JsonError Int64
  | int n =>
    if -9223372036854775808 ≤ n ∧ n ≤ 9223372036854775807 then .ok (Int64.ofInt n)
    else .error .mismatch
  | _ => .error .mismatch

/-- A value, or nothing for null. -/
def readOption {α : Type} (read : Json → Except JsonError α) : Json → Except JsonError (Option α)
  | null => .ok none
  | v => (read v).map some

def readList {α : Type} (read : Json → Except JsonError α) : Json → Except JsonError (List α)
  | array items => items.mapM read
  | _ => .error .mismatch

def readEntries {α : Type} (read : Json → Except JsonError α) :
    Json → Except JsonError (List (String × α))
  | object entries => entries.mapM fun e => (read e.2).map fun v => (e.1, v)
  | _ => .error .mismatch

/-! ## Enumerations -/

/-- The value of a name in a list of names. -/
def tagged {α : Type} (names : List (String × α)) (name : String) : Except JsonError α :=
  match names.find? fun n => n.1 == name with
  | some n => .ok n.2
  | none => .error .mismatch

/-- A value of an enumeration: its name, or an object that gives null to its name. Out of a tagged
value, an empty object is as good as null. -/
def readTag {α : Type} (mode : ReadMode) (names : List (String × α)) (v : Json) :
    Except JsonError α :=
  match mode, v with
  | _, text s => tagged names s
  | _, object [(k, null)] => tagged names k
  | .held, object [(k, object [])] => tagged names k
  | _, _ => .error .mismatch

/-! ## Records -/

/-- The two ways to write a record. -/
inductive Layout (α : Type) where
  | named (entries : List (String × α))
  | positional (items : List α)
  | neither

def layout : Json → Layout Json
  | object entries => .named entries
  | array items => .positional items
  | _ => .neither

/-- The fields that a value gives to a record. -/
structure Record (α : Type) where
  /-- Whether it was written as an array. -/
  positional : Bool
  fields : List (String × α)

namespace Record

variable {α β : Type}

def addEntry (names : List String) (fields : List (String × α)) (entry : String × α) :
    Except JsonError (List (String × α)) :=
  if entry.1 ∈ names then
    if fields.any fun f => f.1 == entry.1 then .error .mismatch else .ok (fields ++ [entry])
  else .ok fields

def ofLayout (names : List String) : Layout α → Except JsonError (Record α)
  | .named entries => (entries.foldlM (addEntry names) []).map fun fields => ⟨false, fields⟩
  | .positional items =>
    if names.length < items.length then .error .mismatch else .ok ⟨true, names.zip items⟩
  | .neither => .error .mismatch

def find? (r : Record α) (name : String) : Option α :=
  (r.fields.find? fun f => f.1 == name).map (·.2)

def required (r : Record α) (name : String) (read : α → Except JsonError β) : Except JsonError β :=
  match r.find? name with
  | some v => read v
  | none => .error .mismatch

/-- A field with a value where it is left out. -/
def withDefault (r : Record α) (name : String) (otherwise : β) (read : α → Except JsonError β) :
    Except JsonError β :=
  match r.find? name with
  | some v => read v
  | none => .ok otherwise

/-- A field that may be null, and that an object may leave out. -/
def nullable (r : Record Json) (name : String) (read : Json → Except JsonError β) :
    Except JsonError (Option β) :=
  match r.find? name with
  | some v => readOption read v
  | none => if r.positional then .error .mismatch else .ok none

/-- A field that may be null or left out. -/
def optional (r : Record Json) (name : String) (read : Json → Except JsonError β) :
    Except JsonError (Option β) :=
  r.withDefault name none (readOption read)

end Record

def readRecord (names : List String) (v : Json) : Except JsonError (Record Json) :=
  Record.ofLayout names v.layout

/-! ## Forms -/

/-- How values of a type are written: their shape, and how one that has this shape is read. -/
structure Form (α : Type) where
  shape : Shape
  read : Json → Except JsonError α

namespace Form

variable {α : Type}

def ofDraft (f : Form α) (d : Draft) : Except JsonError α :=
  (d.check nestingLimit f.shape).bind f.read

def parse (f : Form α) (s : String) : Except JsonError α :=
  ((Document.ofText s).check f.shape).bind f.read

def bool : Form Bool := ⟨.boolean, readBool⟩

def text : Form String := ⟨.text, readText⟩

def natural (bound : Nat) : Form Nat := ⟨.natural bound, readBelow bound⟩

def name (names : List (String × α)) : Form α := ⟨.name (names.map (·.1)), readTag .direct names⟩

def orNull (f : Form α) : Form (Option α) := ⟨.nullable f.shape, readOption f.read⟩

def list (f : Form α) : Form (List α) := ⟨.list f.shape, readList f.read⟩

def entries (f : Form α) : Form (List (String × α)) := ⟨.entries f.shape, readEntries f.read⟩

/-- Any value, with one entry a key in every object. -/
def anything : Form Json := ⟨.anything, fun v => .ok v.withoutRepeats⟩

end Form

end Json

end PlatformGuard
