import PlatformGuard.Json.Numeral

/-!
# Values as far as a text says them

A text may break off or go wrong within a value. What stands before that place is still there to be
read, and a reader that finds something wrong with it stops there and never comes to the break. So a
text is first taken for a draft of a value, in which the place where it breaks is a hole; which
error the text has is found when the draft is read.

A reader also passes over values that nobody asks for. It then takes them less exactly, so
a hole has two errors.
-/

namespace PlatformGuard

/-- What can be wrong with a JSON text, or with a value that is read from it. -/
inductive JsonError where
  /-- The text ends too early. -/
  | endOfText
  /-- The text is no JSON, or none that can be held. -/
  | malformed
  /-- The value has the wrong shape. -/
  | mismatch
deriving Repr, DecidableEq, Inhabited

namespace Json

/-- The errors of a place where a text breaks: where it is read, and where it is passed over. -/
structure Fault where
  read : JsonError
  skipped : JsonError
deriving Repr, DecidableEq

/-- The same error for every reader. -/
def Fault.always (e : JsonError) : Fault := ⟨e, e⟩

/-- How an array or object ends. -/
inductive Close where
  | closed
  /-- Neither a comma nor the closing bracket follows. -/
  | cut (error : JsonError)
deriving Repr, DecidableEq

/-- The key of an entry. -/
inductive DraftKey where
  /-- A text; none when its escapes name half of a surrogate pair. -/
  | text (value : Option String)
  /-- No text, where one is due: its faults, and the error if a value is read here,
  which has to be a text. -/
  | broken (fault : Fault) (asValue : JsonError)
deriving Repr, DecidableEq

/-- A value as far as a text says it. -/
inductive Draft where
  | null
  | bool (value : Bool)
  | number (value : Numeral)
  /-- A text; none when its escapes name half of a surrogate pair. -/
  | text (value : Option String)
  | array (items : List Draft) (close : Close)
  | object (entries : List (DraftKey × Draft)) (close : Close)
  /-- No value, where one is due: the character that stands there, unless the text ends, and its
  faults. -/
  | broken (start : Option Char) (fault : Fault)

namespace Draft

instance : Inhabited Draft := ⟨null⟩

/-- The hole at the end of a text. -/
def absent : Draft := broken none (.always .endOfText)

/-- The error where a value of another shape is due. A bracket is enough to see that. -/
def refusal : Draft → JsonError
  | number n => if n.isInRange then .mismatch else .malformed
  | text none => .malformed
  | broken _ fault => fault.read
  | null | bool _ | text (some _) | array _ _ | object _ _ => .mismatch

end Draft

end Json

end PlatformGuard
