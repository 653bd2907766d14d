import PlatformGuard.Text.Decimal

/-!
# Source positions

Where things stand in a source file: a line, a column, and an offset from the start of the file. A
span runs from one position to another.
-/

namespace PlatformGuard

/-- A place in a source file. -/
structure Position where
  line : UInt64 := 0
  column : UInt64 := 0
  offset : UInt64 := 0
deriving Repr, DecidableEq, Inhabited

namespace Position

/-- How two positions compare: by line, then column, then offset. -/
def cmp (a b : Position) : Ordering :=
  (compare a.line.toNat b.line.toNat).then
    ((compare a.column.toNat b.column.toNat).then (compare a.offset.toNat b.offset.toNat))

/-- `line:column`. -/
def text (p : Position) : String :=
  Text.number p.line.toNat ++ ":" ++ Text.number p.column.toNat

end Position

/-- From one place of a source file to another. -/
structure Span where
  start : Position := {}
  stop : Position := {}
deriving Repr, DecidableEq, Inhabited

namespace Span

def onLine (line column length : UInt64) : Span :=
  ⟨⟨line, column, 0⟩, ⟨line, column + length, 0⟩⟩

/-- The length of a span on one line; a span over several lines, or backwards, has none. -/
def length (s : Span) : UInt64 :=
  if s.start.line = s.stop.line ∧ s.start.column ≤ s.stop.column then
    s.stop.column - s.start.column
  else 0

/-- Whether the span ends where it starts. -/
def isEmpty (s : Span) : Bool :=
  s.start = s.stop

end Span

end PlatformGuard
