import PlatformGuard.Json.Read
import PlatformGuard.Version.Set

/-!
# Versions as JSON

A version is its four components and how many of them were written; a range has its two bounds; a
set is the list of its ranges, which need not be in order when it is read.
-/

namespace PlatformGuard

open Json

def readComponents : Json → Except JsonError (UInt32 × UInt32 × UInt32 × UInt32)
  | .array [a, b, c, d] =>
    do return (← readUInt32 a, ← readUInt32 b, ← readUInt32 c, ← readUInt32 d)
  | _ => .error .mismatch

namespace Version

def toJson (v : Version) : Json :=
  .object [("parts", .list (fun c : UInt32 => .nat c.toNat) v.allComponents),
    ("len", .nat v.written)]

def ofJson (v : Json) : Except JsonError Version := do
  let r ← readRecord ["parts", "len"] v
  let (major, minor, build, revision) ← r.required "parts" readComponents
  let written ← r.required "len" readUInt8
  return { major, minor, build, revision, written := written.toNat }

def form : Form Version where
  shape := .record
    [("parts", .required, .tuple (List.replicate 4 (.natural UInt32.size))),
      ("len", .required, .natural UInt8.size)]
  read := ofJson

end Version

namespace VersionRange

def toJson (r : VersionRange) : Json :=
  .object [("start", r.start.toJson), ("end", .orNull Version.toJson r.stop)]

def ofJson (v : Json) : Except JsonError VersionRange := do
  let r ← readRecord ["start", "end"] v
  return ⟨← r.required "start" Version.ofJson, ← r.nullable "end" Version.ofJson⟩

end VersionRange

namespace VersionSet

def toJson (s : VersionSet) : Json :=
  .list VersionRange.toJson s.ranges

/-- The ranges in any order, put into normal form. -/
def ofJson (v : Json) : Except JsonError VersionSet :=
  (readList VersionRange.ofJson v).map ofRanges

end VersionSet

end PlatformGuard
