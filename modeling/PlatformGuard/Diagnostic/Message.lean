import PlatformGuard.Worlds

/-!
# The words of a diagnostic

Version ranges, sets and worlds as a user reads them, and the sentence of each rule.
-/

namespace PlatformGuard.Message

/-- `'windows' 10.0 and later`, `'windows' before 10.0`, `'windows' from 10.0 to
11.0`, or `'linux'` alone. -/
def describeRange (platform : PlatformName) (range : VersionRange) : String :=
  let quoted := "'" ++ platform.text ++ "'"
  match range.start.isZero, range.stop with
  | true, none => quoted
  | false, none => quoted ++ " " ++ range.start.text ++ " and later"
  | true, some stop => quoted ++ " before " ++ stop.text
  | false, some stop => quoted ++ " from " ++ range.start.text ++ " to " ++ stop.text

/-- The ranges of a set with commas between. -/
def describeSet (platform : PlatformName) (versions : VersionSet) : String :=
  ", ".intercalate (versions.ranges.map (describeRange platform))

/-- The platforms a use can run on. -/
def describeWorlds (w : Worlds) : String :=
  if w.others then "all platforms"
  else ", ".intercalate (w.reachablePlatforms.map fun e => describeSet e.1 e.2)

/-- Where a use can be reached, and the start of what is wrong with its target. -/
def opening (reachability target : String) : String :=
  "This call site is reachable on " ++ reachability ++ ". '" ++ target ++ "' "

def onlySupported (reachability target allowed : String) : String :=
  opening reachability target ++ "is only supported on: " ++ allowed ++ "."

def unsupported (reachability target denied : String) : String :=
  opening reachability target ++ "is unsupported on: " ++ denied ++ "."

/-- The sentence, then the author's own message and, in brackets, an address. -/
def obsoleted (reachability target obsolete : String) (message url : Option String) : String :=
  opening reachability target ++ "has been marked obsolete on: " ++ obsolete ++ "." ++
    (match message with
      | some m => " " ++ m
      | none => "") ++
    (match url with
      | some u => " (" ++ u ++ ")"
      | none => "")

end PlatformGuard.Message
