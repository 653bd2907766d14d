import PlatformGuard.Report.Output

/-!
# What commands need from their surroundings

Commands are written once for every host. A host gives access to files and takes what is printed.
`FileTree` is a host in memory, so that what a command does to files can be stated and tested.
-/

namespace PlatformGuard

/-- What a path leads to. -/
inductive PathKind where
  | file
  | folder
deriving Repr, DecidableEq

/-- What is told to the user beside the output. -/
inductive Notice where
  | success (text : String)
  | warning (text : String)
  | failure (text : String)
  /-- The end of an analysis and the milliseconds it took. -/
  | finished (milliseconds : Nat)
  /-- The arguments were wrong. -/
  | usage (text : String)
  /-- How the program is used, on demand. -/
  | help (text : String)
deriving Repr, DecidableEq

/-- A notice as a line, or as several where it has line breaks. -/
def Notice.line : Notice → String
  | success text => "✅ " ++ text
  | warning text => "⚠️ " ++ text
  | failure text => "Error: " ++ text
  | finished milliseconds => "ℹ️ Analysis finished in " ++ durationText milliseconds
  | usage text | help text => text

/-- What a host offers. -/
structure Host (m : Type → Type) where
  /-- The bytes of a file. -/
  read : String → m (Option ByteArray)
  /-- What is at a path. -/
  kind : String → m (Option PathKind)
  /-- The paths of all files under a folder. -/
  files : String → m (Option (List String))
  /-- Makes or replaces a file, if that is possible. -/
  write : String → String → m Bool
  print : String → m Unit
  tell : Notice → m Unit
  /-- Milliseconds since some moment. -/
  clock : m Nat

/-- Files and folders in memory, each by the names that lead to it. -/
structure FileTree where
  files : List (List String × String) := []
  folders : List (List String) := []

namespace FileTree

def parts (path : String) : List String :=
  (Text.splitOn '/' path.toList).map String.ofList

def content? (t : FileTree) (names : List String) : Option String :=
  (t.files.find? fun f => f.1 == names).map (·.2)

/-- Whether there is a folder, for itself or for what is in it. -/
def isFolder (t : FileTree) (names : List String) : Bool :=
  names.isEmpty || t.folders.any names.isPrefixOf ||
    t.files.any fun f => names.isPrefixOf f.1 && f.1 != names

/-- The names that lead to what a path means, from a folder on. A file can only be the last part. -/
def resolveFrom (t : FileTree) : List String → List String → Option (List String)
  | folder, [] => some folder
  | folder, part :: rest =>
    if part = "" ∨ part = "." then resolveFrom t folder rest
    else if part = ".." then (if folder.isEmpty then none else resolveFrom t folder.dropLast rest)
    else if t.isFolder (folder ++ [part]) then resolveFrom t (folder ++ [part]) rest
    else if rest.isEmpty then some (folder ++ [part])
    else none

/-- The names that lead to what a path means, which need not be there. Paths from the root of
a machine lead nowhere. -/
def resolve (t : FileTree) (path : String) : Option (List String) :=
  if path.toList.head?.all (· == '/') then none else t.resolveFrom [] (parts path)

def kind? (t : FileTree) (path : String) : Option PathKind :=
  (t.resolve path).bind fun names =>
    if t.isFolder names then some .folder
    else if (t.content? names).isSome then some .file
    else none

def read? (t : FileTree) (path : String) : Option String :=
  (t.resolve path).bind t.content?

/-- Makes or replaces the file at a path. -/
def write? (t : FileTree) (path content : String) : Option FileTree :=
  (t.resolve path).bind fun names =>
    if t.isFolder names then none
    else some { t with files := (t.files.filter fun f => f.1 != names) ++ [(names, content)] }

def filesUnder (t : FileTree) (path : String) : List String :=
  match t.resolve path with
  | none => []
  | some names =>
    let start := if path.toList.getLast? = some '/' then path else path ++ "/"
    (t.files.filter fun f => names.isPrefixOf f.1).map fun f =>
    start ++ "/".intercalate (f.1.drop names.length)

/-- A tree from paths and contents. A path that ends in a slash is a folder. -/
def ofEntries (entries : List (String × String)) : FileTree :=
  entries.foldl (fun t e =>
    let names := (parts e.1).filter (· != "")
    if e.1.toList.getLast? = some '/' then { t with folders := t.folders ++ [names] }
    else { t with files := t.files ++ [(names, e.2)] }) {}

end FileTree

/-- A host in memory: the files, and what was printed and told. -/
structure Desk where
  tree : FileTree
  output : String := ""
  notices : List Notice := []

/-- The host in memory, where no time passes. -/
def Desk.host : Host (StateM Desk) where
  read path := return ((← get).tree.read? path).map String.toUTF8
  kind path := return (← get).tree.kind? path
  files path := return some ((← get).tree.filesUnder path)
  write path content := do
    match (← get).tree.write? path content with
    | some tree =>
      modify fun desk => { desk with tree }
      return true
    | none => return false
  print text := modify fun desk => { desk with output := desk.output ++ text }
  tell notice := modify fun desk => { desk with notices := desk.notices ++ [notice] }
  clock := return 0

end PlatformGuard
