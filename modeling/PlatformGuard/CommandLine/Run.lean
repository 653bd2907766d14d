import PlatformGuard.Analysis.Compilation
import PlatformGuard.CommandLine.Arguments
import PlatformGuard.CommandLine.Host
import PlatformGuard.Json.Compilation
import PlatformGuard.Json.Report
import PlatformGuard.Settings.File

/-!
# Running commands

What each command does on a host, and with which exit code it ends: 0 for success, 1 for findings
that are errors or for a command that failed, 2 for wrong arguments.
-/

namespace PlatformGuard

/-- Why a command failed. -/
inductive CommandError where
  | settings (error : SettingsError) (path : String)
  | noInput (path : String)
  | unlisted (path : String)
  | compilation (path : String)
  | output (path : String)
  | template (path : String)
  | problems (path : String) (count : Nat)
deriving Repr, DecidableEq

def CommandError.message : CommandError → String
  | settings error path => error.message path
  | noInput path => "Input path does not exist: " ++ path
  | unlisted path => "Failed to walk directory " ++ path
  | compilation path => "Failed to load compilation from " ++ path
  | output path => "Failed to create output file " ++ path
  | template path => "Failed to write configuration to " ++ path
  | problems path count => path ++ " has " ++ Text.number count ++ " problem(s)"

namespace Host

variable {m : Type → Type} [Monad m]

abbrev Action (m : Type → Type) := ExceptT CommandError m

def readSettings (host : Host m) (path : String) : Action m Settings := do
  match (← host.read path).bind String.fromUTF8? with
  | none => throw (.settings .unreadable path)
  | some text =>
    match Settings.ofFile path text with
    | .ok settings => return settings
    | .error e => throw (.settings e path)

/-- The settings in a file, with warnings about them, or the standard ones. -/
def chooseSettings (host : Host m) (path : Option String) : Action m Settings := do
  match path with
  | none => return .standard
  | some path =>
    let settings ← host.readSettings path
    settings.warnings.forM fun w => host.tell (.warning w)
    return settings

/-- Paths in the order of their parts. -/
def sortPaths (paths : List String) : List String :=
  paths.mergeSort fun a b => (compare (FileTree.parts a) (FileTree.parts b)).isLE

/-- The compilation files that a path stands for: itself, or all under it with the extension. -/
def compilationFiles (host : Host m) (path : String) : Action m (List String) := do
  match ← host.kind path with
  | none => throw (.noInput path)
  | some .file => return [path]
  | some .folder =>
    match ← host.files path with
    | none => throw (.unlisted path)
    | some files => return sortPaths (files.filter fun f => Text.extension? f == some "json")

def readCompilation (host : Host m) (path : String) : Action m Compilation := do
  match Compilation.ofFile (← host.read path) with
  | .ok compilation => return compilation
  | .error _ => throw (.compilation path)

/-- Analyses compilations and writes the report. Errors in it show in the exit code. -/
def analyze (host : Host m) (options : AnalyzeOptions) : Action m UInt32 := do
  let start ← host.clock
  let settings ← host.chooseSettings options.settings
  let settings := { settings with threads := options.threads.or settings.threads }
  let files ← host.compilationFiles options.path
  if files.isEmpty then
    host.tell (.warning ("No compilation files found in " ++ options.path))
    return 0
  let compilations ← files.mapM host.readCompilation
  let report := analyzeAll settings (compilations.map fun c => (c, {}))
  let report := { report with metadata.durationMs := (← host.clock) - start }
  let text := report.write false options.format
  match options.output with
  | none => host.print text
  | some path => if !(← host.write path text) then throw (.output path)
  if !options.quiet then host.tell (.finished ((← host.clock) - start))
  return if report.hasErrors then 1 else 0

/-- Writes a settings file to start from. -/
def generateSettings (host : Host m) (path : String) : Action m UInt32 := do
  if !(← host.write path Settings.template) then throw (.template path)
  host.tell (.success ("Configuration template written to " ++ path))
  return 0

def validateSettings (host : Host m) (path : String) : Action m UInt32 := do
  let warnings := (← host.readSettings path).warnings
  if warnings.isEmpty then
    host.tell (.success (path ++ " is valid"))
    return 0
  warnings.forM fun w => host.tell (.warning w)
  throw (.problems path warnings.length)

def platformTable (vocabulary : Vocabulary) : Table where
  headers := ["Platform", "Guard", "Version parts", "Source"]
  rows :=
    builtinPlatforms.map (fun p =>
      [p.name, "Is" ++ p.guardName,
       if p.maxVersionParts = 0 then "none" else "up to " ++ Text.number p.maxVersionParts,
       "built-in"]) ++
    vocabulary.customNames.map fun name => [name, "-", "any", "custom"]

def listPlatforms (host : Host m) (path : Option String) (format : OutputFormat) :
    Action m UInt32 := do
  let settings ← host.chooseSettings path
  host.print ((platformTable settings.vocabulary).render format)
  return 0

def perform (host : Host m) : Command → Action m UInt32
  | .analyze options => host.analyze options
  | .generateSettings output => host.generateSettings output
  | .validateSettings path => host.validateSettings path
  | .listPlatforms settings format => host.listPlatforms settings format

/-- Tells that the arguments are wrong. -/
def refuse (host : Host m) (text : String) : m UInt32 := do
  host.tell (.usage text)
  return 2

def run (host : Host m) (arguments : List String) : m UInt32 := do
  match Invocation.ofArguments arguments with
  | .error e => host.refuse e.message
  | .ok (.help command names) =>
    host.tell (.help (command.help names))
    return 0
  | .ok .version =>
    host.print (CommandSpec.program.name ++ " " ++ analyzerVersion ++ "\n")
    return 0
  | .ok (.run names given) =>
    match Command.ofInvocation? names given with
    | none => host.refuse (" ".intercalate names)
    | some command =>
      match ← (host.perform command).run with
      | .ok code => return code
      | .error e =>
        host.tell (.failure e.message)
        return 1

end Host

end PlatformGuard
