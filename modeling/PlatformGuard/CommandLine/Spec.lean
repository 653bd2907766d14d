import PlatformGuard.Report.Output

/-!
# What a command line may say

Commands and their options as data. From it arguments are read and the help is written.
-/

namespace PlatformGuard

/-- What an option is for. -/
inductive OptionRole where
  /-- It is there or not. -/
  | flag
  /-- It has a value; the name stands for the value in the help. -/
  | value (name : String)
  /-- It asks for the help. -/
  | help
  /-- It asks for the version. -/
  | version
deriving Repr, DecidableEq

structure OptionSpec where
  long : String
  short : Option Char := none
  role : OptionRole := .flag
  /-- Whether the command needs it. -/
  required : Bool := false
  /-- The value where it is left out. -/
  standard : Option String := none
  /-- Whether a text can be its value. -/
  accepts : String → Bool := fun s => !s.isEmpty
  about : String

structure CommandSpec where
  name : String
  about : String
  options : List OptionSpec
  /-- The commands within it, one of which has to be chosen. -/
  commands : List CommandSpec := []

namespace OptionSpec

def verbose : OptionSpec :=
  { long := "verbose", short := some 'v', about := "Enable verbose logging" }

def help : OptionSpec :=
  { long := "help", short := some 'h', role := .help, about := "Print help" }

def version : OptionSpec :=
  { long := "version", short := some 'V', role := .version, about := "Print version" }

def format : OptionSpec :=
  { long := "format", role := .value "FORMAT", standard := some "text",
    accepts := fun s => (OutputFormat.ofName? s).isSome, about := "Output format (text, json)" }

def settings : OptionSpec :=
  { long := "config", short := some 'c', role := .value "CONFIG",
    about := "Path to a .toml, .yaml or .json configuration file" }

end OptionSpec

/-- A number of 64 bits, maybe after a plus sign. -/
def wordOf? (s : String) : Option UInt64 :=
  let digits := match s.toList with
    | '+' :: rest => rest
    | cs => cs
  ((Text.ofDigits? digits).filter (· < UInt64.size)).map Nat.toUInt64

namespace CommandSpec

def analyze : CommandSpec where
  name := "analyze"
  about := "Analyze a compilation file or every *.json compilation under a directory"
  options :=
    [{ long := "path", short := some 'p', role := .value "PATH", required := true,
       about := "Compilation JSON file or directory" },
     .settings, .format,
     { long := "output", short := some 'o', role := .value "OUTPUT",
       about := "Write the report to a file instead of stdout" },
     { long := "quiet", short := some 'q', about := "Suppress the summary header" },
     { long := "threads", short := some 't', role := .value "THREADS", accepts := fun s =>
       (wordOf? s).isSome,
       about := "Number of parallel workers" },
     .verbose, .help]

def generate : CommandSpec where
  name := "generate"
  about := "Write the default configuration template"
  options :=
    [{ long := "output", short := some 'o', role := .value "OUTPUT",
       standard := some "platform-compat.toml", about := "Destination file" },
     .verbose, .help]

def validate : CommandSpec where
  name := "validate"
  about := "Check a configuration file and print its warnings"
  options :=
    [{ OptionSpec.settings with required := true, about := "Configuration file to check" },
      .verbose, .help]

def settings : CommandSpec where
  name := "config"
  about := "Manage the analyzer configuration"
  options := [.verbose, .help]
  commands := [generate, validate]

def platforms : CommandSpec where
  name := "platforms"
  about := "List known platform names and their version arity"
  options := [.settings, .format, .verbose, .help]

def program : CommandSpec where
  name := "platform-compat"
  about := "Checks that calls to platform-specific APIs are guarded by platform checks"
  options := [.verbose, .help, .version]
  commands := [analyze, settings, platforms]

def command? (c : CommandSpec) (name : String) : Option CommandSpec :=
  c.commands.find? fun inner => inner.name == name

def long? (c : CommandSpec) (name : String) : Option OptionSpec :=
  c.options.find? fun o => o.long == name

def short? (c : CommandSpec) (name : Char) : Option OptionSpec :=
  c.options.find? fun o => o.short == some name

end CommandSpec

/-! ## Help -/

namespace OptionSpec

/-- The long name, with its value if it has one. -/
def longText (o : OptionSpec) : String :=
  match o.role with
  | .value name => "--" ++ o.long ++ " <" ++ name ++ ">"
  | _ => "--" ++ o.long

def text (o : OptionSpec) : String :=
  match o.short with
  | some c => "-" ++ String.singleton c ++ ", " ++ o.longText
  | none => "    " ++ o.longText

/-- What it is for, and its value where it is left out. -/
def description (o : OptionSpec) : String :=
  match o.standard with
  | some v => o.about ++ " [default: " ++ v ++ "]"
  | none => o.about

end OptionSpec

def columns (rows : List (String × String)) : String :=
  let width := (rows.map (·.1.length)).foldl max 0
  String.join (rows.map fun row =>
    "  " ++ row.1 ++ String.ofList (List.replicate (width - row.1.length + 2) ' ') ++ row.2 ++ "\n")

/-- The help of a command, called by the names of the commands around it and its own. -/
def CommandSpec.help (c : CommandSpec) (names : List String) : String :=
  let required := c.options.filter (·.required)
  c.about ++ "\n\nUsage: " ++ " ".intercalate names ++ " [OPTIONS]" ++
    String.join (required.map fun o => " " ++ o.longText) ++
    (if c.commands.isEmpty then "\n"
      else " <COMMAND>\n\nCommands:\n" ++
        columns (c.commands.map (fun inner => (inner.name, inner.about)) ++
        [("help", "Print this message or the help of the given subcommand(s)")])) ++
    "\nOptions:\n" ++ columns (c.options.map fun o => (o.text, o.description))

end PlatformGuard
