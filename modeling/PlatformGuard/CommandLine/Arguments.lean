import PlatformGuard.CommandLine.Spec

/-!
# Reading arguments

Arguments are read from left to right: options with their values, and the names of commands. The
first thing that is wrong ends the reading, as does a question for the help or the version.
-/

namespace PlatformGuard

/-- What is wrong with the arguments. -/
inductive UsageError where
  | unknown (argument : String)
  | missingValue (option : String)
  | unwantedValue (option : String)
  | invalidValue (option value : String)
  | repeated (option : String)
  | missingOption (option : String)
  | missingCommand (command : String)
deriving Repr, DecidableEq

def UsageError.message : UsageError → String
  | unknown argument => "error: unexpected argument '" ++ argument ++ "' found"
  | missingValue option => "error: a value is required for '" ++ option ++ "' but none was supplied"
  | unwantedValue option => "error: no value is expected for '" ++ option ++ "'"
  | invalidValue option value => "error: invalid value '" ++ value ++ "' for '" ++ option ++ "'"
  | repeated option => "error: the argument '" ++ option ++ "' cannot be used multiple times"
  | missingOption option => "error: the required argument '" ++ option ++ "' was not provided"
  | missingCommand command =>
    "error: '" ++ command ++ "' requires a subcommand but one was not provided"

/-- The options that were given to a command, with their values. -/
abbrev Given := List (String × String)

def Given.value? (g : Given) (name : String) : Option String :=
  (g.find? fun e => e.1 == name).map (·.2)

/-- What the arguments ask for. -/
inductive Invocation where
  | help (command : CommandSpec) (names : List String)
  | version
  /-- A command by its name and those of the commands around it, with its options. -/
  | run (names : List String) (given : Given)

/-- A command while its options are read. -/
structure CommandReading where
  command : CommandSpec
  /-- Its name, after those of the commands around it. -/
  names : List String
  given : Given := []

namespace CommandReading

def add (r : CommandReading) (o : OptionSpec) (value : String) : Except UsageError CommandReading :=
  if (r.given.value? o.long).isSome then .error (.repeated o.longText)
  else .ok { r with given := r.given ++ [(o.long, value)] }

def addValue (r : CommandReading) (o : OptionSpec) (value : String) :
    Except UsageError CommandReading :=
  if (r.given.value? o.long).isSome then .error (.repeated o.longText)
  else if o.accepts value then r.add o value
  else .error (.invalidValue o.longText value)

/-- What the options of a command ask for, once there are no more arguments. -/
def finish (r : CommandReading) : Except UsageError Invocation :=
  if !r.command.commands.isEmpty then .error (.missingCommand r.command.name)
  else
    match r.command.options.find? fun o => o.required && (r.given.value? o.long).isNone with
    | some o => .error (.missingOption o.longText)
    | none => .ok (.run r.names r.given)

/-- What comes after an option. -/
inductive After where
  /-- The next argument. -/
  | more (reading : CommandReading)
  /-- The value of an option. -/
  | valueOf (option : OptionSpec) (reading : CommandReading)
  /-- Nothing: the arguments ask for the help or the version. -/
  | stop (asked : Invocation)

/-- An option without a value beside it. -/
def takeOption (r : CommandReading) (o : OptionSpec) : Except UsageError After :=
  match o.role with
  | .help => .ok (.stop (.help r.command r.names))
  | .version => .ok (.stop .version)
  | .flag => (r.add o "").map .more
  | .value _ => .ok (.valueOf o r)

/-- An option by its long name, maybe with a value after an equals sign. -/
def takeLong (r : CommandReading) (cs : List Char) : Except UsageError After :=
  let name := String.ofList (cs.takeWhile (· != '='))
  match r.command.long? name, cs.dropWhile (· != '=') with
  | none, _ => .error (.unknown ("--" ++ name))
  | some o, [] => r.takeOption o
  | some o, _ :: value =>
    match o.role with
    | .value _ => (r.addValue o (String.ofList value)).map .more
    | _ => .error (.unwantedValue o.longText)

/-- Options by their short names. The rest after one that has a value is the value. -/
def takeShort : CommandReading → List Char → Except UsageError After
  | r, [] => .ok (.more r)
  | r, c :: cs =>
    match r.command.short? c with
    | none => .error (.unknown ("-" ++ String.singleton c))
    | some o =>
      match o.role, cs with
      | .value _, '=' :: value => (r.addValue o (String.ofList value)).map .more
      | .value _, d :: value => (r.addValue o (String.ofList (d :: value))).map .more
      | .flag, cs => (r.add o "").bind fun r => takeShort r cs
      | _, _ => r.takeOption o

def isOption (argument : String) : Bool :=
  match argument.toList with
  | '-' :: _ :: _ => true
  | _ => false

/-- Whether a name is that of the help command, which stands beside other commands. -/
def isHelp (r : CommandReading) (name : String) : Bool :=
  name == "help" && !r.command.commands.isEmpty

/-- The help of the command that names lead to. -/
def helpFor : CommandReading → List String → Except UsageError Invocation
  | r, [] => .ok (.help r.command r.names)
  | r, name :: rest =>
    match r.command.command? name with
    | some inner => helpFor { command := inner, names := r.names ++ [name] } rest
    | none =>
      if r.isHelp name && rest.isEmpty then .ok (.help r.command r.names)
      else .error (.unknown name)

def read : CommandReading → List String → Except UsageError Invocation
  | r, [] => r.finish
  | r, argument :: rest =>
    if argument = "--" then
      match rest with
      | [] => r.finish
      | next :: _ => .error (.unknown next)
    else if isOption argument then
      let taken := match argument.toList with
        | '-' :: '-' :: cs => r.takeLong cs
        | cs => r.takeShort cs.tail
      match taken, rest with
      | .error e, _ => .error e
      | .ok (.stop asked), _ => .ok asked
      | .ok (.more r), rest => read r rest
      | .ok (.valueOf o _), [] => .error (.missingValue o.longText)
      | .ok (.valueOf o r), value :: rest =>
        if isOption value then .error (.missingValue o.longText)
        else
          match r.addValue o value with
          | .error e => .error e
          | .ok r => read r rest
    else
      match r.command.command? argument with
      | some inner => read { command := inner, names := r.names ++ [argument] } rest
      | none =>
        if r.isHelp argument then r.helpFor rest else .error (.unknown argument)

end CommandReading

def Invocation.ofArguments (arguments : List String) : Except UsageError Invocation :=
  CommandReading.read { command := .program, names := [CommandSpec.program.name] } arguments

/-! ## Commands -/

structure AnalyzeOptions where
  path : String
  settings : Option String := none
  format : OutputFormat := .text
  output : Option String := none
  quiet : Bool := false
  threads : Option UInt64 := none

/-- What the program can do. -/
inductive Command where
  | analyze (options : AnalyzeOptions)
  | generateSettings (output : String)
  | validateSettings (path : String)
  | listPlatforms (settings : Option String) (format : OutputFormat)

namespace Given

def format (g : Given) : OutputFormat :=
  ((g.value? "format").bind OutputFormat.ofName?).getD .text

end Given

def Command.ofInvocation? (names : List String) (g : Given) : Option Command :=
  match names.tail with
  | ["analyze"] =>
    (g.value? "path").map fun path => .analyze {
      path
      settings := g.value? "config"
      format := g.format
      output := g.value? "output"
      quiet := (g.value? "quiet").isSome
      threads := (g.value? "threads").bind wordOf? }
  | ["config", "generate"] =>
    some (.generateSettings ((g.value? "output").getD "platform-compat.toml"))
  | ["config", "validate"] => (g.value? "config").map .validateSettings
  | ["platforms"] => some (.listPlatforms (g.value? "config") g.format)
  | _ => none

end PlatformGuard
