import PlatformGuard.Json.Settings
import PlatformGuard.Text.Blank
import PlatformGuard.Toml.Settings
import PlatformGuard.Yaml.Settings

/-!
# Settings files

The extension of a settings file says which data language it is in.
-/

namespace PlatformGuard

/-- The data languages of settings files. -/
inductive SettingsFormat where
  | toml
  | yaml
  | json
deriving Repr, DecidableEq

namespace SettingsFormat

def name : SettingsFormat → String
  | toml => "TOML"
  | yaml => "YAML"
  | json => "JSON"

def ofExtension? (extension : String) : Option SettingsFormat :=
  if extension = "toml" then some toml
  else if extension = "yml" ∨ extension = "yaml" then some yaml
  else if extension = "json" then some json
  else none

end SettingsFormat

namespace Text

/-- The last part of a path. -/
def fileName (path : String) : String :=
  String.ofList (((splitOn '/' path.toList).filter fun part => !part.isEmpty).getLast?.getD [])

/-- What stands after the last point of a file name, where something stands before that point. -/
def extension? (path : String) : Option String :=
  let parts := splitOn '.' (fileName path).toList
  match parts.dropLast with
  | [] | [[]] => none
  | _ => parts.getLast?.map String.ofList

end Text

/-- Why settings could not be read from a file. -/
inductive SettingsError where
  | unreadable
  | malformed (format : SettingsFormat)
  | unsupported (extension : String)
deriving Repr, DecidableEq

def SettingsError.headline : SettingsError → String
  | unreadable => "Failed to read analyzer config from"
  | malformed format => "Failed to parse " ++ format.name ++ " config from"
  | unsupported extension => "Unsupported config format '" ++ extension ++ "' for"

def SettingsError.message (e : SettingsError) (path : String) : String :=
  e.headline ++ " " ++ path

namespace Settings

def parse? (format : SettingsFormat) (text : String) : Option Settings :=
  match format with
  | .toml => (parseToml text).toOption
  | .yaml => (parseYaml text).toOption
  | .json => (parseJson text).toOption

def ofFile (path text : String) : Except SettingsError Settings :=
  let extension := Text.lower ((Text.extension? path).getD "")
  match SettingsFormat.ofExtension? extension with
  | none => .error (.unsupported extension)
  | some format =>
    match parse? format text with
    | some s => .ok s
    | none => .error (.malformed format)

def templateRule (code description : String) : String :=
  "\n# " ++ description ++ "\n[rules." ++ code ++ "]\nenabled = true\n" ++
    "# severity = \"warning\"  # error | warning | info | hint\n"

/-- A settings file to start from, with comments and everything as it is where nothing is set. -/
def template : String :=
  "# Platform compatibility analyzer configuration\n\n" ++
  "version = \"1.0\"\n" ++
  "# Set to false to skip the analysis entirely\n" ++
  "enabled = true\n\n" ++
  "# Platform names accepted in addition to the built-in ones\n" ++
  "custom_platforms = []\n\n" ++
  "# Used when the compilation does not state its target framework\n" ++
  "# target_framework = \"net8.0\"\n\n" ++
  "# Analysis is skipped for targets below this version...\n" ++
  "minimum_target_framework = \"5.0\"\n" ++
  "# ...unless this is true\n" ++
  "analyze_below_minimum = false\n\n" ++
  "# Worker threads (defaults to the number of CPUs)\n" ++
  "# threads = 4\n" ++
  templateRule RuleCode.platformCompatibility "Validate platform compatibility" ++
  templateRule RuleCode.invalidPlatformAttribute "Invalid platform name or version in attribute" ++
  templateRule RuleCode.obsoletedPlatform "Validate obsoleted platform APIs"

end Settings

end PlatformGuard
