import PlatformGuard.Settings.Form
import PlatformGuard.Yaml.Parse

/-!
# Settings as YAML

A text may be any scalar; numbers, truth values and null are plain scalars of their own forms. Where
nothing is written, lists and mappings are empty.
-/

namespace PlatformGuard

/-- YAML that settings cannot be read from. -/
inductive YamlError where
  /-- The text is no document. -/
  | malformed
  /-- A value is of another shape than is due. -/
  | mismatch
deriving Repr, DecidableEq

namespace Yaml

/-- The value, or the error of a value of another shape. -/
def due {α : Type} : Option α → Except YamlError α
  | some a => .ok a
  | none => .error .mismatch

/-- The value that is meant, in a document with some anchors. A value with an anchor
is no reference itself. -/
def meant (anchors : List (Nat × Yaml)) : Yaml → Yaml
  | reference n =>
    match anchors.find? fun a => a.1 == n with
    | some a => a.2
    | none => blank
  | anchored _ v => v
  | v => v

def text? : Yaml → Option String
  | scalar _ _ s => some s
  | _ => none

/-- A natural number: decimal without a leading zero, or in the base that its first two characters
say. -/
def natural? (cs : List Char) : Option Nat :=
  let cs := match cs with
    | '+' :: rest => rest
    | cs => cs
  match cs with
  | '0' :: 'x' :: ds => Text.inBase? 16 ds
  | '0' :: 'o' :: ds => Text.inBase? 8 ds
  | '0' :: 'b' :: ds => Text.inBase? 2 ds
  | '0' :: _ :: _ => none
  | cs => Text.inBase? 10 cs

def standardTag (name : String) : String :=
  "tag:yaml.org,2002:" ++ name

/-- The words for nothing. -/
def isNull (s : String) : Bool :=
  ["~", "null", "Null", "NULL"].contains s

/-- The text of a scalar that may stand for a value of a type: a plain one, or an indented one
with the tag of the type. -/
def wordOf? (type : String) : Yaml → Option String
  | scalar .plain _ s => some s
  | scalar .literal (some tag) s => if tag = standardTag type then some s else none
  | _ => none

/-- Whether a value says that there is none. A plain scalar with the tag for nothing
has to be a word for it. -/
def isAbsent : Yaml → Except YamlError Bool
  | scalar .plain none s => .ok (s.isEmpty || isNull s)
  | scalar .plain (some tag) s =>
    if tag = standardTag "null" then
      (if isNull s then .ok true else .error .mismatch)
    else .ok false
  | _ => .ok false

/-- A severity: its name as a text, or as a tag of nothing. -/
def severity? : Yaml → Option Severity
  | scalar style (some tag) s =>
    match tag.toList with
    | '!' :: name =>
      if style = .plain && (s.isEmpty || isNull s) then
        Severity.ofName? (String.ofList name)
      else none
    | _ => Severity.ofName? s
  | v => v.text?.bind Severity.ofName?

def boolean? (s : String) : Option Bool :=
  if ["true", "True", "TRUE"].contains s then some true
  else if ["false", "False", "FALSE"].contains s then some false
  else none

def scalarEntries? (anchors : List (Nat × Yaml)) : Yaml → Option (List (String × Yaml))
  | mapping entries => entries.mapM fun e => (e.1.meant anchors).text?.map fun k => (k, e.2)
  | scalar .plain _ "" => some []
  | _ => none

/-- The fields of a record. A field with a name of the record stands at most once. -/
def fields? (anchors : List (Nat × Yaml)) (names : List String) (v : Yaml) :
    Option (List (String × Yaml)) :=
  (v.scalarEntries? anchors).bind fun entries =>
    let known := entries.filter fun e => names.contains e.1
    if decide (known.map (·.1)).Nodup then some known else none

/-- How YAML writes what settings are made of, in a document with some anchors. -/
def dataForm (anchors : List (Nat × Yaml)) : DataForm YamlError Yaml where
  text := fun v => due (v.meant anchors).text?
  boolean := fun v => due (((v.meant anchors).wordOf? "bool").bind boolean?)
  count := fun v =>
    due (((v.meant anchors).wordOf? "int").bind fun s =>
      ((natural? s.toList).filter (· < UInt64.size)).map Nat.toUInt64)
  severity := fun v => due (v.meant anchors).severity?
  isAbsent := fun v => (v.meant anchors).isAbsent
  list := fun v =>
    match v.meant anchors with
    | sequence items => .ok items
    | scalar .plain _ "" => .ok []
    | _ => .error .mismatch
  entries := fun v => due ((v.meant anchors).scalarEntries? anchors)
  record := fun names v => due ((v.meant anchors).fields? anchors names)

end Yaml

def Settings.parseYaml (text : String) : Except YamlError Settings :=
  match Yaml.parse? text with
  | some v => ofForm (Yaml.dataForm v.anchors) v
  | none => .error .malformed

end PlatformGuard
