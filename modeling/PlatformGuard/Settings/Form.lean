import PlatformGuard.Settings.Basic

/-!
# Settings in a data language

Settings are read alike from every data language. What a language has to tell is how it
writes a text, a list, a record and the like; which fields there are, and what they are when
left out, is said once.
-/

namespace PlatformGuard

/-- How a data language with values `α` and errors `ε` writes what settings are made of. -/
structure DataForm (ε α : Type) where
  text : α → Except ε String
  boolean : α → Except ε Bool
  count : α → Except ε UInt64
  severity : α → Except ε Severity
  /-- Whether a value says that there is none. -/
  isAbsent : α → Except ε Bool
  list : α → Except ε (List α)
  entries : α → Except ε (List (String × α))
  /-- The fields of a record with the given field names; each field stands at most once. -/
  record : List String → α → Except ε (List (String × α))

namespace DataForm

variable {ε α β : Type}

def field? (fields : List (String × α)) (name : String) : Option α :=
  (fields.find? fun f => f.1 == name).map (·.2)

/-- A field with a value where it is left out. -/
def withDefault (fields : List (String × α)) (name : String) (otherwise : β)
    (read : α → Except ε β) : Except ε β :=
  match field? fields name with
  | some v => read v
  | none => .ok otherwise

/-- A field that may be left out or absent. -/
def optional (form : DataForm ε α) (fields : List (String × α)) (name : String)
    (read : α → Except ε β) :
    Except ε (Option β) :=
  withDefault fields name none fun v => do
    if ← form.isAbsent v then return none else return some (← read v)

def listOf (form : DataForm ε α) (read : α → Except ε β) (v : α) : Except ε (List β) :=
  (form.list v).bind (List.mapM read)

def entriesOf (form : DataForm ε α) (read : α → Except ε β) (v : α) :
    Except ε (List (String × β)) :=
  (form.entries v).bind (List.mapM fun e => (read e.2).map fun b => (e.1, b))

end DataForm

def RuleSettings.ofForm {ε α : Type} (form : DataForm ε α) (v : α) : Except ε RuleSettings := do
  let fields ← form.record ["enabled", "severity"] v
  return {
    enabled := ← DataForm.withDefault fields "enabled" true form.boolean
    severity := ← form.optional fields "severity" form.severity }

def Settings.ofForm {ε α : Type} (form : DataForm ε α) (v : α) : Except ε Settings := do
  let fields ← form.record
    ["version", "enabled", "custom_platforms", "target_framework", "minimum_target_framework",
     "analyze_below_minimum", "rules", "threads"] v
  return {
    version := ← DataForm.withDefault fields "version" "1.0" form.text
    enabled := ← DataForm.withDefault fields "enabled" true form.boolean
    customPlatforms := ← DataForm.withDefault fields "custom_platforms" [] (form.listOf form.text)
    targetFramework := ← form.optional fields "target_framework" form.text
    minimumTargetFramework :=
      ← DataForm.withDefault fields "minimum_target_framework" "5.0" form.text
    analyzeBelowMinimum := ← DataForm.withDefault fields "analyze_below_minimum" false form.boolean
    rules := .ofList
      (← DataForm.withDefault fields "rules" [] (form.entriesOf (RuleSettings.ofForm form)))
    threads := ← form.optional fields "threads" form.count }

end PlatformGuard
