import PlatformGuard.Contract.Basic
import PlatformGuard.Diagnostic.Basic
import PlatformGuard.Guard.Fact
import PlatformGuard.Platform.Vocabulary
import PlatformGuard.Symbol.Table

/-!
# What a symbol declares

The attributes written on a symbol itself, understood: one layer of a contract, the platforms it
guards, and a diagnostic for each thing wrong with an attribute. A malformed attribute still counts
as far as it could be read.
-/

namespace PlatformGuard

/-- What the attributes on a symbol say. -/
structure Declared where
  entries : List AvailabilityEntry := []
  supportedGuards : List (PlatformName × Version) := []
  unsupportedGuards : List (PlatformName × Version) := []
  diagnostics : List Diagnostic := []

namespace Declared

instance : Inhabited Declared := ⟨{}⟩

/-- The entries as one layer of a contract. -/
def layer (d : Declared) : Contract :=
  .ofEntries d.entries

def attributeDiagnostic (table : SymbolTable) (s : Symbol) (a : PlatformAttribute)
    (e : PlatformError) :
    Diagnostic :=
  let rule := if e.isVersionError then RuleKind.invalidVersion else .invalidPlatformName
  { Diagnostic.ofRule rule (.ofSpan (s.file.getD "") a.span) e.message with
    target := table.displayName s.id, platform := a.platform }

/-- The part of an attribute that speaks of availability. -/
def entry? (a : PlatformAttribute) (parsed : ParsedPlatform) : Option AvailabilityEntry :=
  let entry := fun kind => some
    { kind, platform := parsed.name, version := parsed.version, message := a.message, url := a.url }
  match a.kind with
  | .supported => entry .supported
  | .unsupported => entry .unsupported
  | .obsoleted => entry .obsoleted
  | .supportedGuard | .unsupportedGuard => none

/-- The attributes of a symbol with what they say under a vocabulary. -/
def readAttributes (vocabulary : Vocabulary) (s : Symbol) :
    List (PlatformAttribute × ParsedPlatform) :=
  s.attributes.map fun a => (a, vocabulary.parseAttribute a.platform)

def ofSymbol (table : SymbolTable) (vocabulary : Vocabulary) (s : Symbol) : Declared :=
  let read := readAttributes vocabulary s
  let guards := fun kind =>
    (read.filter fun r => r.1.kind = kind).map fun r => (r.2.name, r.2.version)
  { entries := read.filterMap fun r => entry? r.1 r.2
    supportedGuards := guards .supportedGuard
    unsupportedGuards := guards .unsupportedGuard
    diagnostics := read.flatMap fun r => r.2.errors.map (attributeDiagnostic table s r.1) }

/-- What the attributes on the symbol of an id say; nothing for an unknown id. -/
def ofId (table : SymbolTable) (vocabulary : Vocabulary) (id : SymbolId) : Declared :=
  match table.get? id with
  | some s => ofSymbol table vocabulary s
  | none => {}

def isGuard (d : Declared) : Bool :=
  !d.supportedGuards.isEmpty || !d.unsupportedGuards.isEmpty

/-- The worlds in which a guard member answers true: on one of the platforms it vouches for, where
it names any, and on none of those it rules out. -/
def guardWorlds? (d : Declared) : Option Worlds :=
  if !d.isGuard then none
  else
    let vouched :=
      if d.supportedGuards.isEmpty then Worlds.all
      else
        d.supportedGuards.foldl (fun w g => w.union (GuardFact.atLeast g.1 g.2).worlds) .none
    some (d.unsupportedGuards.foldl
      (fun w g => w.inter (GuardFact.atLeast g.1 g.2).negate.worlds) vouched)

end Declared

end PlatformGuard
