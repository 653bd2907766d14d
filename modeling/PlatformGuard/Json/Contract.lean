import PlatformGuard.Contract.Basic
import PlatformGuard.Json.Version

/-!
# Contracts as JSON

A contract lists what is known of each platform. Everything is written, with null for what is not
said.
-/

namespace PlatformGuard

open Json

namespace Obsoletion

def toJson (o : Obsoletion) : Json :=
  .object [("version", o.version.toJson), ("message", .orNull .text o.message),
    ("url", .orNull .text o.url)]

def ofJson (v : Json) : Except JsonError Obsoletion := do
  let r ← readRecord ["version", "message", "url"] v
  return ⟨← r.required "version" Version.ofJson, ← r.nullable "message" readText,
    ← r.nullable "url" readText⟩

end Obsoletion

namespace Availability

def toJson (a : Availability) : Json :=
  .object
    [("supported", .orNull Version.toJson a.supported),
     ("unsupported", .orNull Version.toJson a.unsupported),
     ("unsupported_message", .orNull .text a.unsupportedMessage),
     ("obsoleted", .orNull Obsoletion.toJson a.obsoleted)]

def ofJson (v : Json) : Except JsonError Availability := do
  let r ← readRecord ["supported", "unsupported", "unsupported_message", "obsoleted"] v
  return {
    supported := ← r.nullable "supported" Version.ofJson
    unsupported := ← r.nullable "unsupported" Version.ofJson
    unsupportedMessage := ← r.nullable "unsupported_message" readText
    obsoleted := ← r.nullable "obsoleted" Obsoletion.ofJson }

end Availability

namespace Contract

def toJson (c : Contract) : Json :=
  .object [("platforms", .object (c.platforms.entries.map fun e => (e.1.text, e.2.toJson)))]

/-- Of platforms that are the same in canonical form, the last counts. -/
def ofJson (v : Json) : Except JsonError Contract := do
  let r ← readRecord ["platforms"] v
  let entries ← r.required "platforms" (readEntries Availability.ofJson)
  return ⟨.ofList (entries.map fun e => (PlatformName.canonical e.1, e.2))⟩

end Contract

namespace AvailabilityKind

def names : List (String × AvailabilityKind) :=
  [("supported", supported), ("unsupported", unsupported), ("obsoleted", obsoleted)]

def name : AvailabilityKind → String
  | supported => "supported"
  | unsupported => "unsupported"
  | obsoleted => "obsoleted"

end AvailabilityKind

end PlatformGuard
