import PlatformGuard.Position

/-!
# Symbols

A symbol is a declaration with its platform attributes as written. It names the scope that contains
it, for an accessor the property or event it belongs to, and the interface members it implements.
-/

namespace PlatformGuard

/-- The identity of a symbol within a compilation. -/
structure SymbolId where
  val : UInt32
deriving Repr, DecidableEq, Hashable, Inhabited

def SymbolId.text (id : SymbolId) : String :=
  "#" ++ Text.number id.val.toNat

/-- What a symbol declares. -/
inductive SymbolKind where
  | assembly
  | type
  | method
  | constructor
  | property
  | field
  | event
  /-- A part of a property or event. -/
  | accessor
  | localFunction
deriving Repr, DecidableEq, Inhabited

/-- What a platform attribute says. -/
inductive AttributeKind where
  | supported
  | unsupported
  | obsoleted
  /-- The member answers true only on the platform. -/
  | supportedGuard
  /-- The member answers true only off the platform. -/
  | unsupportedGuard
deriving Repr, DecidableEq, Inhabited

/-- A platform attribute as written. -/
structure PlatformAttribute where
  kind : AttributeKind
  /-- A platform name and maybe a version. -/
  platform : String
  message : Option String := none
  url : Option String := none
  span : Span := {}
deriving Repr, DecidableEq, Inhabited

/-- A declaration. -/
structure Symbol where
  id : SymbolId
  /-- Qualified for types, simple for members. -/
  name : String
  kind : SymbolKind
  containing : Option SymbolId := none
  /-- The property or event an accessor belongs to. -/
  associated : Option SymbolId := none
  /-- The interface members this member implements. -/
  implements : List SymbolId := []
  attributes : List PlatformAttribute := []
  /-- The file of the declaration. -/
  file : Option String := none
deriving Repr, DecidableEq, Inhabited

def simpleName (qualified : String) : String :=
  String.ofList ((Text.splitOn '.' qualified.toList).getLastD [])

end PlatformGuard
