import PlatformGuard.Operation.Basic
import PlatformGuard.Symbol.Table

/-!
# Compilations

What is analysed: a table of symbols and the bodies of methods, constructors and accessors.
-/

namespace PlatformGuard

/-- A body and the symbol it belongs to. -/
structure MethodBody where
  owner : SymbolId
  file : String := ""
  body : Operation

/-- The input of an analysis. -/
structure Compilation where
  name : String
  /-- The target framework, such as `net8.0`. -/
  targetFramework : Option String := none
  symbols : SymbolTable := .empty
  bodies : List MethodBody := []

end PlatformGuard
