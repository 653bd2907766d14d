import PlatformGuard.Analysis.Body
import PlatformGuard.Analysis.Compilation
import PlatformGuard.Analysis.Shared
import PlatformGuard.Callable.Index
import PlatformGuard.Callable.Search
import PlatformGuard.Cancellation
import PlatformGuard.Check
import PlatformGuard.CommandLine.Arguments
import PlatformGuard.CommandLine.Host
import PlatformGuard.CommandLine.Run
import PlatformGuard.CommandLine.Spec
import PlatformGuard.Compilation
import PlatformGuard.Contract.Basic
import PlatformGuard.Contract.Cache
import PlatformGuard.Contract.Declared
import PlatformGuard.Diagnostic.Basic
import PlatformGuard.Diagnostic.Message
import PlatformGuard.Guard.Check
import PlatformGuard.Guard.Expression
import PlatformGuard.Guard.Fact
import PlatformGuard.Json.Basic
import PlatformGuard.Json.Compilation
import PlatformGuard.Json.Contract
import PlatformGuard.Json.Diagnostic
import PlatformGuard.Json.Draft
import PlatformGuard.Json.Numeral
import PlatformGuard.Json.Operation
import PlatformGuard.Json.Parse
import PlatformGuard.Json.Read
import PlatformGuard.Json.Report
import PlatformGuard.Json.Settings
import PlatformGuard.Json.Shape
import PlatformGuard.Json.Symbol
import PlatformGuard.Json.Token
import PlatformGuard.Json.Version
import PlatformGuard.Main
import PlatformGuard.Operation.Basic
import PlatformGuard.Operation.Build
import PlatformGuard.Operation.Tag
import PlatformGuard.Operation.Traversal
import PlatformGuard.Platform.Name
import PlatformGuard.Platform.Vocabulary
import PlatformGuard.Position
import PlatformGuard.Proofs.AttributeFormat
import PlatformGuard.Proofs.AttributeText
import PlatformGuard.Proofs.BodyOutcome
import PlatformGuard.Proofs.BranchSwap
import PlatformGuard.Proofs.CachedLocal
import PlatformGuard.Proofs.CallableOrder
import PlatformGuard.Proofs.Cancelled
import PlatformGuard.Proofs.CheckSound
import PlatformGuard.Proofs.CheckSpellings
import PlatformGuard.Proofs.CheckVerdict
import PlatformGuard.Proofs.CompilationJson
import PlatformGuard.Proofs.CompilationReport
import PlatformGuard.Proofs.ConditionSplit
import PlatformGuard.Proofs.ContractLayer
import PlatformGuard.Proofs.ContractMemory
import PlatformGuard.Proofs.ContractMerge
import PlatformGuard.Proofs.ContractRecursion
import PlatformGuard.Proofs.ContractStack
import PlatformGuard.Proofs.ContractsBuilt
import PlatformGuard.Proofs.DepthFirst
import PlatformGuard.Proofs.EnclosingContract
import PlatformGuard.Proofs.Entry
import PlatformGuard.Proofs.Escape
import PlatformGuard.Proofs.Execution
import PlatformGuard.Proofs.GuardAttributes
import PlatformGuard.Proofs.ImpliedPlatform
import PlatformGuard.Proofs.Interference
import PlatformGuard.Proofs.InvocationRecord
import PlatformGuard.Proofs.JsonReading
import PlatformGuard.Proofs.LayerOrder
import PlatformGuard.Proofs.LocalCalls
import PlatformGuard.Proofs.Monotone
import PlatformGuard.Proofs.OperationTree
import PlatformGuard.Proofs.Recognition
import PlatformGuard.Proofs.ReportOrder
import PlatformGuard.Proofs.Restriction
import PlatformGuard.Proofs.Simulation
import PlatformGuard.Proofs.Soundness
import PlatformGuard.Proofs.SymbolJson
import PlatformGuard.Proofs.TableEdits
import PlatformGuard.Proofs.Units
import PlatformGuard.Proofs.UseSites
import PlatformGuard.Proofs.VersionAlgebra
import PlatformGuard.Proofs.WalkDepth
import PlatformGuard.Proofs.WalkLog
import PlatformGuard.Proofs.WalkMarks
import PlatformGuard.Proofs.WalkParts
import PlatformGuard.Proofs.WorldAlgebra
import PlatformGuard.Report.Basic
import PlatformGuard.Report.Output
import PlatformGuard.Settings.Basic
import PlatformGuard.Settings.File
import PlatformGuard.Settings.Form
import PlatformGuard.Settings.Framework
import PlatformGuard.SortedMap
import PlatformGuard.Symbol.Basic
import PlatformGuard.Symbol.CheckApi
import PlatformGuard.Symbol.Table
import PlatformGuard.Text.Blank
import PlatformGuard.Text.Decimal
import PlatformGuard.Text.Double
import PlatformGuard.Text.Hexadecimal
import PlatformGuard.Toml.Basic
import PlatformGuard.Toml.Parse
import PlatformGuard.Toml.Scalar
import PlatformGuard.Toml.Settings
import PlatformGuard.Version.Basic
import PlatformGuard.Version.Range
import PlatformGuard.Version.Set
import PlatformGuard.Walk.Basic
import PlatformGuard.Walk.Operation
import PlatformGuard.Worlds
import PlatformGuard.Yaml.Basic
import PlatformGuard.Yaml.Block
import PlatformGuard.Yaml.Parse
import PlatformGuard.Yaml.Property
import PlatformGuard.Yaml.Scalar
import PlatformGuard.Yaml.Settings
import PlatformGuard.Yaml.Token
