import WireTypes.Json.Read
import WireTypes.Main
import WireTypes.Proofs.Discovery.Traversal
import WireTypes.Proofs.Resolution.KnownReferences
import WireTypes.Proofs.Resolution.Applications
import WireTypes.Proofs.Resolution.ResolutionOrder
import WireTypes.Proofs.Schema.Preservation
import WireTypes.Proofs.Resolution.CatalogClosure
import WireTypes.Proofs.Schema.Refusals
import WireTypes.Proofs.Schema.Positions
import WireTypes.Proofs.Selection
import WireTypes.Proofs.Schema.Namespace
import WireTypes.Proofs.Schema.PropertyNames
import WireTypes.Proofs.Json.Pointer
import WireTypes.Proofs.Schema.PointerTargets
import WireTypes.Proofs.Text.Segments
import WireTypes.Proofs.Schema.Success
import WireTypes.Proofs.Schema.Titles
import WireTypes.Proofs.Declarations.Removal
import WireTypes.Proofs.Resolution.StarImports
import WireTypes.Proofs.Resolution.Scope
import WireTypes.Proofs.Schema.Reordering
import WireTypes.Proofs.Resolution.QualifiedNames
import WireTypes.Proofs.CommandLine.Atomicity
import WireTypes.Proofs.Selection.Collisions
import WireTypes.Proofs.Discovery.Visits
import WireTypes.Proofs.Resolution.KindRules
import WireTypes.Proofs.Resolution.Instantiation
import WireTypes.Proofs.Resolution.ImplicitDefaults
import WireTypes.Proofs.Resolution.EnumValues
import WireTypes.Proofs.Schema.LengthBounds
import WireTypes.Proofs.Declarations.DocBlocks
import WireTypes.Proofs.Resolution.FormedFields
import WireTypes.Proofs.Resolution.Quoting
import WireTypes.Proofs.Discovery.ImportedNames
import WireTypes.Proofs.Resolution.DottedImports
import WireTypes.Proofs.Python.StringLiterals
import WireTypes.Proofs.Resolution.LiteralConstants
import WireTypes.Proofs.Resolution.IntegerRange
import WireTypes.Proofs.Schema.DraftAgreement
import WireTypes.Proofs.Resolution.FieldOrder
import WireTypes.Proofs.Python.Indentation
import WireTypes.Proofs.CommandLine.TopLayer
import WireTypes.Proofs.Resolution.Worklist
import WireTypes.Proofs.Schema.FreeNames
import WireTypes.Proofs.Declarations.Restart
import WireTypes.Proofs.Resolution.NestedQuotes
import WireTypes.Proofs.Resolution.CacheTransparency
