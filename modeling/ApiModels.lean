import ApiModels.Text.Blank
import ApiModels.Text.Case
import ApiModels.Text.DecimalDigit
import ApiModels.Text.Quoted
import ApiModels.Text.Split
import ApiModels.Number.Shortest
import ApiModels.Number.Literal
import ApiModels.Value.Shape
import ApiModels.Json.Printer
import ApiModels.Json.Parser
import ApiModels.Naming
import ApiModels.SemanticType
import ApiModels.Policy
import ApiModels.Extract.Filters
import ApiModels.Field.Document
import ApiModels.Field.Shelf
import ApiModels.Config.Check
import ApiModels.Model.Export
import ApiModels.Yaml.Scalar
import ApiModels.Yaml.Token
import ApiModels.Yaml.Document
import ApiModels.Config.File
import ApiModels.Document.Source
import ApiModels.Main
import ApiModels.Proofs.Struct.DeepShape
import ApiModels.Proofs.Model.Export
import ApiModels.Proofs.Model.Standard
import ApiModels.Proofs.Model.Order
import ApiModels.Proofs.Model.Link
import ApiModels.Proofs.Model.Interchange
import ApiModels.Proofs.Model.Descriptions
import ApiModels.Proofs.Model.Ascending
import ApiModels.Proofs.Model.Returned
import ApiModels.Proofs.Field.Excluded
import ApiModels.Proofs.Field.Precedence
import ApiModels.Proofs.Field.Absorbing
import ApiModels.Proofs.Field.OrderRule
import ApiModels.Proofs.Model.Excluded
import ApiModels.Proofs.Document.Regular
import ApiModels.Proofs.Extract.Regular
import ApiModels.Proofs.Model.Stops
import ApiModels.Proofs.Model.Failing
import ApiModels.Proofs.Model.Escaping
import ApiModels.Proofs.Model.Checked
import ApiModels.Proofs.Extract.Alike
import ApiModels.Proofs.Extract.Overrides
import ApiModels.Proofs.Extract.FilterNames
import ApiModels.Proofs.Document.Caching
import ApiModels.Proofs.Model.PathParams
import ApiModels.Proofs.Model.Shown
import ApiModels.Proofs.Model.Unresolved
import ApiModels.Proofs.Extract.Composed
import ApiModels.Proofs.Extract.Inlined
import ApiModels.Proofs.Extract.Raised
import ApiModels.Proofs.Extract.Excluding
import ApiModels.Proofs.Document.Chain
import ApiModels.Proofs.Document.Operations
import ApiModels.Proofs.Struct.Collision
import ApiModels.Proofs.Struct.Repeated
import ApiModels.Proofs.Struct.Usable
import ApiModels.Proofs.Text.Unescape
import ApiModels.Proofs.Extract.Bounds
