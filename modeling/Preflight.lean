import Preflight.Command.DryRun
import Preflight.Command.Invoke
import Preflight.Command.Models
import Preflight.Config.Encode
import Preflight.Config.Error
import Preflight.Config.Hint
import Preflight.Config.Load
import Preflight.Config.Override
import Preflight.Config.Shape
import Preflight.Config.Workflow
import Preflight.Decimal.Binary64
import Preflight.Decimal.Notation
import Preflight.Decimal.Reading
import Preflight.Decimal.Shortest
import Preflight.Document.Dialect
import Preflight.Document.Fault
import Preflight.Document.Read
import Preflight.Document.ToJson
import Preflight.Document.Tree
import Preflight.Files.Path
import Preflight.Files.Surroundings
import Preflight.Graph.Diagnostic
import Preflight.Graph.Events
import Preflight.Graph.Report
import Preflight.Json.Basic
import Preflight.Json.Number
import Preflight.Json.Reader
import Preflight.Json.Token
import Preflight.Json.Writer
import Preflight.Model.AliasTable
import Preflight.Model.Listing
import Preflight.Model.Selection
import Preflight.Names.Set
import Preflight.Names.Table
import Preflight.Outcome
import Preflight.Plan
import Preflight.Proofs.Command.DryRun
import Preflight.Proofs.Command.Models
import Preflight.Proofs.Config.Clean
import Preflight.Proofs.Config.Encode
import Preflight.Proofs.Config.Hint
import Preflight.Proofs.Config.HintedName
import Preflight.Proofs.Config.Named
import Preflight.Proofs.Config.Notations
import Preflight.Proofs.Config.Overlooked
import Preflight.Proofs.Config.Places
import Preflight.Proofs.Config.Rearranged
import Preflight.Proofs.Config.Respelled
import Preflight.Proofs.Config.RoundTrip
import Preflight.Proofs.Config.Shape
import Preflight.Proofs.Config.Stray
import Preflight.Proofs.Config.Unhinted
import Preflight.Proofs.Config.Unread
import Preflight.Proofs.Config.Vacant
import Preflight.Proofs.Decimal.Digits
import Preflight.Proofs.Decimal.Nearest
import Preflight.Proofs.Decimal.Rounding
import Preflight.Proofs.Decimal.Shortest
import Preflight.Proofs.Decimal.Written
import Preflight.Proofs.Document.Agree
import Preflight.Proofs.Document.Fields
import Preflight.Proofs.Document.OfJson
import Preflight.Proofs.Document.Reading
import Preflight.Proofs.Document.Rearranged
import Preflight.Proofs.Document.Reordered
import Preflight.Proofs.Document.ToJson
import Preflight.Proofs.Document.Without
import Preflight.Proofs.Graph.Arranged
import Preflight.Proofs.Graph.Corrected
import Preflight.Proofs.Graph.Dangling
import Preflight.Proofs.Graph.Legible
import Preflight.Proofs.Graph.Order
import Preflight.Proofs.Graph.Printed
import Preflight.Proofs.Graph.Summary
import Preflight.Proofs.Graph.Verdict
import Preflight.Proofs.Json.Address
import Preflight.Proofs.Model.AliasTable
import Preflight.Proofs.Model.History
import Preflight.Proofs.Model.Selection
import Preflight.Proofs.Names.OfList
import Preflight.Proofs.Plan
import Preflight.Proofs.Table
import Preflight.Proofs.Text.Distance
import Preflight.Proofs.Text.Join
import Preflight.Proofs.Text.Lines
import Preflight.Proofs.Text.Nearest
import Preflight.Proofs.Text.Template
import Preflight.Proofs.Text.Trim
import Preflight.Proofs.Yaml.Whole
import Preflight.Text.Blank
import Preflight.Text.Distance
import Preflight.Text.Hex
import Preflight.Text.Hidden
import Preflight.Text.Placeholder
import Preflight.Text.Quoted
import Preflight.Toml.Number
import Preflight.Toml.Reader
import Preflight.Toml.Section
import Preflight.Toml.Text
import Preflight.Yaml.Lexer
import Preflight.Yaml.Node
import Preflight.Yaml.Reader
import Preflight.Yaml.Resolve
import Preflight.Yaml.Scalar
import Preflight.Yaml.Spot
import Preflight.Yaml.Tag
import Preflight.Yaml.Token
