import CollectorTemplate.Assembly
import CollectorTemplate.CommandLine.Arguments
import CollectorTemplate.CommandLine.Files
import CollectorTemplate.CommandLine.Library
import CollectorTemplate.CommandLine.Program
import CollectorTemplate.Complaint
import CollectorTemplate.Config.File
import CollectorTemplate.Config.Settings
import CollectorTemplate.Decimal.Format
import CollectorTemplate.Decimal.Reading
import CollectorTemplate.Decimal.Shortest
import CollectorTemplate.Emission
import CollectorTemplate.Entries
import CollectorTemplate.Error
import CollectorTemplate.Fragment
import CollectorTemplate.Json.Number
import CollectorTemplate.Json.Reader
import CollectorTemplate.Json.Writer
import CollectorTemplate.Logging
import CollectorTemplate.Logging.Filter
import CollectorTemplate.Logging.Line
import CollectorTemplate.Main
import CollectorTemplate.Monitoring.Backend
import CollectorTemplate.Monitoring.Manifest
import CollectorTemplate.Monitoring.Resource
import CollectorTemplate.Reconcile.Context
import CollectorTemplate.Reconcile.Session
import CollectorTemplate.Reserved
import CollectorTemplate.Template.Build
import CollectorTemplate.Template.Data
import CollectorTemplate.Template.Value
import CollectorTemplate.Text.Blank
import CollectorTemplate.Text.Digits
import CollectorTemplate.Text.Hidden
import CollectorTemplate.Text.Quoted
import CollectorTemplate.Text.Uuid
import CollectorTemplate.Toml.Moment
import CollectorTemplate.Toml.Number
import CollectorTemplate.Toml.Quoted
import CollectorTemplate.Toml.Read
import CollectorTemplate.Toml.Value
import CollectorTemplate.Tree
import CollectorTemplate.Tree.Typing
import CollectorTemplate.Untyped
import CollectorTemplate.Untyped.Record
import CollectorTemplate.Width
import CollectorTemplate.Yaml.Character
import CollectorTemplate.Yaml.Cursor
import CollectorTemplate.Yaml.Directive
import CollectorTemplate.Yaml.Event
import CollectorTemplate.Yaml.Fault
import CollectorTemplate.Yaml.Mark
import CollectorTemplate.Yaml.Node
import CollectorTemplate.Yaml.Property
import CollectorTemplate.Yaml.Read
import CollectorTemplate.Yaml.ReadError
import CollectorTemplate.Yaml.Record
import CollectorTemplate.Yaml.Scalar.Block
import CollectorTemplate.Yaml.Scalar.Gap
import CollectorTemplate.Yaml.Scalar.Number
import CollectorTemplate.Yaml.Scalar.Plain
import CollectorTemplate.Yaml.Scalar.Quoted
import CollectorTemplate.Yaml.Scalar.Resolve
import CollectorTemplate.Yaml.Scalar.Written
import CollectorTemplate.Yaml.Source
import CollectorTemplate.Yaml.Token
import CollectorTemplate.Yaml.TokenStream
import CollectorTemplate.Yaml.Writer
import CollectorTemplate.Proofs.Assembly
import CollectorTemplate.Proofs.Runs
import CollectorTemplate.Proofs.Program
import CollectorTemplate.Proofs.Yaml.Cursor
import CollectorTemplate.Proofs.Yaml.Idle
import CollectorTemplate.Proofs.Fragment
import CollectorTemplate.Proofs.Plain
import CollectorTemplate.Proofs.Blank
import CollectorTemplate.Proofs.Manifest
import CollectorTemplate.Proofs.Rendering
import CollectorTemplate.Proofs.Json.Data
import CollectorTemplate.Proofs.Decimal.Finite
import CollectorTemplate.Proofs.Decimal.Shortest
import CollectorTemplate.Proofs.Json.Denoted
import CollectorTemplate.Proofs.Reconcile.Enclosure
import CollectorTemplate.Proofs.Reconcile.Guards
import CollectorTemplate.Proofs.Reconcile.Nesting
import CollectorTemplate.Proofs.Reconcile.Families
import CollectorTemplate.Proofs.Wording
import CollectorTemplate.Proofs.Exporters
import CollectorTemplate.Proofs.Formats
import CollectorTemplate.Proofs.Conversion
import CollectorTemplate.Proofs.Equality
import CollectorTemplate.Proofs.Decimal.Infinite
import CollectorTemplate.Proofs.Yaml.Entry
import CollectorTemplate.Proofs.Integer
import CollectorTemplate.Proofs.Toml
import CollectorTemplate.Proofs.Fallback
import CollectorTemplate.Proofs.Unchecked
import CollectorTemplate.Proofs.Stability
import CollectorTemplate.Proofs.Octets
import CollectorTemplate.Proofs.History
import CollectorTemplate.Proofs.Yaml.Strictness
import CollectorTemplate.Proofs.Typing
import CollectorTemplate.Proofs.Counting
import CollectorTemplate.Proofs.Location
import CollectorTemplate.Proofs.Unknown
import CollectorTemplate.Proofs.LineTest
import CollectorTemplate.Proofs.Shortcut
import CollectorTemplate.Proofs.StartUp
import CollectorTemplate.Proofs.Backend
