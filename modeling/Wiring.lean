import Wiring.CommandLine.Help
import Wiring.CommandLine.Options
import Wiring.CommandLine.Outcome
import Wiring.Declaration.Basic
import Wiring.Declaration.Elaboration
import Wiring.Definition.Basic
import Wiring.Definition.Display
import Wiring.Definition.Equality
import Wiring.Definition.Factory
import Wiring.Definition.Naming
import Wiring.Definition.Scalar
import Wiring.Definition.Scope
import Wiring.Definition.Shape
import Wiring.Dialect.Basic
import Wiring.Dialect.Components
import Wiring.Dialect.Markup
import Wiring.Dialect.Root
import Wiring.Dialect.StructuredText
import Wiring.Dialect.Vocabulary
import Wiring.Entries
import Wiring.Expression.Basic
import Wiring.Expression.Lexeme
import Wiring.Expression.Parse
import Wiring.Expression.Token
import Wiring.Live.Registry
import Wiring.Live.Resolution
import Wiring.Live.Value
import Wiring.Main
import Wiring.Number.Binary64
import Wiring.Number.Layout
import Wiring.Number.Reading
import Wiring.Number.Shortest
import Wiring.Registration
import Wiring.Report.Event
import Wiring.Report.ReadError
import Wiring.Source.Basic
import Wiring.Source.Files
import Wiring.Source.Manifest
import Wiring.Source.Path
import Wiring.Source.Reading
import Wiring.Source.Selection
import Wiring.Template.Ancestry
import Wiring.Template.Arguments
import Wiring.Template.Draft
import Wiring.Text.Blank
import Wiring.Text.Quoted
import Wiring.Text.Visibility
import Wiring.Toml.Document
import Wiring.Toml.Quoted
import Wiring.Toml.Scalar
import Wiring.Toml.Value
import Wiring.Traced
import Wiring.Xml.Character
import Wiring.Xml.Document
import Wiring.Xml.Reference
import Wiring.Xml.Token
import Wiring.Xml.Tree
import Wiring.Yaml.Block
import Wiring.Yaml.Character
import Wiring.Yaml.Composition
import Wiring.Yaml.Gap
import Wiring.Yaml.Node
import Wiring.Yaml.Plain
import Wiring.Yaml.Quoted
import Wiring.Yaml.Schema
import Wiring.Yaml.Tag
import Wiring.Yaml.Token
import Wiring.Yaml.Value
import Wiring.Proofs.Template.Climb
import Wiring.Proofs.Template.Outcome
import Wiring.Proofs.Template.Merge
import Wiring.Proofs.Template.Inheritance
import Wiring.Proofs.Elaboration.Agreement
import Wiring.Proofs.Parity.Portable
import Wiring.Proofs.Parity.Reading
import Wiring.Proofs.Parity.Agreement
import Wiring.Proofs.Definition.Holding
import Wiring.Proofs.Elaboration.Inline
import Wiring.Proofs.Source.Reading
import Wiring.Proofs.Live.Lookup
import Wiring.Proofs.Source.Grouping
import Wiring.Proofs.Template.Laws
import Wiring.Proofs.Template.Composition
import Wiring.Proofs.Template.Order
import Wiring.Proofs.Template.EmptyChild
import Wiring.Proofs.Expression.Acceptance
import Wiring.Proofs.Expression.Canonical
import Wiring.Proofs.Expression.Viability
import Wiring.Proofs.Expression.Furthest
import Wiring.Proofs.Definition.Places
import Wiring.Proofs.Elaboration.Places
import Wiring.Proofs.Source.Places
import Wiring.Proofs.Elaboration.Pruning
import Wiring.Proofs.Parity.Exchange
import Wiring.Proofs.Expression.Following
import Wiring.Proofs.Expression.Exactness
import Wiring.Proofs.Live.Registering
import Wiring.Proofs.Source.Detection
import Wiring.Proofs.Elaboration.Replacement
import Wiring.Proofs.Source.Replacement
import Wiring.Proofs.CommandLine.Outcome
import Wiring.Proofs.Elaboration.Scopes
import Wiring.Proofs.Parity.Attributes
import Wiring.Proofs.Number.Digits
import Wiring.Proofs.Dialect.Form
import Wiring.Proofs.Parity.Spelling
import Wiring.Proofs.Parity.Numbers
import Wiring.Proofs.Dialect.Inside
import Wiring.Proofs.Elaboration.Record
import Wiring.Proofs.Dialect.Slots
import Wiring.Proofs.Source.Slots
import Wiring.Proofs.Elaboration.Stripping
import Wiring.Proofs.Dialect.MarkupCleaning
import Wiring.Proofs.Dialect.StructuredCleaning
import Wiring.Proofs.Source.Cleaning
import Wiring.Proofs.Matching
import Wiring.Proofs.Live.Equality
import Wiring.Proofs.Live.Building
import Wiring.Proofs.Definition.Equality
import Wiring.Proofs.Live.Likeness
import Wiring.Proofs.Dialect.Condensing
import Wiring.Proofs.Source.Annotation
import Wiring.Proofs.Definition.Registered
import Wiring.Proofs.Expression.Integers
import Wiring.Proofs.Expression.Commas
import Wiring.Proofs.Settled
import Wiring.Proofs.Expression.Meaning
import Wiring.Proofs.Number.Shortest
import Wiring.Proofs.Number.Writing
import Wiring.Proofs.Definition.Keys
import Wiring.Proofs.Expression.Entries
import Wiring.Proofs.Live.Collapsing
import Wiring.Proofs.Text.Quoting
import Wiring.Proofs.Definition.Printing
import Wiring.Proofs.Parity.Components
import Wiring.Proofs.Definition.Scalars
import Wiring.Proofs.Elaboration.Scalars
import Wiring.Proofs.Dialect.Scalars
import Wiring.Proofs.Source.Canonical
import Wiring.Proofs.Expression.Spans
import Wiring.Proofs.Expression.Unescaping
