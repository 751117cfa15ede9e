import PageDesign.Cache
import PageDesign.CommandLine.Run
import PageDesign.Component.Patch
import PageDesign.Component.Shorthand
import PageDesign.Component.Validate
import PageDesign.Document.Command
import PageDesign.Export.Exporter
import PageDesign.Forest.Edit
import PageDesign.History
import PageDesign.Json.Extract
import PageDesign.Log
import PageDesign.Main
import PageDesign.Proofs.Cache.Conservation
import PageDesign.Proofs.Cache.Recency
import PageDesign.Proofs.CommandLine.Export
import PageDesign.Proofs.Component.Acceptable
import PageDesign.Proofs.Component.Fields
import PageDesign.Proofs.Component.Minting
import PageDesign.Proofs.Component.Offence
import PageDesign.Proofs.Component.Options
import PageDesign.Proofs.Component.Record
import PageDesign.Proofs.Component.Redraw
import PageDesign.Proofs.Component.Stored
import PageDesign.Proofs.Document.Assembly
import PageDesign.Proofs.Document.Atomic
import PageDesign.Proofs.Document.Batch
import PageDesign.Proofs.Document.Beside
import PageDesign.Proofs.Document.Clipboard
import PageDesign.Proofs.Document.Exchange
import PageDesign.Proofs.Document.Integrity
import PageDesign.Proofs.Document.Jump
import PageDesign.Proofs.Document.Panel
import PageDesign.Proofs.Document.Payload
import PageDesign.Proofs.Document.Removal
import PageDesign.Proofs.Document.Reopen
import PageDesign.Proofs.Document.Retrace
import PageDesign.Proofs.Document.Selection
import PageDesign.Proofs.Document.Supplied
import PageDesign.Proofs.Document.UndoRedo
import PageDesign.Proofs.Export.Anonymous
import PageDesign.Proofs.Export.Binding
import PageDesign.Proofs.Export.Cached
import PageDesign.Proofs.Export.Conform
import PageDesign.Proofs.Export.Embed
import PageDesign.Proofs.Export.Indent
import PageDesign.Proofs.Export.Inert
import PageDesign.Proofs.Export.Jsx
import PageDesign.Proofs.Export.Keys
import PageDesign.Proofs.Export.Markup
import PageDesign.Proofs.Export.Measure
import PageDesign.Proofs.Export.Recover
import PageDesign.Proofs.Export.Rules
import PageDesign.Proofs.Export.Sections
import PageDesign.Proofs.Export.Styling
import PageDesign.Proofs.Forest.Breadcrumbs
import PageDesign.Proofs.Forest.Commute
import PageDesign.Proofs.Forest.Inverse
import PageDesign.Proofs.Forest.Swap
import PageDesign.Proofs.History.Balance
import PageDesign.Proofs.Json.Everywhere
import PageDesign.Proofs.Json.Fenced
import PageDesign.Proofs.Json.Limits
import PageDesign.Proofs.Json.Line
import PageDesign.Proofs.Json.Number
import PageDesign.Proofs.Json.Prefix
import PageDesign.Proofs.Json.Reading
import PageDesign.Proofs.Json.Whole
import PageDesign.Proofs.Number.Characters
import PageDesign.Proofs.Schema.Check
import PageDesign.Proofs.Schema.Limits
import PageDesign.Proofs.Schema.Scalar
import PageDesign.Proofs.Text.Terminal
import PageDesign.Settings.Environment
import PageDesign.Template.BuiltIn
