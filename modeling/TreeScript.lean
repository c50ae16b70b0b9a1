import TreeScript.Calendar
import TreeScript.Command
import TreeScript.Command.Tools
import TreeScript.Config
import TreeScript.Console
import TreeScript.Document
import TreeScript.Effect.Call
import TreeScript.Effect.Context
import TreeScript.Effect.Dispatch
import TreeScript.Effect.Files
import TreeScript.Effect.Store
import TreeScript.Environment
import TreeScript.Evaluation
import TreeScript.Failure
import TreeScript.Files.Path
import TreeScript.Files.Tree
import TreeScript.Files.Wildcard
import TreeScript.Http.Network
import TreeScript.Http.Request
import TreeScript.Json.Reader
import TreeScript.Json.Writer
import TreeScript.Main
import TreeScript.Model.Answer
import TreeScript.Model.Message
import TreeScript.Model.Service
import TreeScript.Number.Binary64
import TreeScript.Number.Decimal
import TreeScript.Pattern.Glyph
import TreeScript.Pattern.Match
import TreeScript.Pattern.Reader
import TreeScript.Pattern.Search
import TreeScript.Pattern.Syntax
import TreeScript.Platform
import TreeScript.Platform.Bundled
import TreeScript.Program.Decode
import TreeScript.Program.Encode
import TreeScript.Program.Plain
import TreeScript.Program.Shown
import TreeScript.Program.Tag
import TreeScript.Proofs.Basic
import TreeScript.Proofs.ClosureFree
import TreeScript.Proofs.EnvironmentFrame
import TreeScript.Proofs.Escape
import TreeScript.Proofs.FailedRuns
import TreeScript.Proofs.PairedEvaluation
import TreeScript.Proofs.PairedSessions
import TreeScript.Proofs.Pairing
import TreeScript.Proofs.RenamedPrograms
import TreeScript.Proofs.RenamedTexts
import TreeScript.Proofs.RenamedValues
import TreeScript.Proofs.Renaming
import TreeScript.Proofs.Runs
import TreeScript.Proofs.Steps
import TreeScript.Proofs.TextFailures
import TreeScript.Proofs.WireFormat
import TreeScript.Session
import TreeScript.Text.Base64
import TreeScript.Text.Blank
import TreeScript.Text.Casing
import TreeScript.Text.Digit
import TreeScript.Text.Hex
import TreeScript.Text.Identifier
import TreeScript.Text.Kind
import TreeScript.Text.Lines
import TreeScript.Text.Name
import TreeScript.Text.Quoted
import TreeScript.Text.Range
import TreeScript.Text.Utf8
import TreeScript.Value.Arithmetic
import TreeScript.Value.Basic
import TreeScript.Value.Bindings
import TreeScript.Value.Convert
import TreeScript.Value.Data
import TreeScript.Value.Display
import TreeScript.Value.Elements
import TreeScript.Value.Equal
import TreeScript.Value.Order
import TreeScript.Yaml.Bundled
import TreeScript.Yaml.Cursor
import TreeScript.Yaml.Fault
import TreeScript.Yaml.Library
import TreeScript.Yaml.Node
import TreeScript.Yaml.Reader
import TreeScript.Yaml.Schema
import TreeScript.Yaml.Token
import TreeScript.Yaml.Writer
import TreeScript.Proofs.CapturedScopes
import TreeScript.Proofs.Operators
import TreeScript.Proofs.Safety
import TreeScript.Proofs.CallBudget
import TreeScript.Proofs.JsonTokens
import TreeScript.Proofs.JsonValues
import TreeScript.Proofs.JsonRoundTrip
import TreeScript.Proofs.CallStack
import TreeScript.Proofs.Fuel
import TreeScript.Proofs.Batches
import TreeScript.Proofs.UnusedBindings
import TreeScript.Proofs.DecodedPrograms
import TreeScript.Proofs.HostIndependence
import TreeScript.Proofs.FailedCalls
import TreeScript.Proofs.RunLog
import TreeScript.Proofs.StoreHistory
import TreeScript.Proofs.JsonInProse
import TreeScript.Proofs.WrittenFiles
import TreeScript.Proofs.YamlPages
import TreeScript.Proofs.SavedConfig
import TreeScript.Proofs.YamlValues
import TreeScript.Proofs.YamlFlow
import TreeScript.Proofs.YamlLexing
import TreeScript.Proofs.YamlScanning
import TreeScript.Proofs.YamlWords
import TreeScript.Proofs.SharedTexts
import TreeScript.Proofs.Provenance
import TreeScript.Proofs.UndefinedMark
import TreeScript.Proofs.Comparisons
import TreeScript.Proofs.ZeroDivision
import TreeScript.Proofs.ThenChains
import TreeScript.Proofs.JsonOutline
import TreeScript.Proofs.JsonReading
import TreeScript.Proofs.WholeAnswers
import TreeScript.Proofs.FilePages
import TreeScript.Proofs.FileSearch
import TreeScript.Proofs.ReadAfterWrite
import TreeScript.Proofs.Retries
import TreeScript.Proofs.Listings
import TreeScript.Proofs.NumberAnswers
import TreeScript.Proofs.RequestBodies
import TreeScript.Proofs.Brackets
import TreeScript.Proofs.Wildcards
import TreeScript.Proofs.SelfBinding
import TreeScript.Proofs.FlowStyle
import TreeScript.Proofs.JsonGrammar
import TreeScript.Proofs.JsonNesting
import TreeScript.Proofs.YamlFlowTexts
import TreeScript.Proofs.NumberSearch
import TreeScript.Proofs.WildcardSearch
