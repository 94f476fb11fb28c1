import ToolRoster.Artifact.Availability
import ToolRoster.Artifact.Generate
import ToolRoster.Artifact.Strategy
import ToolRoster.CommandLine.Arguments
import ToolRoster.CommandLine.Choice
import ToolRoster.CommandLine.Help
import ToolRoster.CommandLine.Run
import ToolRoster.Decimal.Layout
import ToolRoster.Decimal.Shortest
import ToolRoster.Decode.Draft
import ToolRoster.Decode.Problem
import ToolRoster.Files.Call
import ToolRoster.Files.Refusal
import ToolRoster.Files.Route
import ToolRoster.Files.Session
import ToolRoster.Files.Store
import ToolRoster.Files.Temporary
import ToolRoster.Files.Tree
import ToolRoster.Json.Fault
import ToolRoster.Json.Literal
import ToolRoster.Json.Number
import ToolRoster.Json.Record
import ToolRoster.Json.Skip
import ToolRoster.Json.Writer
import ToolRoster.Log.Event
import ToolRoster.Log.Filter
import ToolRoster.Main
import ToolRoster.Registry.Basic
import ToolRoster.Registry.Builtin
import ToolRoster.Registry.Fallback
import ToolRoster.Registry.Group
import ToolRoster.RegistryFile.Format
import ToolRoster.RegistryFile.Load
import ToolRoster.SlashPath
import ToolRoster.Text.Character
import ToolRoster.Text.LowerCase
import ToolRoster.Text.Position
import ToolRoster.Text.Quoted
import ToolRoster.Text.Unprintable
import ToolRoster.Text.Utf8
import ToolRoster.Toml.Document
import ToolRoster.Toml.Fault
import ToolRoster.Toml.Literal
import ToolRoster.Toml.Node
import ToolRoster.Toml.Number
import ToolRoster.Toml.Record
import ToolRoster.Toml.Value
import ToolRoster.Tool
import ToolRoster.Yaml.Block
import ToolRoster.Yaml.Document
import ToolRoster.Yaml.Event
import ToolRoster.Yaml.Folded
import ToolRoster.Yaml.Lexing
import ToolRoster.Yaml.Place
import ToolRoster.Yaml.Plain
import ToolRoster.Yaml.Property
import ToolRoster.Yaml.Quoted
import ToolRoster.Yaml.Record
import ToolRoster.Yaml.Scalar
import ToolRoster.Yaml.Token
import ToolRoster.Proofs.Artifact.Bystanders
import ToolRoster.Proofs.Artifact.Generation
import ToolRoster.Proofs.Artifact.Repeating
import ToolRoster.Proofs.Artifact.Shape
import ToolRoster.Proofs.Availability.Entries
import ToolRoster.Proofs.Availability.Reading
import ToolRoster.Proofs.Capability
import ToolRoster.Proofs.CommandLine.Confirmation
import ToolRoster.Proofs.CommandLine.Effects
import ToolRoster.Proofs.CommandLine.Filtering
import ToolRoster.Proofs.CommandLine.Listing
import ToolRoster.Proofs.CommandLine.Logging
import ToolRoster.Proofs.CommandLine.Runs
import ToolRoster.Proofs.CommandLine.Vectors
import ToolRoster.Proofs.CommandLine.Verbose
import ToolRoster.Proofs.CommandLine.Verdicts
import ToolRoster.Proofs.Files.Effects
import ToolRoster.Proofs.Files.FileNames
import ToolRoster.Proofs.Files.Lockstep
import ToolRoster.Proofs.Files.Mishaps
import ToolRoster.Proofs.Files.Places
import ToolRoster.Proofs.Files.Race
import ToolRoster.Proofs.Files.ReadBack
import ToolRoster.Proofs.Files.Replacing
import ToolRoster.Proofs.Files.TemporaryNames
import ToolRoster.Proofs.Files.Ways
import ToolRoster.Proofs.Files.WorkingDirectory
import ToolRoster.Proofs.FirstOccurrence
import ToolRoster.Proofs.Json.Fields
import ToolRoster.Proofs.Json.Grammar
import ToolRoster.Proofs.Json.Lists
import ToolRoster.Proofs.Json.Members
import ToolRoster.Proofs.Json.NormalForm
import ToolRoster.Proofs.Json.Objects
import ToolRoster.Proofs.Json.Printable
import ToolRoster.Proofs.Json.Records
import ToolRoster.Proofs.Json.Scanning
import ToolRoster.Proofs.Json.Skipping
import ToolRoster.Proofs.Json.Strings
import ToolRoster.Proofs.Registry.Fallbacks
import ToolRoster.Proofs.Registry.Grouping
import ToolRoster.Proofs.Registry.Index
import ToolRoster.Proofs.Registry.Order
import ToolRoster.Proofs.Registry.Partition
import ToolRoster.Proofs.RegistryFile.Decoded
import ToolRoster.Proofs.RegistryFile.Extensions
import ToolRoster.Proofs.RegistryFile.Formats
import ToolRoster.Proofs.RegistryFile.Loading
import ToolRoster.Proofs.RegistryFile.Outcome
import ToolRoster.Proofs.RegistryFile.ReadBack
import ToolRoster.Proofs.RegistryFile.Yields
import ToolRoster.Proofs.SlashPath.Joining
import ToolRoster.Proofs.SlashPath.LastName
import ToolRoster.Proofs.Strategy.Dependence
import ToolRoster.Proofs.Strategy.Document
import ToolRoster.Proofs.Strategy.Enabling
import ToolRoster.Proofs.Strategy.FallbackLines
import ToolRoster.Proofs.Strategy.Reading
import ToolRoster.Proofs.Strategy.Sections
import ToolRoster.Proofs.Strategy.Summaries
import ToolRoster.Proofs.Text.LetterCase
import ToolRoster.Proofs.Text.Lines
import ToolRoster.Proofs.Text.Trimming
import ToolRoster.Proofs.Text.Utf8
import ToolRoster.Proofs.Toml.Documents
import ToolRoster.Proofs.Toml.Values
import ToolRoster.Proofs.Yaml.Events
import ToolRoster.Proofs.Yaml.Quoted
import ToolRoster.Proofs.Yaml.Records
import ToolRoster.Proofs.Yaml.Steps
import ToolRoster.Proofs.Yaml.Tokens
