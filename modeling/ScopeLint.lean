import ScopeLint.Allow
import ScopeLint.CommandLine.Arguments
import ScopeLint.CommandLine.Flag
import ScopeLint.CommandLine.Plan
import ScopeLint.CommandLine.PreferenceFile
import ScopeLint.CommandLine.Preferences
import ScopeLint.CommandLine.Run
import ScopeLint.Editor.Document
import ScopeLint.Editor.Position
import ScopeLint.Editor.Server
import ScopeLint.Editor.Uri
import ScopeLint.File.Glob
import ScopeLint.File.Glob.Arrange
import ScopeLint.File.Glob.Matcher
import ScopeLint.File.Glob.Pattern
import ScopeLint.File.Path
import ScopeLint.File.Tree
import ScopeLint.Json.String
import ScopeLint.Lint.Basic
import ScopeLint.Lint.Check
import ScopeLint.Lint.Diagnostic
import ScopeLint.Lint.Guide
import ScopeLint.Log
import ScopeLint.Main
import ScopeLint.Names
import ScopeLint.Project.Basic
import ScopeLint.Project.Findings
import ScopeLint.Project.Scope
import ScopeLint.Project.Strict
import ScopeLint.Project.Workspace
import ScopeLint.Prompt
import ScopeLint.Proofs.CommandLine.ExitStatus
import ScopeLint.Proofs.CommandLine.Levels
import ScopeLint.Proofs.Editor.Definitions
import ScopeLint.Proofs.Editor.Documents
import ScopeLint.Proofs.Editor.Positions
import ScopeLint.Proofs.Editor.Session
import ScopeLint.Proofs.Editor.Uris
import ScopeLint.Proofs.File.Path
import ScopeLint.Proofs.File.Tree
import ScopeLint.Proofs.Lint.Levels
import ScopeLint.Proofs.Lint.Order
import ScopeLint.Proofs.Lists
import ScopeLint.Proofs.Outcome
import ScopeLint.Proofs.Project.Assembly
import ScopeLint.Proofs.Project.Chains
import ScopeLint.Proofs.Project.CreditRule
import ScopeLint.Proofs.Project.Credits
import ScopeLint.Proofs.Project.CycleReports
import ScopeLint.Proofs.Project.Cycles
import ScopeLint.Proofs.Project.DisplayNames
import ScopeLint.Proofs.Project.FirstChains
import ScopeLint.Proofs.Project.Imports
import ScopeLint.Proofs.Project.IndirectEvidence
import ScopeLint.Proofs.Project.IndirectImports
import ScopeLint.Proofs.Project.Loading
import ScopeLint.Proofs.Project.Locality
import ScopeLint.Proofs.Project.Overlay
import ScopeLint.Proofs.Project.Reimport
import ScopeLint.Proofs.Project.Relocation
import ScopeLint.Proofs.Project.Scopes
import ScopeLint.Proofs.Project.Scripts
import ScopeLint.Proofs.Project.ShortestChains
import ScopeLint.Proofs.Project.StrictMode
import ScopeLint.Proofs.Project.UnusedCredits
import ScopeLint.Proofs.Project.UnusedImports
import ScopeLint.Proofs.Project.UsageReports
import ScopeLint.Proofs.Project.Visibility
import ScopeLint.Proofs.Prompt
import ScopeLint.Proofs.Script.AllowComments
import ScopeLint.Proofs.Script.CleanNames
import ScopeLint.Proofs.Script.Columns
import ScopeLint.Proofs.Script.Items
import ScopeLint.Proofs.Script.LineEndings
import ScopeLint.Proofs.Script.LineForms
import ScopeLint.Proofs.Script.LineGrammar
import ScopeLint.Proofs.Script.Lines
import ScopeLint.Proofs.Script.Occurrences
import ScopeLint.Proofs.Script.Places
import ScopeLint.Proofs.Script.UsagePlaces
import ScopeLint.Proofs.Source.Glyphs
import ScopeLint.Proofs.Source.Lookahead
import ScopeLint.Proofs.Source.Pieces
import ScopeLint.Proofs.Source.Places
import ScopeLint.Proofs.Source.Respacing
import ScopeLint.Proofs.Source.Shift
import ScopeLint.Proofs.Terminal.Carets
import ScopeLint.Proofs.Text.Ascii
import ScopeLint.Proofs.Text.Case
import ScopeLint.Proofs.Text.Classes
import ScopeLint.Proofs.Text.Decoding
import ScopeLint.Proofs.Text.Folding
import ScopeLint.Proofs.Text.Split
import ScopeLint.Proofs.Text.Utf8
import ScopeLint.Proofs.Token.Acceptance
import ScopeLint.Proofs.Token.Acts
import ScopeLint.Proofs.Token.ClassBodies
import ScopeLint.Proofs.Token.Comments
import ScopeLint.Proofs.Token.Coverage
import ScopeLint.Proofs.Token.Dump
import ScopeLint.Proofs.Token.Grouping
import ScopeLint.Proofs.Token.Increments
import ScopeLint.Proofs.Token.Lines
import ScopeLint.Proofs.Token.Moves
import ScopeLint.Proofs.Token.Names
import ScopeLint.Proofs.Token.Nesting
import ScopeLint.Proofs.Token.Parting
import ScopeLint.Proofs.Token.Readings
import ScopeLint.Proofs.Token.Refusal
import ScopeLint.Proofs.Token.Respacing
import ScopeLint.Proofs.Token.Separators
import ScopeLint.Proofs.Token.Shift
import ScopeLint.Proofs.Tree.Agreement
import ScopeLint.Proofs.Tree.Blanking
import ScopeLint.Proofs.Tree.Bounds
import ScopeLint.Proofs.Tree.Comments
import ScopeLint.Proofs.Tree.Coverage
import ScopeLint.Proofs.Tree.Layout
import ScopeLint.Proofs.Tree.Lines
import ScopeLint.Proofs.Tree.Progress
import ScopeLint.Proofs.Tree.Reader
import ScopeLint.Proofs.Tree.Respaced
import ScopeLint.Proofs.Tree.Respacing
import ScopeLint.Proofs.Tree.Scanner
import ScopeLint.Proofs.Tree.Scanning
import ScopeLint.Proofs.Tree.Shape
import ScopeLint.Proofs.Watcher.Batches
import ScopeLint.Proofs.Watcher.Observation
import ScopeLint.Script.Basic
import ScopeLint.Script.Item
import ScopeLint.Script.Line
import ScopeLint.Settings
import ScopeLint.Source.Fault
import ScopeLint.Source.Glyph
import ScopeLint.Source.Location
import ScopeLint.Source.Lookahead
import ScopeLint.Table
import ScopeLint.Terminal.Color
import ScopeLint.Terminal.Snippet
import ScopeLint.Text.Basic
import ScopeLint.Text.Blank
import ScopeLint.Text.Case
import ScopeLint.Text.Digit
import ScopeLint.Text.Hex
import ScopeLint.Text.Integer
import ScopeLint.Text.Letter
import ScopeLint.Text.Printable
import ScopeLint.Text.Quoted
import ScopeLint.Text.Ranges
import ScopeLint.Text.Search
import ScopeLint.Text.Utf8
import ScopeLint.Token.Basic
import ScopeLint.Token.Classify
import ScopeLint.Token.Dump
import ScopeLint.Toml.Document
import ScopeLint.Toml.Draft
import ScopeLint.Toml.Fault
import ScopeLint.Toml.Key
import ScopeLint.Toml.Moment
import ScopeLint.Toml.Number
import ScopeLint.Toml.Quoted
import ScopeLint.Toml.Scalar
import ScopeLint.Toml.Scan
import ScopeLint.Tree.Basic
import ScopeLint.Tree.Reader
import ScopeLint.Tree.Scanner
import ScopeLint.Watcher
