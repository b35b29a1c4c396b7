import LineEditor.Buffer.Breach
import LineEditor.Buffer.Edit
import LineEditor.Buffer.Labels
import LineEditor.Buffer.LineMap
import LineEditor.Buffer.Pool
import LineEditor.Buffer.Undo
import LineEditor.Buffer.Window
import LineEditor.Command.Address
import LineEditor.Command.Basic
import LineEditor.Command.Delimited
import LineEditor.Command.Dispatch
import LineEditor.Command.Entry
import LineEditor.Command.Error
import LineEditor.Command.File
import LineEditor.Command.Global
import LineEditor.Command.Line
import LineEditor.Command.Number
import LineEditor.Command.Pattern
import LineEditor.Command.Progress
import LineEditor.Command.Report
import LineEditor.Command.Resolve
import LineEditor.Command.SubstituteRequest
import LineEditor.CommandLoop
import LineEditor.Config
import LineEditor.Engine.Basic
import LineEditor.Engine.Exchange
import LineEditor.Engine.Sessions
import LineEditor.Main
import LineEditor.Regex.Fault
import LineEditor.Regex.Look
import LineEditor.Regex.Matcher
import LineEditor.Regex.Meaning
import LineEditor.Regex.Node
import LineEditor.Regex.Parser
import LineEditor.Regex.Parser.Blanks
import LineEditor.Regex.Parser.Bracket
import LineEditor.Regex.Parser.Escape
import LineEditor.Regex.Parser.Opening
import LineEditor.Regex.Parser.Repetition
import LineEditor.Regex.Program
import LineEditor.Regex.Search
import LineEditor.Regex.Tree
import LineEditor.Session.Basic
import LineEditor.Session.Table
import LineEditor.Storage.FileTree
import LineEditor.Substitution.Basic
import LineEditor.Substitution.Template
import LineEditor.Text.Blob
import LineEditor.Text.Bytes
import LineEditor.Text.Listing
import LineEditor.Text.Markup
import LineEditor.Text.Quoted
import LineEditor.Text.Utf8
import LineEditor.Toml.Parser
import LineEditor.Toml.Scalar
import LineEditor.Toml.Text
import LineEditor.Toml.Value
import LineEditor.Unicode.Age
import LineEditor.Unicode.Binary
import LineEditor.Unicode.CaseFold
import LineEditor.Unicode.Category
import LineEditor.Unicode.Classes
import LineEditor.Unicode.CodeSet
import LineEditor.Unicode.Packed
import LineEditor.Unicode.Property
import LineEditor.Unicode.Script
import LineEditor.Proofs.Ends
import LineEditor.Proofs.Accounts
import LineEditor.Proofs.Window
import LineEditor.Proofs.Edit
import LineEditor.Proofs.Undo
import LineEditor.Proofs.Engine
import LineEditor.Proofs.Query
import LineEditor.Proofs.Plan
import LineEditor.Proofs.Transaction
import LineEditor.Proofs.Recorded
import LineEditor.Proofs.LineCommands
import LineEditor.Proofs.GlobalCommands
import LineEditor.Proofs.TypedText
import LineEditor.Proofs.Exchange
import LineEditor.Proofs.Sessions
import LineEditor.Proofs.FileCommands
import LineEditor.Proofs.Dispatch
import LineEditor.Proofs.Runs
import LineEditor.Proofs.Breaches
import LineEditor.Proofs.Rows
import LineEditor.Proofs.Desk
import LineEditor.Proofs.Leads
import LineEditor.Proofs.Markup
import LineEditor.Proofs.Frames
import LineEditor.Proofs.Pages
import LineEditor.Proofs.Shelves
import LineEditor.Proofs.Browsing
import LineEditor.Proofs.Origins
import LineEditor.Proofs.Walks
import LineEditor.Proofs.Categories
import LineEditor.Proofs.Globals
import LineEditor.Proofs.Lookalikes
import LineEditor.Proofs.Blobs
import LineEditor.Proofs.Endings
import LineEditor.Proofs.Bulk
import LineEditor.Proofs.Invariants
import LineEditor.Proofs.KeptRuns
import LineEditor.Proofs.Texts
import LineEditor.Proofs.ProperTexts
import LineEditor.Proofs.ProperRuns
import LineEditor.Proofs.StoredLines
import LineEditor.Proofs.SaveAndLoad
import LineEditor.Proofs.Requests
import LineEditor.Proofs.InPlace
import LineEditor.Proofs.Turns
import LineEditor.Proofs.Neighbours
import LineEditor.Proofs.Warnings
import LineEditor.Proofs.Saved
import LineEditor.Proofs.Terminators
import LineEditor.Proofs.Deeds
import LineEditor.Proofs.Handles
import LineEditor.Proofs.Tables
import LineEditor.Proofs.Owners
import LineEditor.Proofs.Ceilings
import LineEditor.Proofs.Elsewhere
import LineEditor.Proofs.KeptRecords
import LineEditor.Proofs.BinaryWindows
import LineEditor.Proofs.Reports
import LineEditor.Proofs.Directories
import LineEditor.Proofs.Heeding
import LineEditor.Proofs.Interrupts
import LineEditor.Proofs.Places
import LineEditor.Proofs.Opening
import LineEditor.Proofs.Located
import LineEditor.Proofs.ListFunctions
import LineEditor.Proofs.Rewriting
import LineEditor.Proofs.Substituting
import LineEditor.Proofs.Replacing
import LineEditor.Proofs.TextEntries
import LineEditor.Proofs.Filtering
import LineEditor.Proofs.Gathering
import LineEditor.Proofs.Numbering
import LineEditor.Proofs.Paths
import LineEditor.Proofs.EmptyMatches
import LineEditor.Proofs.NearestLine
import LineEditor.Proofs.Resemblance
import LineEditor.Proofs.FreshCaptures
import LineEditor.Proofs.Overlays
import LineEditor.Proofs.Rereading
import LineEditor.Proofs.LineByLine
import LineEditor.Proofs.AllLines
import LineEditor.Proofs.Delimiters
import LineEditor.Proofs.Addresses
import LineEditor.Proofs.Ranges
import LineEditor.Proofs.CommandLines
import LineEditor.Proofs.Resolution
import LineEditor.Proofs.Defaults
import LineEditor.Proofs.Flags
import LineEditor.Proofs.Listings
import LineEditor.Proofs.Recalls
import LineEditor.Proofs.Standings
import LineEditor.Proofs.Remembered
import LineEditor.Proofs.Reuses
import LineEditor.Proofs.Escapes
import LineEditor.Proofs.Templates
import LineEditor.Proofs.Slots
import LineEditor.Proofs.Decoding
import LineEditor.Proofs.Dialogue
import LineEditor.Proofs.Tokens
import LineEditor.Proofs.Overflows
