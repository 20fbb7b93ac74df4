import CodeAgent.Act.Ask
import CodeAgent.Act.Basic
import CodeAgent.BackendError
import CodeAgent.Change
import CodeAgent.Chat.Message
import CodeAgent.Chat.Reply
import CodeAgent.Chat.Schema
import CodeAgent.CommandPolicy
import CodeAgent.Console.Report
import CodeAgent.Console.Command
import CodeAgent.Console.Invocation
import CodeAgent.Console.Line
import CodeAgent.Decimal.Double
import CodeAgent.Decimal.Shortest
import CodeAgent.Diff.Script
import CodeAgent.Diff.Unified
import CodeAgent.Digest.Sha256
import CodeAgent.Fault
import CodeAgent.Ignore.Glob
import CodeAgent.Ignore.Rule
import CodeAgent.Index.Build
import CodeAgent.Index.Graph
import CodeAgent.Index.Language
import CodeAgent.Index.Metrics
import CodeAgent.Index.Outline
import CodeAgent.Index.Record
import CodeAgent.Index.Resolve
import CodeAgent.Index.Stats
import CodeAgent.Index.Symbols
import CodeAgent.Json.Basic
import CodeAgent.Json.Decode
import CodeAgent.Json.Leaves
import CodeAgent.Json.Overlay
import CodeAgent.Json.Reader
import CodeAgent.Json.Writer
import CodeAgent.Main
import CodeAgent.Outline.Findings
import CodeAgent.Outline.Go
import CodeAgent.Outline.OfFile
import CodeAgent.Outline.Python
import CodeAgent.Outline.Rust
import CodeAgent.Outline.TypeScript
import CodeAgent.Path.Lexical
import CodeAgent.Project.FileTree
import CodeAgent.Project.Files
import CodeAgent.Project.Scan
import CodeAgent.Project.Listing
import CodeAgent.Project.Script
import CodeAgent.Project.World
import CodeAgent.Recovery
import CodeAgent.Session.Basic
import CodeAgent.Session.Lifecycle
import CodeAgent.Settings
import CodeAgent.Settings.Files
import CodeAgent.Store.Database
import CodeAgent.Store.Dump
import CodeAgent.Store.Call
import CodeAgent.Store.Memory
import CodeAgent.Syntax.Go.Grammar
import CodeAgent.Syntax.Go.Lexer
import CodeAgent.Syntax.Node
import CodeAgent.Syntax.Parser
import CodeAgent.Syntax.Python.Grammar
import CodeAgent.Syntax.Python.Lexer
import CodeAgent.Syntax.Rust.Grammar
import CodeAgent.Syntax.Rust.Lexer
import CodeAgent.Syntax.Token
import CodeAgent.Syntax.TypeScript.Grammar
import CodeAgent.Syntax.TypeScript.Lexer
import CodeAgent.Table
import CodeAgent.Text.Word
import CodeAgent.Text.Casing
import CodeAgent.Text.Digits
import CodeAgent.Text.Find
import CodeAgent.Text.Identifier
import CodeAgent.Text.Lines
import CodeAgent.Text.Utf8
import CodeAgent.Tool.Analysis
import CodeAgent.Tool.Arguments
import CodeAgent.Tool.Edit
import CodeAgent.Tool.Process
import CodeAgent.Tool.Project
import CodeAgent.Tool.Read
import CodeAgent.Tool.Registry
import CodeAgent.Tool.Repository
import CodeAgent.Tool.Result
import CodeAgent.Tool.Run
import CodeAgent.Tool.Search
import CodeAgent.Tool.Standard
import CodeAgent.Turn.Event
import CodeAgent.Turn.Gate
import CodeAgent.Turn.Prompt
import CodeAgent.Turn.Run
import CodeAgent.Turn.State
import CodeAgent.Workspace
import CodeAgent.Proofs.Act.Trace
import CodeAgent.Proofs.Tool.Registry
import CodeAgent.Proofs.Turn.Walk
import CodeAgent.Proofs.Turn.Approval
import CodeAgent.Proofs.Turn.Step
import CodeAgent.Proofs.Turn.Rounds
import CodeAgent.Proofs.Project.World
import CodeAgent.Proofs.Turn.Legal
import CodeAgent.Proofs.Session.Lifecycle
import CodeAgent.Proofs.Turn.Account
import CodeAgent.Proofs.Turn.Books
import CodeAgent.Proofs.Tool.Looking
import CodeAgent.Proofs.Tool.Planning
import CodeAgent.Proofs.Tool.Editing
import CodeAgent.Proofs.Tool.Standard
import CodeAgent.Proofs.Turn.Gatekeeping
import CodeAgent.Proofs.Path.Canonical
import CodeAgent.Proofs.Store.Tables
import CodeAgent.Proofs.Project.FileTree
import CodeAgent.Proofs.Project.Undo
import CodeAgent.Proofs.Tool.Remembering
import CodeAgent.Proofs.Turn.Reversal
import CodeAgent.Proofs.Session.Reachable
import CodeAgent.Proofs.Chat.Pairing
import CodeAgent.Proofs.Turn.Conversation
import CodeAgent.Proofs.Project.Scanning
import CodeAgent.Proofs.Tool.Observing
import CodeAgent.Proofs.Tool.FileTool
import CodeAgent.Proofs.Tool.Overwriting
import CodeAgent.Proofs.Tool.Failing
import CodeAgent.Proofs.Tool.Approving
import CodeAgent.Proofs.Json.RoundTrip
import CodeAgent.Proofs.Json.Restoring
import CodeAgent.Proofs.Store.Database
import CodeAgent.Proofs.Store.Documents
import CodeAgent.Proofs.Store.Commit
import CodeAgent.Proofs.Index.Graph
import CodeAgent.Proofs.Index.Metrics
import CodeAgent.Proofs.Index.Sites
import CodeAgent.Proofs.Index.Derived
import CodeAgent.Proofs.Project.Indexed
import CodeAgent.Proofs.Json.Nesting
import CodeAgent.Proofs.Store.Aspect
import CodeAgent.Proofs.Store.Interchange
import CodeAgent.Proofs.Recovery.Budget
import CodeAgent.Proofs.Turn.Recovering
import CodeAgent.Proofs.Turn.Bounded
import CodeAgent.Proofs.Turn.Holding
import CodeAgent.Proofs.Turn.Interleaving
import CodeAgent.Proofs.Json.Likeness
import CodeAgent.Proofs.Session.Document
import CodeAgent.Proofs.Session.Newest
import CodeAgent.Proofs.Session.Counted
import CodeAgent.Proofs.Store.Rows
import CodeAgent.Proofs.Store.Sessions
import CodeAgent.Proofs.Turn.Storing
import CodeAgent.Proofs.Store.Apart
import CodeAgent.Proofs.Project.Apart
import CodeAgent.Proofs.Recovery.Retrying
import CodeAgent.Proofs.Path.Containing
import CodeAgent.Proofs.Tool.Splicing
import CodeAgent.Proofs.Text.Parts
import CodeAgent.Proofs.Text.Spacing
import CodeAgent.Proofs.Command.Judging
import CodeAgent.Proofs.Command.Chaining
import CodeAgent.Proofs.Command.Growing
import CodeAgent.Proofs.Path.Parent
import CodeAgent.Proofs.Index.Resolving
import CodeAgent.Proofs.Path.Settling
import CodeAgent.Proofs.Text.Cutting
import CodeAgent.Proofs.Index.Relative
import CodeAgent.Proofs.Index.Scripts
import CodeAgent.Proofs.Tool.Scoping
import CodeAgent.Proofs.Tool.Agreeing
import CodeAgent.Proofs.Outline.Using
import CodeAgent.Proofs.Outline.Importing
import CodeAgent.Proofs.Outline.Siting
import CodeAgent.Proofs.Index.Linking
import CodeAgent.Proofs.Outline.Methods
import CodeAgent.Proofs.Outline.Exporting
import CodeAgent.Proofs.Tool.Complaining
import CodeAgent.Proofs.Tool.Counting
import CodeAgent.Proofs.Tool.Naming
import CodeAgent.Proofs.Turn.Viewing
import CodeAgent.Proofs.Tool.Returning
import CodeAgent.Proofs.Settings.Overriding
import CodeAgent.Proofs.Tool.Structuring
import CodeAgent.Proofs.Tool.Reporting
import CodeAgent.Proofs.Text.Capping
import CodeAgent.Proofs.Text.Decoding
import CodeAgent.Proofs.Tool.Capturing
import CodeAgent.Proofs.Project.Copying
