import Launcher.Action
import Launcher.Bytes.Basic
import Launcher.Bytes.Utf8
import Launcher.Checksum.Crc32
import Launcher.Checksum.Sha256
import Launcher.Config
import Launcher.Config.Document
import Launcher.Dict
import Launcher.Environment
import Launcher.Files.FileSystem
import Launcher.Files.Path
import Launcher.Flags
import Launcher.Freeze.App
import Launcher.Freeze.Collect
import Launcher.Freeze.Error
import Launcher.Freeze.Listing
import Launcher.Freeze.Manifest
import Launcher.Freeze.Plan
import Launcher.Freeze.SourceRoot
import Launcher.Import.Module
import Launcher.Main
import Launcher.Number.Decimal
import Launcher.Number.Double
import Launcher.Proofs.Action
import Launcher.Proofs.Run.Isolation
import Launcher.Proofs.Script.Operands
import Launcher.Run.CommandLine
import Launcher.Run.Context
import Launcher.Run.Dispatcher
import Launcher.Run.Error
import Launcher.Run.Mode
import Launcher.Run.Usage
import Launcher.Script.Code
import Launcher.Script.Code.Bytes
import Launcher.Script.Code.Compile
import Launcher.Script.Machine
import Launcher.Script.Machine.Call
import Launcher.Script.Machine.Exec
import Launcher.Script.Session
import Launcher.Script.Token
import Launcher.Script.Token.Scan
import Launcher.Script.Tree
import Launcher.Script.Tree.Reading
import Launcher.Script.Value
import Launcher.Script.Value.Arithmetic
import Launcher.Search.Finder
import Launcher.Search.Installation
import Launcher.Search.SearchPath
import Launcher.Search.Site
import Launcher.Streams
import Launcher.Table.Builder
import Launcher.Table.Error
import Launcher.Table.Format
import Launcher.Table.Source
import Launcher.Table.Unit
import Launcher.Table.View
import Launcher.Target.Error
import Launcher.Target.Host
import Launcher.Text.Blank
import Launcher.Text.Case.Lower
import Launcher.Text.Case.Table
import Launcher.Text.CodePage437
import Launcher.Text.DigitGroups
import Launcher.Text.Integer
import Launcher.Text.Quoted
import Launcher.Text.Unprintable
import Launcher.Toml.Fields
import Launcher.Toml.Moment
import Launcher.Toml.Number
import Launcher.Toml.Quoted
import Launcher.Toml.Reading
import Launcher.Toml.Space
import Launcher.Toml.Table
import Launcher.Toml.Value
import Launcher.Warning
import Launcher.Zip.Archive
import Launcher.Zip.Directory
import Launcher.Zip.Extra
import Launcher.Zip.Inflate
import Launcher.Zip.Writer
import Launcher.Proofs.Script.Balance
import Launcher.Proofs.Script.Pools
import Launcher.Proofs.Script.Path
import Launcher.Proofs.Script.StackSafety
import Launcher.Proofs.Script.Evaluation
import Launcher.Proofs.Script.Grammar
import Launcher.Proofs.Script.Pieces
import Launcher.Proofs.Script.Lines
import Launcher.Proofs.Script.Reading
import Launcher.Proofs.Script.Meaning
import Launcher.Proofs.Table.RoundTrip
import Launcher.Proofs.Table.Build
import Launcher.Proofs.Table.Lookup
import Launcher.Proofs.Table.Order
import Launcher.Proofs.Script.Completeness
import Launcher.Proofs.Script.Acceptance
import Launcher.Proofs.Script.Scanning
import Launcher.Proofs.Script.Printing
import Launcher.Proofs.Script.Size
import Launcher.Proofs.Script.Spelling
import Launcher.Proofs.Script.UnusedOperands
import Launcher.Proofs.Script.CodeBytes
import Launcher.Proofs.Text
import Launcher.Proofs.Files.Look
import Launcher.Proofs.Freeze.Collect
import Launcher.Proofs.Freeze.Lookup
import Launcher.Proofs.Script.Quiet
import Launcher.Proofs.Script.Agreement
import Launcher.Proofs.Freeze.Import
import Launcher.Proofs.Freeze.Correspondence
import Launcher.Proofs.Names
import Launcher.Proofs.Script.Changes
import Launcher.Proofs.Script.Nesting
import Launcher.Proofs.Script.Loading
import Launcher.Proofs.Script.StartedOnce
import Launcher.Proofs.Script.Sessions
import Launcher.Proofs.Script.Packages
import Launcher.Proofs.Search.Blocking
import Launcher.Proofs.Search.Shelves
import Launcher.Proofs.Search.ArchivedTree
import Launcher.Proofs.Script.Seams
import Launcher.Proofs.Script.Layout
import Launcher.Proofs.Script.Joining
import Launcher.Proofs.Script.Switches
import Launcher.Proofs.Script.Integers
import Launcher.Proofs.Checksum.Crc32
import Launcher.Proofs.Table.Accepted
import Launcher.Proofs.Table.Trailing
import Launcher.Proofs.Table.Names
import Launcher.Proofs.Table.Damaged
import Launcher.Proofs.Table.Canonical
import Launcher.Proofs.Table.Layout
import Launcher.Proofs.Table.Source
import Launcher.Proofs.Files.Absolute
import Launcher.Proofs.Search.SafePath
import Launcher.Proofs.Streams
import Launcher.Proofs.Run.Preparation
import Launcher.Proofs.Run.Calls
import Launcher.Proofs.Number.Nearest
import Launcher.Proofs.Number.Digits
import Launcher.Proofs.Number.Double
import Launcher.Proofs.Script.Comparison
import Launcher.Proofs.Script.Warnings
import Launcher.Proofs.Search.Enclosing
import Launcher.Proofs.Run.Arguments
import Launcher.Proofs.Run.SwitchOrder
import Launcher.Proofs.Files.Parts
import Launcher.Proofs.Search.Places
import Launcher.Proofs.Search.ScriptDirectory
import Launcher.Proofs.Files.Canonical
import Launcher.Proofs.Files.Home
import Launcher.Proofs.Run.Stopping
import Launcher.Proofs.Search.PathFileLines
import Launcher.Proofs.Search.Sources
import Launcher.Proofs.Search.PathFiles
import Launcher.Proofs.Search.Composition
import Launcher.Proofs.Freeze.Prefixed
import Launcher.Proofs.Script.Halting
import Launcher.Proofs.Run.ExitStatus
import Launcher.Proofs.Filters
import Launcher.Proofs.Script.Traces
import Launcher.Proofs.Script.Variables
import Launcher.Proofs.Run.Output
import Launcher.Proofs.Script.PoolGrowth
import Launcher.Proofs.Script.Emission
import Launcher.Proofs.Script.TokenForm
import Launcher.Proofs.Zip.RoundTrip
import Launcher.Proofs.Files.Stored
import Launcher.Proofs.Files.Written
import Launcher.Proofs.Search.FoundCode
import Launcher.Proofs.Freeze.App
