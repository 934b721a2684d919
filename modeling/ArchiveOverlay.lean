import ArchiveOverlay.Archive.Basic
import ArchiveOverlay.Archive.Container
import ArchiveOverlay.Archive.Content
import ArchiveOverlay.Archive.Directory
import ArchiveOverlay.Archive.Entry
import ArchiveOverlay.Archive.Load
import ArchiveOverlay.Archive.Memory
import ArchiveOverlay.ArchiveSource
import ArchiveOverlay.Bytes
import ArchiveOverlay.Command.Configure
import ArchiveOverlay.Command.Extract
import ArchiveOverlay.Command.Inspect
import ArchiveOverlay.Command.Run
import ArchiveOverlay.CommandError
import ArchiveOverlay.CommandLine
import ArchiveOverlay.Conflict
import ArchiveOverlay.Describe
import ArchiveOverlay.Digest.Crc32
import ArchiveOverlay.Digest.Xxh3
import ArchiveOverlay.Disk.Basic
import ArchiveOverlay.Disk.Change
import ArchiveOverlay.Disk.Difference
import ArchiveOverlay.Disk.HostPath
import ArchiveOverlay.Disk.Resolve
import ArchiveOverlay.Error
import ArchiveOverlay.Export
import ArchiveOverlay.Extract
import ArchiveOverlay.Inflate.Bits
import ArchiveOverlay.Inflate.Block
import ArchiveOverlay.Inflate.Code
import ArchiveOverlay.Inflate.Delivery
import ArchiveOverlay.Inflate.Expand
import ArchiveOverlay.Main
import ArchiveOverlay.Mount
import ArchiveOverlay.Ordered
import ArchiveOverlay.Overlay
import ArchiveOverlay.Path
import ArchiveOverlay.Profile
import ArchiveOverlay.Proofs.Archive.Children
import ArchiveOverlay.Proofs.Archive.Containers
import ArchiveOverlay.Proofs.Archive.Entries
import ArchiveOverlay.Proofs.Archive.Enumeration
import ArchiveOverlay.Proofs.Archive.Exchange
import ArchiveOverlay.Proofs.Archive.Indexing
import ArchiveOverlay.Proofs.Archive.Loading
import ArchiveOverlay.Proofs.Disk.Following
import ArchiveOverlay.Proofs.Disk.Frame
import ArchiveOverlay.Proofs.Disk.HostPath
import ArchiveOverlay.Proofs.Disk.Locating
import ArchiveOverlay.Proofs.Disk.Making
import ArchiveOverlay.Proofs.Disk.Nodes
import ArchiveOverlay.Proofs.Disk.Placing
import ArchiveOverlay.Proofs.Disk.Tree
import ArchiveOverlay.Proofs.Export.Accounts
import ArchiveOverlay.Proofs.Export.Cancellation
import ArchiveOverlay.Proofs.Export.Log
import ArchiveOverlay.Proofs.Export.Names
import ArchiveOverlay.Proofs.Export.Preservation
import ArchiveOverlay.Proofs.Export.Schedule
import ArchiveOverlay.Proofs.Export.Sharing
import ArchiveOverlay.Proofs.Export.Tree
import ArchiveOverlay.Proofs.Export.Writing
import ArchiveOverlay.Proofs.Extract.Damage
import ArchiveOverlay.Proofs.Extract.Journal
import ArchiveOverlay.Proofs.Extract.Outcome
import ArchiveOverlay.Proofs.Extract.Streaming
import ArchiveOverlay.Proofs.Extract.ToFile
import ArchiveOverlay.Proofs.Inflate.Delivery
import ArchiveOverlay.Proofs.Mount.History
import ArchiveOverlay.Proofs.Mount.Ranking
import ArchiveOverlay.Proofs.Mount.Run
import ArchiveOverlay.Proofs.Ordered
import ArchiveOverlay.Proofs.Overlay.Comparison
import ArchiveOverlay.Proofs.Overlay.Conflicts
import ArchiveOverlay.Proofs.Overlay.Exchange
import ArchiveOverlay.Proofs.Overlay.Listing
import ArchiveOverlay.Proofs.Overlay.Resolution
import ArchiveOverlay.Proofs.Overlay.Spelling
import ArchiveOverlay.Proofs.Overlay.Summary
import ArchiveOverlay.Proofs.Overlay.Walk
import ArchiveOverlay.Proofs.Path.Below
import ArchiveOverlay.Proofs.Path.Climbing
import ArchiveOverlay.Proofs.Path.Descent
import ArchiveOverlay.Proofs.Path.Reading
import ArchiveOverlay.Proofs.Path.Spelling
import ArchiveOverlay.Proofs.Report.Size
import ArchiveOverlay.Proofs.Session.Argument
import ArchiveOverlay.Proofs.Session.Settings
import ArchiveOverlay.Proofs.Session.Start
import ArchiveOverlay.Proofs.Text.ByteOrder
import ArchiveOverlay.Proofs.Text.Casing
import ArchiveOverlay.Proofs.Text.Lowercase
import ArchiveOverlay.Proofs.Text.Numeral
import ArchiveOverlay.Proofs.Toml.Lines
import ArchiveOverlay.Proofs.Toml.Strings
import ArchiveOverlay.Proofs.Zip.Container
import ArchiveOverlay.Proofs.Zip.Members
import ArchiveOverlay.Report.Box
import ArchiveOverlay.Report.Duration
import ArchiveOverlay.Report.Json
import ArchiveOverlay.Report.Size
import ArchiveOverlay.Report.Style
import ArchiveOverlay.Report.Transcript
import ArchiveOverlay.Session
import ArchiveOverlay.Settings
import ArchiveOverlay.Sink
import ArchiveOverlay.Source
import ArchiveOverlay.Text.Blank
import ArchiveOverlay.Text.CaseIgnorableTable
import ArchiveOverlay.Text.CasedTable
import ArchiveOverlay.Text.CodePage437
import ArchiveOverlay.Text.Decimal
import ArchiveOverlay.Text.ExtenderTable
import ArchiveOverlay.Text.Lines
import ArchiveOverlay.Text.LowerTable
import ArchiveOverlay.Text.Lowercase
import ArchiveOverlay.Text.Order
import ArchiveOverlay.Text.Quoted
import ArchiveOverlay.Text.Ranges
import ArchiveOverlay.Text.UnprintableTable
import ArchiveOverlay.Text.Utf8
import ArchiveOverlay.Toml.DateTime
import ArchiveOverlay.Toml.Document
import ArchiveOverlay.Toml.Number
import ArchiveOverlay.Toml.Scan
import ArchiveOverlay.Toml.Tables
import ArchiveOverlay.Toml.Text
import ArchiveOverlay.Toml.Value
import ArchiveOverlay.Toml.Write
import ArchiveOverlay.Zip.Container
import ArchiveOverlay.Zip.Content
