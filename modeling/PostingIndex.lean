import PostingIndex.Notice
import PostingIndex.Config
import PostingIndex.Pool
import PostingIndex.HeadTable
import PostingIndex.Chain
import PostingIndex.Chain.Packing
import PostingIndex.Index.Audit
import PostingIndex.Index.Statistics
import PostingIndex.Query
import PostingIndex.Game.Batch
import PostingIndex.File.View
import PostingIndex.Text.Calendar
import PostingIndex.Text.Size
import PostingIndex.Chain.ChangeList
import PostingIndex.Json.Printer
import PostingIndex.Game.Document
import PostingIndex.Config.Document
import PostingIndex.Command
import PostingIndex.CommandLine
import PostingIndex.Main
import PostingIndex.Proofs.Outcome
import PostingIndex.Proofs.Ascending
import PostingIndex.Proofs.OrderedPostings
import PostingIndex.Proofs.PostingCounts
import PostingIndex.Proofs.Routing
import PostingIndex.Proofs.ChainWalk
import PostingIndex.Proofs.PoolSupply
import PostingIndex.Proofs.RunPacking
import PostingIndex.Proofs.BlockNumbers
import PostingIndex.Proofs.ArenaWrites
import PostingIndex.Proofs.UsableConfig
import PostingIndex.Proofs.Slots
import PostingIndex.Proofs.Layout
import PostingIndex.Proofs.Isolation
import PostingIndex.Proofs.Repacking
import PostingIndex.Proofs.Audit
import PostingIndex.Proofs.Soundness
import PostingIndex.Proofs.Calls
import PostingIndex.Proofs.Ledger
import PostingIndex.Proofs.FileReading
import PostingIndex.Proofs.Answers
import PostingIndex.Proofs.Steps
import PostingIndex.Proofs.HeaderCodec
import PostingIndex.Proofs.PageCodec
import PostingIndex.Proofs.TableCodec
import PostingIndex.Proofs.Unpacking
import PostingIndex.Proofs.FreePages
import PostingIndex.Proofs.FileWriting
import PostingIndex.Proofs.Storing
import PostingIndex.Proofs.PeakBlocks
import PostingIndex.Proofs.TightChains
import PostingIndex.Proofs.SettledChains
import PostingIndex.Proofs.Pointers
import PostingIndex.Proofs.DirectoryWrites
import PostingIndex.Proofs.Commands
import PostingIndex.Proofs.ViewAgreement
import PostingIndex.Proofs.References
import PostingIndex.Proofs.BatchRequests
import PostingIndex.Proofs.Introduction
import PostingIndex.Proofs.BatchRuns
import PostingIndex.Proofs.BatchExtents
import PostingIndex.Proofs.BatchCounts
import PostingIndex.Proofs.OneByOne
import PostingIndex.Proofs.Mirroring
import PostingIndex.Proofs.Replaying
import PostingIndex.Proofs.SparedEntities
import PostingIndex.Proofs.HeaderFields
import PostingIndex.Proofs.WalkEnds
import PostingIndex.Proofs.UpdateInPlace
import PostingIndex.Proofs.Segments
import PostingIndex.Proofs.CutFiles
import PostingIndex.Proofs.TableBytes
import PostingIndex.Proofs.PageBytes
import PostingIndex.Proofs.OpenedViews
import PostingIndex.Proofs.LiveCounts
import PostingIndex.Proofs.Queries
import PostingIndex.Proofs.AppearanceCounts
import PostingIndex.Proofs.Accounting
import PostingIndex.Proofs.BatchReports
import PostingIndex.Proofs.LiveNumbers
import PostingIndex.Proofs.TextReading
import PostingIndex.Proofs.WrittenChanges
