import Recorder.Lib.Merge
import Recorder.Lib.MergeFilter
import Recorder.Lib.FoldCode
import Recorder.Model.Helper
import Recorder.Analysis.Crc
import Recorder.Model.Segment
import Recorder.Model.SegmentScan
import Recorder.Model.FrameReader
import Recorder.Analysis.SegmentFormat
import Recorder.Analysis.SegmentLoop
import Recorder.Analysis.SegmentRoundTrip
import Recorder.Analysis.SegmentFile
import Recorder.Model.Recovery
import Recorder.Analysis.SegmentTruncate
import Recorder.Analysis.FrameReader
import Recorder.Analysis.SegmentPrefix
import Recorder.Analysis.Recovery
import Recorder.Model.Store
import Recorder.Model.Index
import Recorder.Analysis.IndexFile
import Recorder.Analysis.IndexCover
import Recorder.Analysis.SegmentDelivery
import Recorder.Analysis.IndexRebuild
import Recorder.Analysis.SingleFrame
import Recorder.Analysis.ByteChange
import Recorder.Model.Source
import Recorder.Model.Follow
import Recorder.Model.Reader
import Recorder.Analysis.SourceStream
import Recorder.Analysis.EntryOrder
import Recorder.Analysis.Iterator
import Recorder.Analysis.IndexIndependence
import Recorder.Lib.Heap
import Recorder.Analysis.UnitStream
import Recorder.Model.Wallclock
import Recorder.Analysis.WallclockHeap
import Recorder.Analysis.WallclockAgree
import Recorder.Analysis.FollowScan
import Recorder.Analysis.FollowRun
import Recorder.Model.Boot
import Recorder.Model.Writer
import Recorder.Model.IndexedWriter
import Recorder.Model.EntryFormat
import Recorder.Model.Recorder
import Recorder.Analysis.WriterFiles
import Recorder.Analysis.IndexedWriter
import Recorder.Analysis.WriterCalls
import Recorder.Analysis.Checkpoint
import Recorder.Analysis.WallclockScan
import Recorder.Lib.Decimal
import Recorder.Model.SegmentSeq
import Recorder.Analysis.SegmentSeq
import Recorder.Analysis.BootOrder
import Recorder.Lib.ExchangeSort
import Recorder.Model.Retention
import Recorder.Analysis.RetentionLoop
import Recorder.Analysis.RetentionStore
import Recorder.Analysis.RetentionLimits
import Recorder.Analysis.RetentionOutcome
import Recorder.Analysis.RetentionOrder
import Recorder.Analysis.RecorderRule
import Recorder.Analysis.SegmentMetadata
import Recorder.Analysis.BootNumbers
import Recorder.Lib.ListCursor
import Recorder.Analysis.SourceSeek
import Recorder.Analysis.SourceSeekRecorded
import Recorder.Analysis.IteratorTurn
import Recorder.Analysis.IteratorCursor
import Recorder.Analysis.NonceUse
import Recorder.Analysis.FollowFailure
import Recorder.Analysis.FollowReader
import Recorder.Analysis.FailedRead
import Recorder.Analysis.EntryStorage
import Recorder.Analysis.UnitFilter
import Recorder.Lib.Bisect
import Recorder.Analysis.IndexSearch
import Recorder.Analysis.RealtimeSeek
import Recorder.Model.Modifiers
import Recorder.Analysis.ModifierRouting
import Recorder.Lib.Except
import Recorder.Model.Config
import Recorder.Analysis.ConfigKeys
import Recorder.Analysis.ConfigLoad
import Recorder.Analysis.ConfigGroups
import Recorder.Analysis.ConfigDurability
import Recorder.Analysis.PriorityBound
import Recorder.Analysis.RecorderModifiers
import Recorder.Analysis.CallReading
import Recorder.Analysis.NothingSkipped
import Recorder.Analysis.NeverSynced
import Recorder.Analysis.UnsyncedFrames
import Recorder.Analysis.RetentionReclaim
import Recorder.Lib.Suffix
import Recorder.Model.Player
import Recorder.Analysis.FollowInitial
import Recorder.Analysis.FollowNewest
import Recorder.Analysis.GroupContents
import Recorder.Analysis.SizeString
import Recorder.Analysis.CursorString
import Recorder.Analysis.FallbackPriority
import Recorder.Analysis.FrameLoopReads
import Recorder.Analysis.GroupStats
import Recorder.Analysis.RecoveryTwice
import Recorder.Analysis.RegexRewrite
import Recorder.Analysis.ScriptQueue
import Recorder.Analysis.ReceiptOrder
import Recorder.Analysis.CrashRecovery
import Recorder.Model.BatchReader
import Recorder.Analysis.BatchReading
import Recorder.Analysis.SourceCursor
import Recorder.Analysis.CursorSeek
import Recorder.Analysis.CursorRuns
import Recorder.Analysis.BootOffsets
