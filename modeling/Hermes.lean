import Hermes.Tuple
import Hermes.DeltaCache
import Hermes.DeleteMapGeneratorKernel
import Hermes.DeltaMergeFilter
import Hermes.DeltaMergePOp
import Hermes.Library.Chunks
import Hermes.Library.Scan
import Hermes.Library.Overlay
import Hermes.Library.KeyOrder
import Hermes.DeleteMapMerge
import Hermes.LatestVersion
import Hermes.DeleteMapSelection
import Hermes.DeltaMergeResult
import Hermes.Library.Transition
import Hermes.DeltaCacheActor
import Hermes.DeltaMergeRounds
import Hermes.Library.SortedMap
import Hermes.BinlogParser
import Hermes.KeepMapCacheMode
import Hermes.BatchedKeepMap
import Hermes.BatchedDeltaMerge
import Hermes.BatchedOverlay
import Hermes.AllVersions
import Hermes.DeltaCacheSystem
import Hermes.NoLostDelta
import Hermes.TimestampOrder
import Hermes.BitmapAvailability
import Hermes.SortedVersions
import Hermes.Library.Framing
import Hermes.LogParser
import Hermes.LogConsumption
import Hermes.QuerySnapshot
import Hermes.DeltaMergeArrival
import Hermes.ArrivalOrder
import Hermes.BatchQueues
import Hermes.Library.PredicateTree
import Hermes.PartitionPruner
import Hermes.Library.ListJoin
import Hermes.OuterJoinHelper
import Hermes.HashJoinProbeAbstractKernel
import Hermes.HashJoinProbeKernel
import Hermes.HashJoinOutput
import Hermes.HashSemiJoinProbeKernel
import Hermes.HashSemiJoinOutput
import Hermes.NestedLoopJoinKernel
import Hermes.NestedLoopJoinOutput
import Hermes.POpActor
import Hermes.POpContext
import Hermes.Table
import Hermes.Library.Pairing
import Hermes.MergePOp
import Hermes.ShufflePOp
import Hermes.ShuffleOutput
import Hermes.AggregateFunction
import Hermes.Library.Pieces
import Hermes.PartialAggregation
import Hermes.GroupKernel
import Hermes.GroupOutput
import Hermes.SplitPOp
import Hermes.NestedLoopJoinPOp
import Hermes.ParallelNestedLoopJoin
import Hermes.Library.Lines
import Hermes.CSVParser
import Hermes.CSVTiling
import Hermes.SlicedBloomFilter
import Hermes.BloomReliability
import Hermes.GandivaExpression
import Hermes.RexNode
import Hermes.RexJsonSerializer
import Hermes.ExpressionDeserializer
import Hermes.PrePhysicalOp
import Hermes.PlanDeserializer
import Hermes.FilterFolding
import Hermes.JoinKeys
import Hermes.BeladyCachingPolicy
import Hermes.BeladySpace
import Hermes.PlanMeaning
import Hermes.PrePhysicalPlan
import Hermes.ColumnTrimming
import Hermes.CacheLoadPOp
import Hermes.Library.Network
import Hermes.S3SelectPOp
import Hermes.HybridScan
import Hermes.PartitionMerge
import Hermes.HybridScanOutput
import Hermes.HybridScanResult
import Hermes.ColumnIterator
import Hermes.TupleSetConcatenation
import Hermes.Library.ThreeValued
import Hermes.RexFilter
import Hermes.EnhancedFilterJoinPruner
import Hermes.EnhancedFilterJoinExtractor
import Hermes.EntirePushdown
import Hermes.JoinExtraction
import Hermes.ArrowAWSGZIPInputStream2
import Hermes.CSVToArrowSIMDStreamParser
import Hermes.SIMDRows
import Hermes.SIMDFile
import Hermes.POpSerializer
import Hermes.RemoteSpawn
import Hermes.Library.Wiring
import Hermes.PrePToPTransformer
import Hermes.PlanWiring
import Hermes.PlanStages
import Hermes.PlanScans
import Hermes.ResultGeneratorKernel
import Hermes.FilterSelection
import Hermes.ChunkEmission
import Hermes.ParserRecords
import Hermes.S3Partition
import Hermes.Library.Ranges
import Hermes.S3CSVParser
import Hermes.S3GetPOp
import Hermes.DeleteMapProgress
import Hermes.KeySearch
import Hermes.OrderedScanColumns
import Hermes.S3ScanRanges
import Hermes.Library.Bisection
import Hermes.BatchedBitmap
import Hermes.SimpleExpressionCanonicalizer
import Hermes.NegationNormalForm
import Hermes.Library.Entries
import Hermes.JoinRenames
import Hermes.ExpressionColumns
import Hermes.CollectedFields
import Hermes.SentColumns
import Hermes.AggregateInput
import Hermes.TransformedPlan
import Hermes.LineorderRouting
import Hermes.BatchedObjectKey
import Hermes.PruneOrder
import Hermes.TupleKeyNulls
import Hermes.TupleSetIndexRuns
import Hermes.CacheLoadResponse
import Hermes.LRURefinement
import Hermes.LFUBookkeeping
import Hermes.RefusedStores
import Hermes.LimitSortPOp
import Hermes.CSVToArrowSIMDChunkParser
import Hermes.SIMDIndexRoom
import Hermes.SIMDChunks
import Hermes.Execution
import Hermes.MergeOutput
import Hermes.RelayedQueries
import Hermes.ParallelHashJoin
import Hermes.ParallelGroup
import Hermes.Library.Dataflow
import Hermes.FreshReads
import Hermes.LogReads
import Hermes.EnhancedFilterJoinRule
import Hermes.SegmentCacheActor
