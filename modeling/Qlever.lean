import Qlever.BlockZipperOrder
import Qlever.RdfMultifileParser
import Qlever.QueueManager
import Qlever.UpdateSemantics
import Qlever.ConcurrentCacheRuns
import Qlever.HashMapGroupByCorrect
import Qlever.QueryToSocketDistributor
import Qlever.QueryHub
import Qlever.RdfParallelParserDelivery
import Qlever.PropertyPathTranslation
import Qlever.CompressedVocabularyRuns
import Qlever.QueryPlannerGroup
import Qlever.SetOfIntervalsAlgebra
import Qlever.SolutionModifiers
import Qlever.RangesForEqualIds
import Qlever.BlocksForJoin
import Qlever.MergeTriplesGraphs
import Qlever.PrefilterExtraction
import Qlever.BlankNodeManagersRuns
import Qlever.TextIndexRoundTrip
import Qlever.LimitedScan
import Qlever.DistinctIdCounts
import Qlever.GallopingJoin
import Qlever.SmallerUndefRangesOfIds
import Qlever.SpecialOptionalJoin
import Qlever.Date
import Qlever.Duration
import Qlever.Distinct
import Qlever.Minus
import Qlever.AddCombinedRowToTable
import Qlever.TransitivePath
import Qlever.PathSearch
import Qlever.SortedUnion
import Qlever.CartesianProductJoin
import Qlever.FrequencyEncode
import Qlever.Aggregates
import Qlever.PriorityQueue
import Qlever.PriorityQueue
import Qlever.ParallelMultiwayMerge
import Qlever.CompressedExternalIdTable
import Qlever.CacheAccounting
import Qlever.GroupByShortcuts
import Qlever.ExportRowIndices
import Qlever.Tokenizer
import Qlever.IntegerLiterals
import Qlever.InternalMapping
import Qlever.Literal
import Qlever.SplitVocabularyWriter
import Qlever.PrefixRegex
import Qlever.Pipelines
