import HftPipeline.Order
import HftPipeline.ClosedHashMap
import HftPipeline.FiniteMap
import HftPipeline.Lib.LinkedQueue
import HftPipeline.Lib.NetworkOrder
import HftPipeline.OrderPool
import HftPipeline.BookState
import HftPipeline.RestingBook
import HftPipeline.BookInvariant
import HftPipeline.BookRuns
import HftPipeline.BestPrices
import HftPipeline.Clob
import HftPipeline.Wire
import HftPipeline.Replica
import HftPipeline.Reference
import HftPipeline.Matching
import HftPipeline.Uncrossed
import HftPipeline.ReorderBuffer
import HftPipeline.QuantityUpdate
import HftPipeline.ReorderRuns
import HftPipeline.Interleaving
import HftPipeline.MarketDataHandler
import HftPipeline.GapPartition
import HftPipeline.Delivery
import HftPipeline.MarketMaker
import HftPipeline.Trader
import HftPipeline.Staging
import HftPipeline.Accounting
import HftPipeline.PositionLimit
import HftPipeline.Lib.Since
import HftPipeline.Session
import HftPipeline.OutboundStream
import HftPipeline.DrainedBuffer
import HftPipeline.Lib.VersionedCell
import HftPipeline.CircularCache
import HftPipeline.CacheContents
import HftPipeline.CachedBroadcast
import HftPipeline.SeqLock
import HftPipeline.NextRead
import HftPipeline.Lib.Channel
import HftPipeline.RingBuffers
import HftPipeline.NetworkUtils
import HftPipeline.WireStream
import HftPipeline.RetransmitServer
import HftPipeline.ServedConnection
import HftPipeline.Retransmission
import HftPipeline.StreamedNumbers
import HftPipeline.EventLoop
import HftPipeline.FetchedPackets
import HftPipeline.ManyClients
import HftPipeline.RandomContainer
import HftPipeline.OrderGenerator
import HftPipeline.Submission
import HftPipeline.GeneratedRequests
import HftPipeline.Capacity
import HftPipeline.Lib.CallStack
import HftPipeline.ReturningCalls
import HftPipeline.ScriptedRuns
import HftPipeline.MixedBook
import HftPipeline.ListedPrices
import HftPipeline.Lib.CheckedInt
import HftPipeline.QuoteArithmetic
import HftPipeline.TraderArithmetic
import HftPipeline.QuoteBounds
import HftPipeline.PublishedQuotes
import HftPipeline.Lib.BufferSpan
import HftPipeline.ReceivedBytes
import HftPipeline.Recovery
import HftPipeline.ExchangeLedger
import HftPipeline.TopOfBook
import HftPipeline.Pipeline
import HftPipeline.EndToEnd
import HftPipeline.GeneratedFeed
import HftPipeline.EventualReads
import HftPipeline.OrderBuffer
import HftPipeline.TradingRuns
