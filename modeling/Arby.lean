import Arby.Kit.Run
import Arby.Kit.Linearization
import Arby.Kit.OrdMap
import Arby.Kit.Nodes
import Arby.Kit.Allocated
import Arby.Kit.Outcome
import Arby.Kit.Json
import Arby.Kit.Ring
import Arby.Kit.Slots
import Arby.Kit.Handles
import Arby.Kit.Chain
import Arby.Kit.InputStream
import Arby.Kit.Hex
import Arby.Kit.Channel
import Arby.Asioex.BilistNode
import Arby.Asioex.AsyncSemaphore
import Arby.Asioex.BilistRun
import Arby.Asioex.SemaphoreRun
import Arby.Asioex.SemaphoreDestruction
import Arby.Entity.EntityKey
import Arby.Entity.KeyHeap
import Arby.Entity.KeyOrder
import Arby.Entity.KeySharing
import Arby.Entity.EntityService
import Arby.Entity.KeyAssertions
import Arby.Entity.KeyDigest
import Arby.Entity.ServiceLock
import Arby.Entity.ServiceLinear
import Arby.Entity.EntityHandle
import Arby.Entity.HandleRun
import Arby.Web.EntitySummaryApp
import Arby.Web.EntityDetailApp
import Arby.Logging.DataLog
import Arby.Logging.DataLogRun
import Arby.Trading.Types
import Arby.Trading.FeedCondition
import Arby.Trading.MarketKey
import Arby.Trading.SpotKey
import Arby.PowerTrade.TickRecord
import Arby.PowerTrade.OrderBook
import Arby.PowerTrade.Placement
import Arby.PowerTrade.Replay
import Arby.PowerTrade.BookInvariants
import Arby.PowerTrade.PartialFill
import Arby.PowerTrade.LiveOrders
import Arby.PowerTrade.LiveBook
import Arby.PowerTrade.LiveView
import Arby.PowerTrade.BookTotals
import Arby.PowerTrade.RepeatedIds
import Arby.PowerTrade.SideIndependence
import Arby.PowerTrade.TickHistory
import Arby.PowerTrade.HistoryRun
import Arby.PowerTrade.OrderbookSnapshotService
import Arby.PowerTrade.ServiceRun
import Arby.PowerTrade.Watermarks
import Arby.PowerTrade.InStep
import Arby.PowerTrade.CatchUp
import Arby.PowerTrade.BookAssignment
import Arby.PowerTrade.SnapshotDelivery
import Arby.PowerTrade.ConnectionState
import Arby.PowerTrade.OrderbookListenerImpl
import Arby.PowerTrade.NativeSymbol
import Arby.Trading.KeyStream
import Arby.PowerTrade.TickDecoding
import Arby.PowerTrade.TickReadings
import Arby.PowerTrade.ListenerRun
import Arby.PowerTrade.ListenerCondition
import Arby.PowerTrade.SnapshotSharing
import Arby.PowerTrade.SnapshotSource
import Arby.PowerTrade.ListenerService
import Arby.PowerTrade.ListenerWatermarks
import Arby.PowerTrade.ListenerView
import Arby.PowerTrade.ListenerMemory
import Arby.PowerTrade.MarketFeed
import Arby.PowerTrade.TickLogger
import Arby.PowerTrade.LogReplay
import Arby.Kit.Regex
import Arby.PowerTrade.ListenerStart
import Arby.PowerTrade.InboundMessage
import Arby.PowerTrade.MessageReads
import Arby.PowerTrade.ReceiveLoop
import Arby.PowerTrade.ConnectorImpl
import Arby.PowerTrade.ConnectorLifecycle
import Arby.PowerTrade.ImplHandles
import Arby.PowerTrade.Watches
import Arby.PowerTrade.Subscriptions
import Arby.Util.StringList
import Arby.Util.Truncate
import Arby.Util.Table
import Arby.Util.Monitor
import Arby.PowerTrade.BookTable
import Arby.Web.Routes
import Arby.Web.HttpServer
