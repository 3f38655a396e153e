import ViabtcExchange.Lib.Rounding
import ViabtcExchange.Lib.Dict
import ViabtcExchange.Lib.Chain
import ViabtcExchange.Lib.Accounts
import ViabtcExchange.Lib.Table
import ViabtcExchange.Lib.HashTable
import ViabtcExchange.Decimal
import ViabtcExchange.Balance
import ViabtcExchange.BalanceSpec
import ViabtcExchange.Order
import ViabtcExchange.Market
import ViabtcExchange.Update
import ViabtcExchange.Engine
import ViabtcExchange.Slice
import ViabtcExchange.SliceRetention
import ViabtcExchange.Book
import ViabtcExchange.BookDepth
import ViabtcExchange.Silent
import ViabtcExchange.Loop
import ViabtcExchange.Quotes
import ViabtcExchange.Runs
import ViabtcExchange.Uncrossed
import ViabtcExchange.Restart
import ViabtcExchange.Indexes
import ViabtcExchange.Agreement
import ViabtcExchange.Accounting
import ViabtcExchange.Lib.Greedy
import ViabtcExchange.Lib.Links
import ViabtcExchange.Priority
import ViabtcExchange.Plan
import ViabtcExchange.Postings
import ViabtcExchange.Solvency
import ViabtcExchange.Takers
import ViabtcExchange.Funds
import ViabtcExchange.Covered
import ViabtcExchange.SolventRequests
import ViabtcExchange.Reserves
import ViabtcExchange.Exactness
import ViabtcExchange.Conservation
import ViabtcExchange.History
import ViabtcExchange.Trails
import ViabtcExchange.Transfers
import ViabtcExchange.Events
import ViabtcExchange.Fees
import ViabtcExchange.Job
import ViabtcExchange.Operlog
import ViabtcExchange.HistoryRows
import ViabtcExchange.Shutdown
import ViabtcExchange.Dump
import ViabtcExchange.Ledgers
import ViabtcExchange.Balances
import ViabtcExchange.Lives
import ViabtcExchange.Survival
import ViabtcExchange.Counters
import ViabtcExchange.Server
import ViabtcExchange.Replies
import ViabtcExchange.Load
import ViabtcExchange.Repeats
import ViabtcExchange.Replay
import ViabtcExchange.Recovery
import ViabtcExchange.Incarnations
import ViabtcExchange.OnceADay
import ViabtcExchange.PublishedIds
import ViabtcExchange.Lib.Sql
import ViabtcExchange.Texts
import ViabtcExchange.HistorySql
import ViabtcExchange.Statements
import ViabtcExchange.Lib.Buckets
import ViabtcExchange.Kline
import ViabtcExchange.MarketKlines
import ViabtcExchange.KlineQuery
import ViabtcExchange.MarketStatus
import ViabtcExchange.Lib.Wire
import ViabtcExchange.Lib.Subscribers
import ViabtcExchange.KlineFlush
import ViabtcExchange.Flushes
import ViabtcExchange.KlineSeries
import ViabtcExchange.KlineRuns
import ViabtcExchange.Sessions
import ViabtcExchange.DealsStream
import ViabtcExchange.SesDicts
import ViabtcExchange.Lib.SortedDiff
import ViabtcExchange.Depth
import ViabtcExchange.DepthLaw
import ViabtcExchange.DepthSync
import ViabtcExchange.AccessWs
import ViabtcExchange.PrivateData
import ViabtcExchange.ClosedSessions
import ViabtcExchange.Lib.Framing
import ViabtcExchange.Producer
import ViabtcExchange.SesTables
import ViabtcExchange.Broadcast
import ViabtcExchange.States
import ViabtcExchange.Subscriptions
import ViabtcExchange.Gateway
import ViabtcExchange.AccessHttp
import ViabtcExchange.WsQueries
import ViabtcExchange.ReadServer
import ViabtcExchange.NwBuf
import ViabtcExchange.NwRead
import ViabtcExchange.Rpc
import ViabtcExchange.RpcSize
import ViabtcExchange.Heartbeat
import ViabtcExchange.Dispatch
import ViabtcExchange.WsFrames
import ViabtcExchange.FrameBounds
import ViabtcExchange.WsReply
import ViabtcExchange.HttpParts
import ViabtcExchange.NwWrite
import ViabtcExchange.RpcClt
import ViabtcExchange.Failover
import ViabtcExchange.HistoryOrder
import ViabtcExchange.JsonDump
import ViabtcExchange.Buffers
import ViabtcExchange.Specials
import ViabtcExchange.Admission
import ViabtcExchange.BidSizing
import ViabtcExchange.Units
import ViabtcExchange.Precision
import ViabtcExchange.PreciseRuns
import ViabtcExchange.Listing
import ViabtcExchange.ListedMarkets
import ViabtcExchange.AllOrNothing
import ViabtcExchange.Skiplists
import ViabtcExchange.Lists
import ViabtcExchange.Dicts
import ViabtcExchange.StateTable
import ViabtcExchange.KlineTexts
import ViabtcExchange.Lib.Paging
import ViabtcExchange.OrderQuery
import ViabtcExchange.Reports
import ViabtcExchange.Lib.Feeds
import ViabtcExchange.OrderFeed
import ViabtcExchange.BalanceFeed
import ViabtcExchange.Consumer
import ViabtcExchange.JobLoop
import ViabtcExchange.HistoryQuery
import ViabtcExchange.Summaries
import ViabtcExchange.MonthKlines
import ViabtcExchange.CachedReplies
import ViabtcExchange.MarketServer
import ViabtcExchange.DepthFeed
import ViabtcExchange.MarketValues
